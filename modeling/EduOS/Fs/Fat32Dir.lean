import EduOS.Fs.Fat32Volume
import EduOS.Lib.String
import EduOS.Library.PagedChain

/-!
# FAT32 directories

`kernel/fs/fat32_dir.c`: names in 8.3 format, the walk over the entries of a directory, and
the lookup of a path.

Three loops of the source walk over a directory, cluster by cluster and entry by entry, and
do different things with an entry; `dirWalk` is the walk with what is done as a parameter.
On a volume whose view is known it is a walk over that view (`Shows.dirWalk`), and over a
chain that ends it is the visit of a list of slots (`DirChain.walk`).

`name` is an array of `char`, which is signed, so `name[0]` is never equal to the mark of a
deleted entry, 0xE5.
-/

namespace EduOS

open List Option

/-! ## Names -/

def fatAttrVolumeId : BitVec 8 := 0x08

def fatAttrDirectory : BitVec 8 := 0x10

def fatAttrArchive : BitVec 8 := 0x20

def fatDirEntryFree : ℤ := 0xE5

def fatDirEntryEnd : ℤ := 0x00

/-- The character `.`. -/
def dot : BitVec 8 := 0x2E

/-- The character that names are filled up with. -/
def blank : BitVec 8 := 0x20

/-- `format_83_name`, of the 11 bytes of a name. -/
def format83Name (fatName : List (BitVec 8)) : List (BitVec 8) :=
  (fatName.take 8).takeWhile (· ≠ blank) ++
    if fatName.getD 8 0 ≠ blank then dot :: (fatName.drop 8).takeWhile (· ≠ blank) else []

/-- `name_match` -/
def nameMatch (fatName name : List (BitVec 8)) : Bool :=
  strcasecmp (cString (format83Name fatName)) name = 0

/-- `entry->name[0] == FAT_DIR_ENTRY_END` -/
def DirEntry.isEnd (entry : DirEntry) : Bool := (entry 0).toInt = fatDirEntryEnd

/-- `entry->name[0] == FAT_DIR_ENTRY_FREE` -/
def DirEntry.isFree (entry : DirEntry) : Bool := (entry 0).toInt = fatDirEntryFree

/-- The three tests by which entries are passed over. -/
def DirEntry.isSkipped (entry : DirEntry) : Bool :=
  entry.isFree || entry.attr = fatAttrLongName || entry.attr &&& fatAttrVolumeId ≠ 0

/-- `entry->attr & FAT_ATTR_DIRECTORY` -/
def DirEntry.isDirectory (entry : DirEntry) : Bool := entry.attr &&& fatAttrDirectory ≠ 0

variable {entry : DirEntry}

theorem DirEntry.isEnd_iff : entry.isEnd = true ↔ entry 0 = 0 := by
  rw [isEnd, decide_eq_true_eq]
  exact ⟨fun zero => BitVec.eq_of_toInt_eq zero, fun zero => by rw [zero]; rfl⟩

/-- No entry carries the mark of a deleted one. -/
theorem DirEntry.isFree_eq_false (entry : DirEntry) : entry.isFree = false := by
  have all : ∀ c : BitVec 8, c.toInt ≠ fatDirEntryFree := by decide +kernel
  exact decide_eq_false (all _)

/-! ## The walk over a directory -/

/-- Entry `i` in a buffer. -/
def entryAt (buf : Bytes) (i : ℕ) : DirEntry := fun j => buf (32 * i + j)

/-- `cluster_size / sizeof(struct fat32_dir_entry)` -/
def FatInfo.entriesPerCluster (fs : FatInfo) : ℕ := fs.clusterSize / 32

/-- How a walk over a directory ends. -/
inductive DirWalk (σ ρ : Type) where
  /-- After the last cluster, with the number that ended it. -/
  | ended (cluster : ℕ) (s : σ)
  /-- At a cluster that cannot be read. -/
  | unreadable
  /-- At an entry. -/
  | found (r : ρ)

/-- What is done at an entry, given by its cluster and index: go on, or stop. -/
abbrev Visit (σ ρ : Type) := ℕ → ℕ → DirEntry → σ → σ ⊕ ρ

section

variable {σ ρ : Type} (fs : FatInfo) (dev : BlockDevice) (visit : Visit σ ρ)

/-- One pass of the loop over the clusters. -/
def dirPass : ℕ × σ → Option (ℕ × σ ⊕ DirWalk σ ρ)
  | (cluster, s) =>
    if cluster < 2 ∨ fat32IsEoc cluster = true then some (Sum.inr (.ended cluster s))
    else
      match fat32ReadCluster fs dev cluster fun _ => 0 with
      | .error _ => some (Sum.inr .unreadable)
      | .ok buf =>
        match scan (fun i s => visit cluster i (entryAt buf i) s) 0 fs.entriesPerCluster s with
        | Sum.inr r => some (Sum.inr (.found r))
        | Sum.inl s => (fat32ReadFat fs dev cluster).map fun next => Sum.inl (next, s)

/-- The walk over a directory. -/
def dirWalk (cluster : ℕ) (s : σ) : Option (DirWalk σ ρ) :=
  loop (dirPass fs dev visit) (2 ^ 32) (cluster, s)

end

/-- What `fat32_find_in_dir` does at an entry. -/
def findVisit (name : List (BitVec 8)) : Visit Unit (Option DirEntry) := fun _ _ entry _ =>
  if entry.isEnd then Sum.inr none
  else if entry.isSkipped then Sum.inl ()
  else if nameMatch entry.name name then Sum.inr (some entry)
  else Sum.inl ()

/-- `fat32_find_in_dir`, with memory; the outer `none` if the chain does not end. -/
def fat32FindInDir (fs : FatInfo) (dev : BlockDevice) (dirCluster : ℕ) (name : List (BitVec 8)) :
    Option (Option DirEntry) :=
  (dirWalk fs dev (findVisit name) dirCluster ()).map fun
    | .found r => r
    | _ => none

/-- What `fat32_readdir` does at an entry. -/
def readdirVisit (index : ℕ) : Visit ℕ (Option DirEntry) := fun _ _ entry current =>
  if entry.isEnd then Sum.inr none
  else if entry.isSkipped then Sum.inl current
  else if current = index then Sum.inr (some entry)
  else Sum.inl (current + 1)

/-- `fat32_readdir`, with memory: the entry with this index, if there is one, or an error. -/
def fat32Readdir (fs : FatInfo) (dev : BlockDevice) (dirCluster index : ℕ) :
    Option (Except ℕ (Option DirEntry)) :=
  (dirWalk fs dev (readdirVisit index) dirCluster 0).map fun
    | .found r => .ok r
    | .ended _ _ => .ok none
    | .unreadable => .error eio

/-! ## Paths -/

/-- The character `/`. -/
def slash : BitVec 8 := 0x2F

/-- `memset(entry, 0, sizeof(struct fat32_dir_entry))` -/
def DirEntry.zero : DirEntry := fun _ => 0

/-- `memcpy(entry->name, name, 11)` -/
def DirEntry.setName (entry : DirEntry) (name : List (BitVec 8)) : DirEntry := fun j =>
  if j.val < 11 then name.getD j.val 0 else entry j

def DirEntry.setAttr (entry : DirEntry) (attr : BitVec 8) : DirEntry :=
  Function.update entry 11 attr

/-- The entry that stands for the root directory. -/
def rootEntry (fs : FatInfo) : DirEntry :=
  ((DirEntry.zero.setName (slash :: List.replicate 10 blank)).setAttr
    fatAttrDirectory).setFirstCluster
    fs.rootCluster

/-- One pass of the loop of `fat32_lookup` over the tokens, with the rest of the path. -/
def lookupPass (fs : FatInfo) (dev : BlockDevice) :
    (List (BitVec 8) × List (BitVec 8)) × ℕ →
      Option ((List (BitVec 8) × List (BitVec 8)) × ℕ ⊕ Option DirEntry)
  | ((token, rest), cluster) =>
    (fat32FindInDir fs dev cluster token).map fun found =>
      match found, strtok slash rest with
      | none, _ => Sum.inr none
      | some entry, none => Sum.inr (some entry)
      | some entry, some next =>
        if entry.isDirectory then Sum.inl (next, entry.firstCluster) else Sum.inr none

/-- `if (path[0] == '/') path++;` -/
def skipSlash (path : List (BitVec 8)) : List (BitVec 8) :=
  if path.head? = some slash then path.tail else path

/-- `fat32_lookup`; `memory` says if its allocations succeed. -/
def fat32Lookup (memory : Bool) (fs : FatInfo) (dev : BlockDevice) (path : List (BitVec 8)) :
    Option (Option DirEntry) :=
  if memory = false then some none
  else if skipSlash path = [] then some (some (rootEntry fs))
  else
    match strtok slash (skipSlash path) with
    | none => some none
    | some first => loop (lookupPass fs dev) (2 ^ 32) (first, fs.rootCluster)

/-! ## The walk over a view -/

/-- Entry `i` of a cluster. -/
def FatView.dirEntry (view : FatView) (cluster i : ℕ) : DirEntry := entryAt (view.byte cluster) i

variable {sectors : ℕ} {slot : ℕ × ℕ}

section

variable {σ ρ : Type} {fs : FatInfo} {dev : BlockDevice} {view : FatView}

/-- One pass of the walk, over a view. -/
def viewPass (fs : FatInfo) (view : FatView) (visit : Visit σ ρ) :
    ℕ × σ → Option (ℕ × σ ⊕ DirWalk σ ρ)
  | (cluster, s) =>
    if cluster < 2 ∨ fat32IsEoc cluster = true then some (Sum.inr (.ended cluster s))
    else if fs.InRange cluster then
      match scan (fun i s => visit cluster i (view.dirEntry cluster i) s) 0
          fs.entriesPerCluster s with
      | Sum.inr r => some (Sum.inr (.found r))
      | Sum.inl s => some (Sum.inl (view.entry cluster, s))
    else some (Sum.inr .unreadable)

theorem entryAt_congr {buf buf' : Bytes} {i size : ℕ} (below : i < size / 32)
    (same : ∀ j, j < size → buf' j = buf j) : entryAt buf' i = entryAt buf i := by
  funext j
  exact same _ (by omega)

/-- Reading the volume is reading the view. -/
theorem Shows.dirPass (shows : Shows fs dev view) (visit : Visit σ ρ) :
    dirPass fs dev visit = viewPass fs view visit := by
  funext ⟨cluster, s⟩
  by_cases ended : cluster < 2 ∨ fat32IsEoc cluster = true
  · simp only [EduOS.dirPass, viewPass, if_pos ended]
  simp only [EduOS.dirPass, viewPass, if_neg ended]
  by_cases range : fs.InRange cluster
  · obtain ⟨buf, read, bytes⟩ := shows.readCluster range fun _ => 0
    have same : scan (fun i s => visit cluster i (entryAt buf i) s) 0 fs.entriesPerCluster s =
        scan (fun i s => visit cluster i (view.dirEntry cluster i) s) 0 fs.entriesPerCluster s := by
      refine scan_congr 0 fs.entriesPerCluster s fun i _ below s => ?_
      have inside : i < fs.clusterSize / 32 := by
        rw [Nat.zero_add, FatInfo.entriesPerCluster] at below
        exact below
      rw [entryAt_congr inside bytes]
      rfl
    rw [read, if_pos range]
    dsimp only
    rw [same, shows.readFat range]
    split <;> rfl
  · have refused : fat32ReadCluster fs dev cluster (fun _ => 0) = .error einval :=
      if_pos (by unfold FatInfo.InRange at range; omega)
    rw [refused, if_neg range]

/-! ## Chains -/

/-- The clusters of a directory that starts at a cluster. -/
structure DirChain (fs : FatInfo) (view : FatView) (start : ℕ) (chain : List ℕ) : Prop where
  first : chain.head? = some start
  inRange : ∀ c ∈ chain, fs.InRange c
  chained : Chained view.entry (fat32IsEoc · = true) chain
  nodup : chain.Nodup

/-- The places for entries in these clusters, one after the other. -/
def dirSlots (fs : FatInfo) (chain : List ℕ) : List (ℕ × ℕ) :=
  chain.flatMap fun c => (List.range fs.entriesPerCluster).map fun i => (c, i)

/-- The visit of a list of slots. -/
def visitSlots (view : FatView) (visit : Visit σ ρ) : List (ℕ × ℕ) → σ → σ ⊕ ρ
  | [], s => Sum.inl s
  | (c, i) :: rest, s =>
    match visit c i (view.dirEntry c i) s with
    | Sum.inl s => visitSlots view visit rest s
    | Sum.inr r => Sum.inr r

theorem visitSlots_append (visit : Visit σ ρ) (front back : List (ℕ × ℕ)) (s : σ) :
    visitSlots view visit (front ++ back) s =
      match visitSlots view visit front s with
      | Sum.inl s => visitSlots view visit back s
      | Sum.inr r => Sum.inr r := by
  induction front generalizing s with
  | nil => rfl
  | cons slot front ih =>
    obtain ⟨c, i⟩ := slot
    rw [cons_append, visitSlots, visitSlots]
    cases visit c i (view.dirEntry c i) s with
    | inl s => exact ih s
    | inr r => rfl

/-- The scan of a cluster visits its slots. -/
theorem scan_eq_visitSlots (visit : Visit σ ρ) (c first count : ℕ) (s : σ) :
    scan (fun i s => visit c i (view.dirEntry c i) s) first count s =
      visitSlots view visit ((List.range' first count).map fun i => (c, i)) s := by
  induction count generalizing first s with
  | zero => rfl
  | succ count ih =>
    rw [scan_succ, List.range'_succ, map_cons, visitSlots]
    cases visit c first (view.dirEntry c first) s with
    | inl s => exact ih (first + 1) s
    | inr r => rfl

variable {c start : ℕ} {chain : List ℕ} {slots : List (ℕ × ℕ)} {name : List (BitVec 8)}

/-- One pass over a cluster of a chain. -/
theorem viewPass_inRange (geometry : FatGeometry fs sectors) (range : fs.InRange c)
    (visit : Visit σ ρ) (s : σ) :
    viewPass fs view visit (c, s) =
      match visitSlots view visit ((List.range fs.entriesPerCluster).map fun i => (c, i)) s with
      | Sum.inr r => some (Sum.inr (.found r))
      | Sum.inl s => some (Sum.inl (view.entry c, s)) := by
  have below := range.1
  have inside : ¬(c < 2 ∨ fat32IsEoc c = true) := by
    rw [geometry.not_eoc range]
    rintro (small | is_eoc)
    · omega
    · cases is_eoc
  simp only [viewPass, if_neg inside, if_pos range]
  rw [scan_eq_visitSlots, ← range_eq_range']

/-- How a walk ends that has not stopped at an entry. -/
def walkEnd (last : ℕ) (s : σ) : DirWalk σ ρ :=
  if last < 2 ∨ fat32IsEoc last = true then .ended last s else .unreadable

/-- The pass after the last cluster. -/
theorem viewPass_outside {last : ℕ} (outside : ¬fs.InRange last) (visit : Visit σ ρ) (s : σ) :
    viewPass fs view visit (last, s) = some (Sum.inr (walkEnd last s)) := by
  simp only [viewPass, walkEnd, if_neg outside]
  split <;> rfl

/-- Following the links from a cluster passes `chain` and stops at `last`, which is no cluster
of the volume. -/
def Follows (fs : FatInfo) (view : FatView) : ℕ → List ℕ → ℕ → Prop
  | start, [], last => start = last ∧ ¬fs.InRange last
  | start, c :: rest, last => start = c ∧ fs.InRange c ∧ Follows fs view (view.entry c) rest last

section

variable {last : ℕ}

section

variable (follows : Follows fs view start chain last)
include follows

theorem Follows.unique {chain' : List ℕ} {last' : ℕ}
    (follows' : Follows fs view start chain' last') : chain = chain' ∧ last = last' := by
  induction chain generalizing start chain' with
  | nil =>
    obtain ⟨rfl, outside⟩ := follows
    cases chain' with
    | nil => exact ⟨rfl, follows'.1⟩
    | cons c rest => exact absurd (follows'.1 ▸ follows'.2.1) outside
  | cons c rest ih =>
    obtain ⟨rfl, range, more⟩ := follows
    cases chain' with
    | nil => exact absurd (follows'.1 ▸ range) follows'.2
    | cons c' rest' =>
      obtain ⟨rfl, _, more'⟩ := follows'
      obtain ⟨rfl, rfl⟩ := ih more more'
      exact ⟨rfl, rfl⟩

/-- From a cluster on the way the rest is followed. -/
theorem Follows.from_mem (mem : c ∈ chain) :
    ∃ rest, Follows fs view c rest last ∧ rest.length ≤ chain.length := by
  induction chain generalizing start with
  | nil => cases mem
  | cons d rest ih =>
    rcases mem_cons.mp mem with rfl | later
    · exact ⟨_, follows.1 ▸ follows, le_rfl⟩
    · obtain ⟨rest', there, shorter⟩ := ih follows.2.2 later
      exact ⟨rest', there, shorter.trans (Nat.le_succ _)⟩

theorem Follows.inRange : ∀ c ∈ chain, fs.InRange c := by
  intro c mem
  induction chain generalizing start with
  | nil => cases mem
  | cons d rest ih =>
    rcases mem_cons.mp mem with rfl | later
    · exact follows.2.1
    · exact ih follows.2.2 later

/-- A way that ends does not come back. -/
theorem Follows.nodup : chain.Nodup := by
  induction chain generalizing start with
  | nil => exact nodup_nil
  | cons c rest ih =>
    refine nodup_cons.mpr ⟨fun again => ?_, ih follows.2.2⟩
    obtain ⟨rest', there, shorter⟩ := Follows.from_mem follows.2.2 again
    have same := (Follows.unique (follows.1 ▸ follows) there).1
    rw [← same, length_cons] at shorter
    omega

theorem Follows.length_lt (geometry : FatGeometry fs sectors) : chain.length < 2 ^ 32 := by
  have inside : chain.toFinset ⊆ Finset.Ico 2 fs.totalClusters := fun c mem =>
    Finset.mem_Ico.mpr (follows.inRange c (mem_toFinset.mp mem))
  have card := Finset.card_le_card inside
  rw [toFinset_card_of_nodup follows.nodup, Nat.card_Ico] at card
  have numbers := geometry.numbers
  rw [fat32BadCluster] at numbers
  omega

end

/-- The walk from a cluster on. -/
theorem Follows.loop_viewPass (geometry : FatGeometry fs sectors) (visit : Visit σ ρ) {n : ℕ}
    {s : σ} (follows : Follows fs view start chain last) (enough : chain.length < n) :
    loop (viewPass fs view visit) n (start, s) =
      some (match visitSlots view visit (dirSlots fs chain) s with
        | Sum.inr r => .found r
        | Sum.inl s => walkEnd last s) := by
  induction chain generalizing start n s with
  | nil =>
    obtain ⟨rfl, outside⟩ := follows
    obtain ⟨n, rfl⟩ : ∃ k, n = k + 1 := ⟨n - 1, by simp at enough; omega⟩
    exact loop_of_leave _ (viewPass_outside outside visit s)
  | cons c rest ih =>
    obtain ⟨rfl, range, more⟩ := follows
    obtain ⟨n, rfl⟩ : ∃ k, n = k + 1 := ⟨n - 1, by simp at enough; omega⟩
    have pass : viewPass fs view visit (start, s) = _ := viewPass_inRange geometry range visit s
    have slots : dirSlots fs (start :: rest) =
        ((List.range fs.entriesPerCluster).map fun i => (start, i)) ++ dirSlots fs rest := rfl
    rw [slots, visitSlots_append]
    cases visited : visitSlots view visit
        ((List.range fs.entriesPerCluster).map fun i => (start, i)) s with
    | inr r =>
      rw [visited] at pass
      exact loop_of_leave _ pass
    | inl s =>
      rw [visited] at pass
      rw [loop_of_continue _ pass]
      exact ih more (by simpa using enough)

/-- The walk over a directory whose links end somewhere. -/
theorem Follows.walk (follows : Follows fs view start chain last) (shows : Shows fs dev view)
    (visit : Visit σ ρ) (s : σ) :
    dirWalk fs dev visit start s =
      some (match visitSlots view visit (dirSlots fs chain) s with
        | Sum.inr r => .found r
        | Sum.inl s => walkEnd last s) := by
  rw [dirWalk, shows.dirPass]
  exact follows.loop_viewPass shows.geometry visit (follows.length_lt shows.geometry)

end

theorem DirChain.follows (geometry : FatGeometry fs sectors) :
    ∀ {chain : List ℕ} {start : ℕ}, DirChain fs view start chain →
      ∃ last, fat32IsEoc last = true ∧ Follows fs view start chain last
  | [], _, dir => by cases dir.first
  | [c], start, dir => by
    obtain rfl : c = start := by simpa using dir.first
    refine ⟨view.entry c, dir.chained, rfl, dir.inRange c (by simp), rfl, fun range => ?_⟩
    exact absurd ((geometry.not_eoc range).symm.trans dir.chained) (by simp)
  | c :: d :: rest, start, ⟨first, inRange, chained, nodup⟩ => by
    obtain rfl : c = start := by simpa using first
    have later : DirChain fs view d (d :: rest) :=
      ⟨rfl, fun c mem => inRange c (mem_cons_of_mem _ mem), chained.2, nodup.of_cons⟩
    obtain ⟨last, eoc, more⟩ := DirChain.follows geometry later
    exact ⟨last, eoc, rfl, inRange c (by simp), chained.1 ▸ more⟩

/-- **The walk over a directory** visits the slots of its clusters. -/
theorem DirChain.walk (dir : DirChain fs view start chain) (shows : Shows fs dev view)
    (visit : Visit σ ρ) (s : σ) :
    ∃ last, fat32IsEoc last = true ∧
      dirWalk fs dev visit start s =
        some (match visitSlots view visit (dirSlots fs chain) s with
          | Sum.inr r => .found r
          | Sum.inl s => .ended last s) := by
  obtain ⟨last, eoc, follows⟩ := dir.follows shows.geometry
  refine ⟨last, eoc, ?_⟩
  rw [follows.walk shows]
  simp [walkEnd, eoc]

/-! ## Finding -/

/-- The entry found in a list of slots. -/
def findSlots (view : FatView) (name : List (BitVec 8)) (slots : List (ℕ × ℕ)) : Option DirEntry :=
  match visitSlots view (findVisit name) slots () with
  | Sum.inr r => r
  | Sum.inl _ => none

/-- The slots before the end mark whose entries are not passed over. -/
def listedSlots (view : FatView) (slots : List (ℕ × ℕ)) : List (ℕ × ℕ) :=
  (slots.takeWhile fun slot => !(view.dirEntry slot.1 slot.2).isEnd).filter fun slot =>
    !(view.dirEntry slot.1 slot.2).isSkipped

/-- The entries on these slots. -/
def listedEntries (view : FatView) (slots : List (ℕ × ℕ)) : List DirEntry :=
  (listedSlots view slots).map fun slot => view.dirEntry slot.1 slot.2

theorem mem_listedSlots (mem : slot ∈ listedSlots view slots) :
    slot ∈ slots ∧ (view.dirEntry slot.1 slot.2).isEnd = false ∧
      (view.dirEntry slot.1 slot.2).isSkipped = false := by
  obtain ⟨before, listed⟩ := mem_filter.mp mem
  have shown := mem_takeWhile_imp before
  exact ⟨(takeWhile_sublist _).subset before, by simpa using shown, by simpa using listed⟩

theorem listedEntries_cons (view : FatView) (c i : ℕ) (slots : List (ℕ × ℕ)) :
    listedEntries view ((c, i) :: slots) =
      if (view.dirEntry c i).isEnd then []
      else if (view.dirEntry c i).isSkipped then listedEntries view slots
      else view.dirEntry c i :: listedEntries view slots := by
  rw [listedEntries, listedSlots, takeWhile_cons]
  cases (view.dirEntry c i).isEnd with
  | true => rfl
  | false =>
    rw [Bool.not_false, if_pos rfl, filter_cons]
    cases (view.dirEntry c i).isSkipped <;> rfl

/-- **A search finds** the first entry with the name that is listed. -/
theorem findSlots_eq (view : FatView) (name : List (BitVec 8)) (slots : List (ℕ × ℕ)) :
    findSlots view name slots =
      (listedEntries view slots).find? fun entry => nameMatch entry.name name := by
  induction slots with
  | nil => rfl
  | cons slot rest ih =>
    obtain ⟨c, i⟩ := slot
    rw [findSlots] at ih ⊢
    rw [visitSlots, findVisit, listedEntries_cons]
    cases (view.dirEntry c i).isEnd with
    | true => rfl
    | false =>
      cases (view.dirEntry c i).isSkipped with
      | true => exact ih
      | false => cases hit : nameMatch (view.dirEntry c i).name name <;> simp [hit, ih]

/-- The listing under an index, from a slot with `current` entries before it. -/
theorem visitSlots_readdirVisit (view : FatView) (slots : List (ℕ × ℕ)) {index current : ℕ}
    (le : current ≤ index) :
    (match visitSlots view (readdirVisit index) slots current with
      | Sum.inr r => r
      | Sum.inl _ => none) = (listedEntries view slots)[index - current]? := by
  induction slots generalizing current with
  | nil => rfl
  | cons slot rest ih =>
    obtain ⟨c, i⟩ := slot
    rw [visitSlots, readdirVisit, listedEntries_cons]
    cases (view.dirEntry c i).isEnd with
    | true => rfl
    | false =>
      cases (view.dirEntry c i).isSkipped with
      | true => exact ih le
      | false =>
        by_cases here : current = index
        · simp [here]
        · have later := ih (show current + 1 ≤ index by omega)
          have next : index - current = index - (current + 1) + 1 := by omega
          simpa [here, next] using later

/-- **What `fat32_readdir` lists** in a directory whose links end somewhere. -/
theorem Follows.readdir_iff {last index : ℕ} (follows : Follows fs view start chain last)
    (shows : Shows fs dev view) :
    fat32Readdir fs dev start index = some (.ok (some entry)) ↔
      (listedEntries view (dirSlots fs chain))[index]? = some entry := by
  have listed := visitSlots_readdirVisit view (dirSlots fs chain) (Nat.zero_le index)
  rw [Nat.sub_zero] at listed
  rw [fat32Readdir, follows.walk shows, ← listed]
  cases visitSlots view (readdirVisit index) (dirSlots fs chain) 0 with
  | inr r => simp
  | inl s =>
    simp only [walkEnd]
    split_ifs <;> simp

theorem Follows.find {last : ℕ} (follows : Follows fs view start chain last)
    (shows : Shows fs dev view) (name : List (BitVec 8)) :
    fat32FindInDir fs dev start name =
      some ((listedEntries view (dirSlots fs chain)).find? fun entry =>
        nameMatch entry.name name) := by
  rw [← findSlots_eq, fat32FindInDir, follows.walk shows, findSlots]
  cases visitSlots view (findVisit name) (dirSlots fs chain) () with
  | inr r => rfl
  | inl s =>
    simp only [walkEnd]
    split_ifs <;> simp

theorem mem_dirSlots :
    slot ∈ dirSlots fs chain ↔ slot.1 ∈ chain ∧ slot.2 < fs.entriesPerCluster := by
  obtain ⟨c, i⟩ := slot
  simp [dirSlots]

/-- The slots of one cluster. -/
theorem mem_clusterSlots (mem : slot ∈ (List.range fs.entriesPerCluster).map fun i => (c, i)) :
    slot.1 = c ∧ slot.2 < fs.entriesPerCluster := by
  obtain ⟨i, inside, rfl⟩ := mem_map.mp mem
  exact ⟨rfl, mem_range.mp inside⟩

theorem dirSlots_nodup (fs : FatInfo) (nodup : chain.Nodup) : (dirSlots fs chain).Nodup := by
  refine nodup_flatMap.mpr ⟨fun c _ => ?_, ?_⟩
  · exact nodup_range.map fun i j same => (Prod.mk.inj same).2
  · refine nodup.imp fun apart slot first second => apart ?_
    exact (mem_clusterSlots first).1.symm.trans (mem_clusterSlots second).1

/-- A visit only depends on the entries it meets. -/
theorem visitSlots_congr {view' : FatView} {visit : Visit σ ρ}
    (same : ∀ slot ∈ slots, view'.dirEntry slot.1 slot.2 = view.dirEntry slot.1 slot.2) (s : σ) :
    visitSlots view' visit slots s = visitSlots view visit slots s := by
  induction slots generalizing s with
  | nil => rfl
  | cons slot rest ih =>
    obtain ⟨c, i⟩ := slot
    rw [visitSlots, visitSlots, same (c, i) mem_cons_self]
    cases visit c i (view.dirEntry c i) s with
    | inl s => exact ih (fun slot mem => same slot (mem_cons_of_mem _ mem)) s
    | inr r => rfl

/-- What is found is an entry on one of the slots that is neither the end nor passed over. -/
theorem visitSlots_found
    (found : visitSlots view (findVisit name) slots () = Sum.inr (some entry)) :
    (∃ slot ∈ slots, view.dirEntry slot.1 slot.2 = entry) ∧ entry.isEnd = false ∧
      entry.isSkipped = false := by
  have result : findSlots view name slots = some entry := by rw [findSlots, found]
  rw [findSlots_eq] at result
  obtain ⟨slot, mem, rfl⟩ := mem_map.mp (mem_of_find?_eq_some result)
  obtain ⟨on, shown⟩ := mem_listedSlots mem
  exact ⟨⟨slot, on, rfl⟩, shown⟩

/-! ## Directories that nothing happens to -/

/-- A set of clusters that holds the root directory and whatever can be reached from it. -/
structure DirsClosed (fs : FatInfo) (view : FatView) (used : Set ℕ) : Prop where
  root : fs.rootCluster ∈ used
  inRange : ∀ c ∈ used, fs.InRange c
  next : ∀ c ∈ used, fat32IsEoc (view.entry c) = true ∨ view.entry c ∈ used
  sub : ∀ c ∈ used, ∀ i < fs.entriesPerCluster, (view.dirEntry c i).isEnd = false →
    (view.dirEntry c i).isSkipped = false → (view.dirEntry c i).isDirectory = true →
    (view.dirEntry c i).firstCluster < 2 ∨ (view.dirEntry c i).firstCluster ∈ used

/-- A cluster at which a walk may be: the walk is over, or the cluster is one of the set. -/
def Reached (used : Set ℕ) (c : ℕ) : Prop := c < 2 ∨ fat32IsEoc c = true ∨ c ∈ used

theorem viewPass_over (ended : c < 2 ∨ fat32IsEoc c = true) (visit : Visit σ ρ) (s : σ) :
    viewPass fs view visit (c, s) = some (Sum.inr (.ended c s)) := by
  simp only [viewPass, if_pos ended]

theorem Reached.mem {used : Set ℕ} (reached : Reached used c)
    (goes_on : ¬(c < 2 ∨ fat32IsEoc c = true)) : c ∈ used := by
  rcases reached with low | eoc | mem
  · exact absurd (Or.inl low) goes_on
  · exact absurd (Or.inr eoc) goes_on
  · exact mem

namespace DirsClosed

variable {used : Set ℕ} {sectors : ℕ}

/-- A pass stays in the set. -/
theorem pass (closed : DirsClosed fs view used) (geometry : FatGeometry fs sectors)
    (visit : Visit σ ρ) {st st' : ℕ × σ} (reached : Reached used st.1)
    (stepped : viewPass fs view visit st = some (Sum.inl st')) : Reached used st'.1 := by
  obtain ⟨c, s⟩ := st
  by_cases ended : c < 2 ∨ fat32IsEoc c = true
  · rw [viewPass_over ended] at stepped
    cases stepped
  have mem := Reached.mem reached ended
  rw [viewPass_inRange geometry (closed.inRange c mem)] at stepped
  cases visited : visitSlots view visit
      ((List.range fs.entriesPerCluster).map fun i => (c, i)) s with
  | inr r => simp [visited] at stepped
  | inl s' =>
    rw [visited] at stepped
    cases stepped
    exact Or.inr (closed.next c mem)

/-- **What is found from the set** is an entry in it. -/
theorem find_mem (closed : DirsClosed fs view used) (shows : Shows fs dev view)
    (reached : Reached used c) (found : fat32FindInDir fs dev c name = some (some entry)) :
    ∃ d ∈ used, ∃ i < fs.entriesPerCluster, view.dirEntry d i = entry ∧ entry.isEnd = false ∧
      entry.isSkipped = false := by
  rw [fat32FindInDir, dirWalk, shows.dirPass] at found
  obtain ⟨walk, run, result⟩ := map_eq_some_iff.mp found
  have post := loop_post (fun st => Reached used st.1)
    (fun walk => walk = .found (some entry) → ∃ d ∈ used, ∃ i < fs.entriesPerCluster,
      view.dirEntry d i = entry ∧ entry.isEnd = false ∧ entry.isSkipped = false)
    (fun st st' reached stepped => closed.pass shows.geometry _ reached stepped) ?_ _ _ _
    reached run
  · refine post ?_
    cases walk with
    | ended => cases result
    | unreadable => cases result
    | found r => exact congrArg DirWalk.found result
  · rintro ⟨c, s⟩ walk reached left rfl
    by_cases ended : c < 2 ∨ fat32IsEoc c = true
    · rw [viewPass_over ended] at left
      cases left
    have mem := Reached.mem reached ended
    rw [viewPass_inRange shows.geometry (closed.inRange c mem)] at left
    cases visited : visitSlots view (findVisit name)
        ((List.range fs.entriesPerCluster).map fun i => (c, i)) s with
    | inl s' => simp [visited] at left
    | inr r =>
      rw [visited] at left
      cases left
      obtain ⟨⟨slot, on, same⟩, shown⟩ := visitSlots_found visited
      obtain ⟨rfl, inside⟩ := mem_clusterSlots on
      exact ⟨slot.1, mem, slot.2, inside, same, shown⟩

/-- Nothing happens to the directories of the set. -/
def Same (fs : FatInfo) (used : Set ℕ) (view view' : FatView) : Prop :=
  ∀ c ∈ used, view'.entry c = view.entry c ∧
    ∀ i < fs.entriesPerCluster, view'.dirEntry c i = view.dirEntry c i

variable {dev' : BlockDevice} {view' : FatView}

theorem viewPass_same (closed : DirsClosed fs view used) (geometry : FatGeometry fs sectors)
    (same : Same fs used view view') (visit : Visit σ ρ) {st : ℕ × σ}
    (reached : Reached used st.1) : viewPass fs view visit st = viewPass fs view' visit st := by
  obtain ⟨c, s⟩ := st
  by_cases ended : c < 2 ∨ fat32IsEoc c = true
  · rw [viewPass_over ended, viewPass_over ended]
  have mem := Reached.mem reached ended
  rw [viewPass_inRange geometry (closed.inRange c mem),
    viewPass_inRange geometry (closed.inRange c mem), (same c mem).1]
  rw [visitSlots_congr fun slot on => ?_]
  obtain ⟨rfl, inside⟩ := mem_clusterSlots on
  exact ((same slot.1 mem).2 slot.2 inside).symm

section

variable (closed : DirsClosed fs view used) (shows : Shows fs dev view)
include closed shows

/-- The same is found in the directories of the set. -/
theorem find_same
    (shows' : Shows fs dev' view') (same : Same fs used view view') (reached : Reached used c)
    (name : List (BitVec 8)) : fat32FindInDir fs dev' c name = fat32FindInDir fs dev c name := by
  rw [fat32FindInDir, fat32FindInDir, dirWalk, dirWalk, shows.dirPass, shows'.dirPass]
  congr 1
  refine (loop_congr (fun st => Reached used st.1) (fun st reached => ?_) (fun st st' reached
    stepped => ?_) _ _ reached).symm
  · exact closed.viewPass_same shows.geometry same _ reached
  · exact closed.pass shows.geometry _ reached stepped

/-- The directory of a path component. -/
theorem sub_reached
    (reached : Reached used c) (found : fat32FindInDir fs dev c name = some (some entry))
    (directory : entry.isDirectory = true) : Reached used entry.firstCluster := by
  obtain ⟨d, mem, i, inside, rfl, ends, skipped⟩ := closed.find_mem shows reached found
  rcases closed.sub d mem i inside ends skipped directory with low | sub
  · exact Or.inl low
  · exact Or.inr (Or.inr sub)

/-- A pass over a path stays in the set. -/
theorem lookupPass_stays
    {st st' : (List (BitVec 8) × List (BitVec 8)) × ℕ} (reached : Reached used st.2)
    (stepped : lookupPass fs dev st = some (Sum.inl st')) : Reached used st'.2 := by
  obtain ⟨⟨token, rest⟩, c⟩ := st
  obtain ⟨found, there, next⟩ := map_eq_some_iff.mp stepped
  cases found with
  | none => cases next
  | some entry =>
    cases more : strtok slash rest with
    | none => simp [more] at next
    | some token' =>
      simp only [more] at next
      split at next
      · rename_i directory
        cases next
        exact closed.sub_reached shows reached there directory
      · cases next

/-- **What a lookup finds** is the root directory or an entry in the set. -/
theorem lookup_mem {memory : Bool} {path : List (BitVec 8)}
    (found : fat32Lookup memory fs dev path = some (some entry)) :
    entry = rootEntry fs ∨ ∃ d ∈ used, ∃ i < fs.entriesPerCluster, view.dirEntry d i = entry ∧
      entry.isEnd = false ∧ entry.isSkipped = false := by
  unfold fat32Lookup at found
  split at found
  · cases found
  split at found
  · cases found
    exact Or.inl rfl
  split at found
  · cases found
  refine Or.inr (loop_post (fun st : (List (BitVec 8) × List (BitVec 8)) × ℕ => Reached used st.2)
    (fun result => result = some entry → ∃ d ∈ used, ∃ i < fs.entriesPerCluster,
      view.dirEntry d i = entry ∧ entry.isEnd = false ∧ entry.isSkipped = false)
    (fun st st' reached stepped => closed.lookupPass_stays shows reached stepped) ?_ _ _ _
    (Or.inr (Or.inr closed.root)) found rfl)
  rintro ⟨⟨token, rest⟩, c⟩ result reached left rfl
  obtain ⟨inside, there, next⟩ := map_eq_some_iff.mp left
  cases inside with
  | none => cases next
  | some last =>
    cases more : strtok slash rest with
    | none =>
      simp only [more, Sum.inr.injEq, Option.some.injEq] at next
      subst next
      exact closed.find_mem shows reached there
    | some token' =>
      simp only [more] at next
      split at next <;> cases next

/-- **Lookups do not notice** what happens outside the set. -/
theorem lookup_same
    (shows' : Shows fs dev' view') (same : Same fs used view view') (memory : Bool)
    (path : List (BitVec 8)) :
    fat32Lookup memory fs dev' path = fat32Lookup memory fs dev path := by
  have passes : ∀ st : (List (BitVec 8) × List (BitVec 8)) × ℕ, Reached used st.2 →
      lookupPass fs dev st = lookupPass fs dev' st := by
    rintro ⟨⟨token, rest⟩, c⟩ reached
    rw [lookupPass, lookupPass, closed.find_same shows shows' same reached]
  unfold fat32Lookup
  split
  · rfl
  split
  · rfl
  split
  · rfl
  · exact (loop_congr (fun st : (List (BitVec 8) × List (BitVec 8)) × ℕ => Reached used st.2)
      passes (fun _ _ reached stepped => closed.lookupPass_stays shows reached stepped) _ _
      (Or.inr (Or.inr closed.root))).symm

end

end DirsClosed

/-! ## Changes of a directory -/

/-- Only clusters that were free have changed. -/
def Aside (view view' : FatView) : Prop :=
  ∀ c, view.entry c ≠ fat32Free → view'.entry c = view.entry c ∧ view'.byte c = view.byte c

namespace Aside

variable {view' : FatView} {n : ℕ}

theorem refl (view : FatView) : Aside view view := fun _ _ => ⟨rfl, rfl⟩

theorem trans {view'' : FatView} (first : Aside view view') (second : Aside view' view'') :
    Aside view view'' := by
  intro c used
  obtain ⟨entry, byte⟩ := first c used
  obtain ⟨entry', byte'⟩ := second c (entry ▸ used)
  exact ⟨entry'.trans entry, byte'.trans byte⟩

theorem setEntry (aside : Aside view view') (free : view.entry n = fat32Free) (value : ℕ) :
    Aside view (view'.setEntry n value) := by
  intro c used
  have ne : c ≠ n := by
    rintro rfl
    exact used free
  rw [FatView.setEntry_entry_of_ne ne]
  exact aside c used

theorem setBytes (aside : Aside view view') (free : view.entry n = fat32Free) (bytes : Bytes) :
    Aside view (view'.setBytes n bytes) := by
  intro c used
  have ne : c ≠ n := by
    rintro rfl
    exact used free
  rw [FatView.setBytes_byte_of_ne ne]
  exact aside c used

end Aside

/-- In `view'` one slot, an end of a directory so far, has got an entry. -/
structure Filled (fs : FatInfo) (view view' : FatView) (k j : ℕ) (new : DirEntry) : Prop where
  entry : view'.entry = view.entry
  was_end : (view.dirEntry k j).isEnd = true
  here : view'.dirEntry k j = new
  others : ∀ c i, i < fs.entriesPerCluster → (c, i) ≠ (k, j) →
    view'.dirEntry c i = view.dirEntry c i

namespace Filled

variable {view' : FatView} {k j sectors : ℕ} {new : DirEntry} {dev' : BlockDevice}

section

variable (filled : Filled fs view view' k j new)
include filled

/-- A visit that did not stop at the end does not come to the slot. -/
theorem visit (inside : ∀ slot ∈ slots, slot.2 < fs.entriesPerCluster)
    (found : visitSlots view (findVisit name) slots () ≠ Sum.inr none) :
    visitSlots view' (findVisit name) slots () = visitSlots view (findVisit name) slots () := by
  induction slots with
  | nil => rfl
  | cons slot rest ih =>
    obtain ⟨c, i⟩ := slot
    by_cases there : (c, i) = (k, j)
    · cases there
      exact absurd (by simp [visitSlots, findVisit, filled.was_end]) found
    rw [visitSlots] at found
    rw [visitSlots, visitSlots, filled.others c i (inside _ mem_cons_self) there]
    cases visited : findVisit name c i (view.dirEntry c i) () with
    | inr r => rfl
    | inl s =>
      rw [visited] at found
      exact ih (fun slot mem => inside slot (mem_cons_of_mem _ mem)) found

/-- **The listing after an entry was added** with only end marks behind it. -/
theorem listedEntries {front back : List (ℕ × ℕ)} (nodup : (front ++ (k, j) :: back).Nodup)
    (inside : ∀ slot ∈ front ++ (k, j) :: back, slot.2 < fs.entriesPerCluster)
    (before : ∀ slot ∈ front, (view.dirEntry slot.1 slot.2).isEnd = false)
    (behind : ∀ slot ∈ back, (view.dirEntry slot.1 slot.2).isEnd = true)
    (shown : new.isEnd = false) (listed : new.isSkipped = false) :
    listedEntries view' (front ++ (k, j) :: back) =
      listedEntries view (front ++ (k, j) :: back) ++ [new] := by
  induction front with
  | nil =>
    have nothing : EduOS.listedEntries view' back = [] := by
      cases back with
      | nil => rfl
      | cons slot rest =>
        have apart : slot ≠ (k, j) := fun same => (nodup_cons.mp nodup).1 (by simp [same])
        rw [listedEntries_cons, filled.others _ _ (inside slot (by simp)) apart,
          behind slot mem_cons_self, if_pos rfl]
    rw [nil_append, listedEntries_cons, listedEntries_cons, filled.here, filled.was_end, shown,
      listed, nothing]
    rfl
  | cons slot front ih =>
    obtain ⟨c, i⟩ := slot
    obtain ⟨absent, nodup⟩ := nodup_cons.mp nodup
    have apart : (c, i) ≠ (k, j) := fun same => absent (by simp [same])
    have rest := ih nodup (fun slot mem => inside slot (mem_cons_of_mem _ mem))
      fun slot mem => before slot (mem_cons_of_mem _ mem)
    rw [cons_append, listedEntries_cons, listedEntries_cons,
      filled.others c i (inside _ mem_cons_self) apart, before (c, i) mem_cons_self, rest]
    cases (view.dirEntry c i).isSkipped <;> rfl

/-- A pass of a walk that did not stop at the end. -/
theorem pass (geometry : FatGeometry fs sectors)
    {st : ℕ × Unit} {next : ℕ × Unit ⊕ DirWalk Unit (Option DirEntry)}
    (stepped : viewPass fs view (findVisit name) st = some next)
    (found : next ≠ Sum.inr (.found none)) : viewPass fs view' (findVisit name) st = some next := by
  obtain ⟨c, s⟩ := st
  by_cases range : fs.InRange c
  · rw [viewPass_inRange geometry range] at stepped ⊢
    rw [filled.entry, filled.visit (fun slot on => (mem_clusterSlots on).2)]
    · exact stepped
    · intro ends
      rw [ends] at stepped
      exact found (Option.some.inj stepped).symm
  · rw [← stepped]
    simp [viewPass, if_neg range]

/-- What was found is still found. -/
theorem find (shows : Shows fs dev view)
    (shows' : Shows fs dev' view') (found : fat32FindInDir fs dev c name = some (some entry)) :
    fat32FindInDir fs dev' c name = some (some entry) := by
  rw [fat32FindInDir, dirWalk, shows.dirPass] at found
  rw [fat32FindInDir, dirWalk, shows'.dirPass]
  obtain ⟨walk, run, result⟩ := map_eq_some_iff.mp found
  refine map_eq_some_iff.mpr ⟨walk, ?_, result⟩
  refine loop_imp (fun st st' stepped => ?_) (fun st left => ?_) _ _ run
  · exact filled.pass shows.geometry stepped (by simp)
  · refine filled.pass shows.geometry left ?_
    rintro ⟨rfl⟩
    cases result

/-- **Whatever was found is still found.** -/
theorem lookup (shows : Shows fs dev view) (shows' : Shows fs dev' view') {memory : Bool}
    {path : List (BitVec 8)} (found : fat32Lookup memory fs dev path = some (some entry)) :
    fat32Lookup memory fs dev' path = some (some entry) := by
  have pass : ∀ (st : (List (BitVec 8) × List (BitVec 8)) × ℕ)
      (next : (List (BitVec 8) × List (BitVec 8)) × ℕ ⊕ Option DirEntry),
      lookupPass fs dev st = some next → next ≠ Sum.inr none →
        lookupPass fs dev' st = some next := by
    rintro ⟨⟨token, rest⟩, c⟩ next stepped found
    obtain ⟨result, there, rfl⟩ := map_eq_some_iff.mp stepped
    cases result with
    | none => exact absurd rfl found
    | some entry => simp [lookupPass, filled.find shows shows' there]
  unfold fat32Lookup at found ⊢
  split
  · rename_i failed
    simp [failed] at found
  rename_i enough
  rw [if_neg enough] at found
  split
  · rename_i root
    rwa [if_pos root] at found
  rename_i below
  rw [if_neg below] at found
  split
  · rename_i none
    simp [none] at found
  rename_i first token
  rw [token] at found
  refine loop_imp (fun st st' stepped => ?_) (fun st left => ?_) _ _ found
  · exact pass st _ stepped (by simp)
  · exact pass st _ left (by simp)

end

end Filled

end

end EduOS
