import EduOS.Fs.Fat32Dir

/-!
# Creating FAT32 files

`fat32_create_file` of `kernel/fs/fat32_create.c` and the short names of
`fat32_generate_short_name` in `kernel/fs/fat32_lfn.c`.

The short name keeps six characters of the base, to leave room for a number that is never
added, while a lookup compares the whole name.  The entry goes to the first end mark of the
root directory.  If there is none, a cluster is allocated for it, but linked to the directory
only if the chain of the directory does *not* end in an end-of-chain mark.

`create_findable_iff` is what comes of this: a new file is found if and only if its base has at
most six characters and the root directory has an end mark.  The entries that were found
before are found in any case (`Filled.lookup`, `DirsClosed.lookup_same`).
-/

namespace EduOS

open List

/-! ## Short names -/

/-- The number that `fat32_generate_short_name` adds to a name, as `snprintf` writes it. -/
def shortNameTail (tailNum : ℕ) : List (BitVec 8) :=
  ((0x7E#8 :: (Nat.toDigits 10 tailNum).map fun digit => BitVec.ofNat 8 digit.toNat)).take 7

/-- The three characters for the extension. -/
def shortNameExt (ext : List (BitVec 8)) : List (BitVec 8) :=
  (List.range 3).map fun i =>
    match ext[i]? with
    | some ch => if isalnum (toupper ch) || toupper ch = 0x5F then toupper ch else blank
    | none => blank

/-- `fat32_generate_short_name`: eight characters for the base and three for the extension,
filled up with blanks. -/
def fat32GenerateShortName (longName : List (BitVec 8)) (tailNum : ℤ) : List (BitVec 8) :=
  let (base, ext) := (strrchr dot longName).getD (longName, [])
  -- at most six characters of the base are kept
  let stem := ((base.map toupper).filter fun ch => isalnum ch || ch = 0x5F || ch = 0x2D).take 6
  let stem :=
    if tailNum > 0 then
      let tail := shortNameTail tailNum.toNat
      stem.take (8 - tail.length) ++ tail
    else stem
  stem ++ List.replicate (8 - stem.length) blank ++ shortNameExt ext

/-! ## Entries -/

/-- A 16-bit field of an entry. -/
def DirEntry.setField16 (entry : DirEntry) (offset : ℕ) (value : BitVec 16) : DirEntry := fun j =>
  if j.val = offset then value.setWidth 8
  else if j.val = offset + 1 then (value >>> 8).setWidth 8
  else entry j

/-- `fat32_get_current_time` -/
def fat32CurrentTime : BitVec 16 := (12 <<< 11) ||| (0 <<< 5) ||| 0

/-- `fat32_get_current_date` -/
def fat32CurrentDate : BitVec 16 := ((2024 - 1980) <<< 9) ||| (10 <<< 5) ||| 11

/-- The entry for a new file or directory. -/
def newDirEntry (name : List (BitVec 8)) (attr : BitVec 8) (cluster : ℕ) : DirEntry :=
  let entry := (DirEntry.zero.setName name).setAttr attr
  let entry := (entry.setField16 0x0E fat32CurrentTime).setField16 0x10 fat32CurrentDate
  let entry := (entry.setField16 0x16 fat32CurrentTime).setField16 0x18 fat32CurrentDate
  (entry.setFirstCluster cluster).setFileSize 0

/-- What `fat32_find_free_dir_entry` does at an entry: stop at a free one, with its place. -/
def freeVisit : Visit Unit (ℕ × ℕ) := fun cluster i entry _ =>
  if entry.isEnd || entry.isFree then Sum.inr (cluster, i * 32) else Sum.inl ()

/-- The loop to the last cluster of a directory. -/
def lastClusterPass (fs : FatInfo) (dev : BlockDevice) (last : ℕ) : Option (ℕ ⊕ ℕ) :=
  (fat32ReadFat fs dev last).map fun next =>
    if fat32IsEoc next then Sum.inr last else Sum.inl next

/-- The new cluster is linked to the directory, but only if the chain did not end in an
end-of-chain mark. -/
def linkCluster (fs : FatInfo) (dev : BlockDevice) (dirCluster cluster new : ℕ) :
    Option BlockDevice :=
  if !fat32IsEoc cluster then
    (loop (lastClusterPass fs dev) (2 ^ 32) dirCluster).bind fun last =>
      (fat32WriteFat fs dev last new).map fun r => r.2
  else some dev

/-- `fat32_find_free_dir_entry`: the cluster and the offset of a place for an entry.
`memory` says if there is a buffer. -/
def fat32FindFreeDirEntry (memory : Bool) (fs : FatInfo) (dev : BlockDevice) (dirCluster : ℕ) :
    Option (Except ℕ (ℕ × ℕ) × BlockDevice) :=
  if !memory then some (.error enomem, dev)
  else
    (dirWalk fs dev freeVisit dirCluster ()).bind fun
    | .unreadable => some (.error eio, dev)
    | .found place => some (.ok place, dev)
    | .ended cluster _ =>
      (fat32AllocCluster fs dev).bind fun (new, dev) =>
        if new = 0 then some (.error enospc, dev)
        else (linkCluster fs dev dirCluster cluster new).map fun dev =>
          (.ok (new, 0), (fat32WriteCluster fs dev new fun _ => 0).toOption.getD dev)

/-- `memcpy(cluster_buf + offset, entry, sizeof(struct fat32_dir_entry))` -/
def putEntry (buf : Bytes) (offset : ℕ) (entry : DirEntry) : Bytes := fun j =>
  if inside : offset ≤ j ∧ j < offset + 32 then entry ⟨j - offset, by omega⟩ else buf j

/-- `fat32_write_dir_entry` -/
def fat32WriteDirEntry (memory : Bool) (fs : FatInfo) (dev : BlockDevice) (cluster offset : ℕ)
    (entry : DirEntry) : Except ℕ Unit × BlockDevice :=
  if !memory then (.error enomem, dev)
  else
    match fat32ReadCluster fs dev cluster fun _ => 0 with
    | .error _ => (.error eio, dev)
    | .ok buf =>
      match fat32WriteCluster fs dev cluster (putEntry buf offset entry) with
      | .error _ => (.error eio, dev)
      | .ok dev => (.ok (), dev)

/-- What comes after the last `/` of a path. -/
def baseName (path : List (BitVec 8)) : List (BitVec 8) :=
  match strrchr slash path with
  | some (_, filename) => filename
  | none => path

/-- `fat32_create_file`, in the root directory.  The two flags say if there is memory for the
two buffers. -/
def fat32CreateFile (searchMemory writeMemory : Bool) (fs : FatInfo) (dev : BlockDevice)
    (path : List (BitVec 8)) (_mode : ℕ) : Option (ℤ × BlockDevice) :=
  let shortName := fat32GenerateShortName (baseName path) 0
  (fat32FindFreeDirEntry searchMemory fs dev fs.rootCluster).map fun
  | (.error e, dev) => (-e, dev)
  | (.ok (cluster, offset), dev) =>
    match fat32WriteDirEntry writeMemory fs dev cluster offset
        (newDirEntry shortName fatAttrArchive 0) with
    | (.error e, dev) => (-e, dev)
    | (.ok _, dev) => (0, dev)

/-! ## Names that fit -/

/-- A file name of a base and an extension; without a dot if the extension is empty. -/
def fileName (base ext : List (BitVec 8)) : List (BitVec 8) :=
  base ++ if ext = [] then [] else dot :: ext

/-- A base of 1 to 8 letters or digits and an extension of at most 3. -/
structure PlainName (base ext : List (BitVec 8)) : Prop where
  base_pos : 1 ≤ base.length
  base_le : base.length ≤ 8
  ext_le : ext.length ≤ 3
  base_plain : ∀ ch ∈ base, isalnum ch = true
  ext_plain : ∀ ch ∈ ext, isalnum ch = true

variable {base ext name : List (BitVec 8)} {fs : FatInfo} {dev : BlockDevice} {view : FatView}

/-- The characters of a file name are letters, digits and the dot. -/
theorem mem_fileName (base_plain : ∀ ch ∈ base, isalnum ch = true)
    (ext_plain : ∀ ch ∈ ext, isalnum ch = true) {ch : BitVec 8} (mem : ch ∈ fileName base ext) :
    isalnum ch = true ∨ ch = dot := by
  rcases mem_append.mp mem with in_base | in_ext
  · exact Or.inl (base_plain ch in_base)
  by_cases none : ext = []
  · simp [none] at in_ext
  · rw [if_neg none] at in_ext
    rcases mem_cons.mp in_ext with is_dot | in_ext
    · exact Or.inr is_dot
    · exact Or.inl (ext_plain ch in_ext)

theorem notMem_fileName (base_plain : ∀ ch ∈ base, isalnum ch = true)
    (ext_plain : ∀ ch ∈ ext, isalnum ch = true) :
    0 ∉ fileName base ext ∧ slash ∉ fileName base ext := by
  constructor
  · intro mem
    rcases mem_fileName base_plain ext_plain mem with letter | is_dot
    · exact (isalnum_ne _ letter).1 rfl
    · exact absurd is_dot (by decide)
  · intro mem
    rcases mem_fileName base_plain ext_plain mem with letter | is_dot
    · exact (isalnum_ne _ letter).2.2.2 rfl
    · exact absurd is_dot (by decide)

/-- Letters and digits in upper case. -/
theorem isalnum_map_toupper (plain : ∀ ch ∈ name, isalnum ch = true) :
    ∀ ch ∈ name.map toupper, isalnum ch = true := by
  intro ch mem
  obtain ⟨low, in_name, rfl⟩ := mem_map.mp mem
  exact isalnum_toupper low (plain low in_name)

namespace PlainName

section

variable (plain : PlainName base ext)
include plain

theorem ne_nil : fileName base ext ≠ [] := by
  intro empty
  have := plain.base_pos
  rw [(append_eq_nil_iff.mp empty).1] at this
  simp at this

/-- The parts of the name, as the last dot separates them. -/
theorem parts : (strrchr dot (fileName base ext)).getD (fileName base ext, []) = (base, ext) := by
  have not_dot : ∀ ch, isalnum ch = true → ch ≠ dot := fun ch letter =>
    (isalnum_ne ch letter).2.2.1
  by_cases none : ext = []
  · have free : dot ∉ fileName base ext := by
      rw [fileName, if_pos none, append_nil]
      exact fun mem => not_dot _ (plain.base_plain _ mem) rfl
    rw [strrchr, if_neg free, fileName, if_pos none, none]
    simp
  · rw [fileName, if_neg none, strrchr_append fun mem => not_dot _ (plain.ext_plain _ mem) rfl]
    rfl

/-- The characters of the base that the short name keeps. -/
theorem stem :
    ((base.map toupper).filter fun ch => isalnum ch || ch = 0x5F || ch = 0x2D) =
      base.map toupper := by
  refine filter_eq_self.mpr fun ch mem => ?_
  simp [isalnum_map_toupper plain.base_plain ch mem]

/-- The extension in the short name. -/
theorem extension :
    shortNameExt ext = ext.map toupper ++ List.replicate (3 - ext.length) blank := by
  have letter : ∀ ch ∈ ext, isalnum (toupper ch) = true := fun ch mem =>
    isalnum_toupper ch (plain.ext_plain ch mem)
  have short := plain.ext_le
  unfold shortNameExt
  rcases ext with _ | ⟨a, _ | ⟨b, _ | ⟨c, _ | ⟨d, rest⟩⟩⟩⟩
  · rfl
  · simp [range_succ, letter a (by simp)]
  · simp [range_succ, letter a (by simp), letter b (by simp)]
  · simp [range_succ, letter a (by simp), letter b (by simp), letter c (by simp)]
  · simp only [length_cons] at short
    omega

/-- **The short name of a plain name**: the first six characters of the base, and the
extension, in upper case. -/
theorem shortName :
    fat32GenerateShortName (fileName base ext) 0 =
      (base.map toupper).take 6 ++ List.replicate (8 - ((base.map toupper).take 6).length) blank ++
        (ext.map toupper ++ List.replicate (3 - ext.length) blank) := by
  simp only [fat32GenerateShortName, plain.parts, plain.stem, gt_iff_lt, lt_irrefl, if_false]
  rw [plain.extension]

end

/-- Blanks end a part of a name. -/
theorem takeWhile_blank (n : ℕ) (solid : ∀ ch ∈ name, ch ≠ blank) :
    (name ++ List.replicate n blank).takeWhile (· ≠ blank) = name := by
  rw [takeWhile_append_of_pos fun ch mem => decide_eq_true (solid ch mem)]
  cases n with
  | zero => simp
  | succ n => simp [replicate_succ]

/-- The short name, written out again. -/
theorem format (plain : PlainName base ext) :
    format83Name (fat32GenerateShortName (fileName base ext) 0) =
      fileName ((base.map toupper).take 6) (ext.map toupper) := by
  have stem_solid : ∀ ch ∈ (base.map toupper).take 6, ch ≠ blank := fun ch mem =>
    (isalnum_ne ch (isalnum_map_toupper plain.base_plain ch (mem_of_mem_take mem))).2.1
  have ext_solid : ∀ ch ∈ ext.map toupper, ch ≠ blank := fun ch mem =>
    (isalnum_ne ch (isalnum_map_toupper plain.ext_plain ch mem)).2.1
  have eight : ((base.map toupper).take 6 ++
      List.replicate (8 - ((base.map toupper).take 6).length) blank).length = 8 := by
    rw [length_append, length_replicate, length_take]
    omega
  rw [plain.shortName, format83Name, take_left' eight, drop_left' eight,
    takeWhile_blank _ stem_solid, takeWhile_blank _ ext_solid]
  have ninth : ((base.map toupper).take 6 ++
      List.replicate (8 - ((base.map toupper).take 6).length) blank ++
        (ext.map toupper ++ List.replicate (3 - ext.length) blank)).getD 8 0 =
      (ext.map toupper ++ List.replicate (3 - ext.length) blank).getD 0 0 := by
    rw [getD_append_right _ _ _ _ eight.le, eight]
  rw [ninth, fileName]
  cases ext with
  | nil => rfl
  | cons ch ext =>
    have solid := ext_solid (toupper ch) (by simp)
    rw [if_pos (by simpa using solid), if_neg (by simp)]

/-- **Whether the name is found again**: the short name matches it exactly if the base has at
most six characters. -/
theorem nameMatch_iff (plain : PlainName base ext) :
    nameMatch (fat32GenerateShortName (fileName base ext) 0) (fileName base ext) = true ↔
      base.length ≤ 6 := by
  have stem_plain : ∀ ch ∈ (base.map toupper).take 6, isalnum ch = true := fun ch mem =>
    isalnum_map_toupper plain.base_plain ch (mem_of_mem_take mem)
  have formatted := (notMem_fileName stem_plain (isalnum_map_toupper plain.ext_plain)).1
  have whole : cString (fileName ((base.map toupper).take 6) (ext.map toupper)) =
      fileName ((base.map toupper).take 6) (ext.map toupper) := by
    refine takeWhile_eq_self_iff.mpr fun ch mem => decide_eq_true ?_
    rintro rfl
    exact formatted mem
  rw [nameMatch, decide_eq_true_eq, plain.format, whole,
    strcasecmp_eq_zero formatted (notMem_fileName plain.base_plain plain.ext_plain).1]
  have again : ∀ name : List (BitVec 8), (name.map toupper).map toupper = name.map toupper := by
    intro name
    rw [map_map]
    exact map_congr_left fun ch _ => toupper_toupper ch
  have suffix : (if ext.map toupper = [] then [] else dot :: ext.map toupper).map toupper =
      (if ext = [] then [] else dot :: ext).map toupper := by
    by_cases none : ext = []
    · simp [none]
    · rw [if_neg (by simpa using none), if_neg none, map_cons, map_cons, again]
  rw [fileName, fileName, map_append, map_append, suffix, append_left_inj,
    map_take, again, take_eq_self_iff, length_map]

end PlainName

/-! ## Places for entries -/

theorem entryAt_putEntry_self (buf : Bytes) (j : ℕ) (new : DirEntry) :
    entryAt (putEntry buf (j * 32) new) j = new := by
  funext b
  have inside : j * 32 ≤ 32 * j + b ∧ 32 * j + b < j * 32 + 32 := by omega
  rw [entryAt, putEntry, dif_pos inside]
  congr 1
  exact Fin.ext (by simp; omega)

variable {j start : ℕ} {new : DirEntry} {chain : List ℕ}

theorem entryAt_putEntry_of_ne {buf : Bytes} {i : ℕ} (ne : i ≠ j) :
    entryAt (putEntry buf (j * 32) new) i = entryAt buf i := by
  funext b
  exact dif_neg (by omega)

section

/-- Writing an entry into its place. -/
theorem Shows.writeDirEntry (shows : Shows fs dev view) {k : ℕ} (range : fs.InRange k) (j : ℕ)
    (new : DirEntry) :
    ∃ dev' view', fat32WriteDirEntry true fs dev k (j * 32) new = (.ok (), dev') ∧
      Shows fs dev' view' ∧ view'.entry = view.entry ∧ view'.dirEntry k j = new ∧
      (∀ i < fs.entriesPerCluster, i ≠ j → view'.dirEntry k i = view.dirEntry k i) ∧
      ∀ c, c ≠ k → view'.byte c = view.byte c := by
  obtain ⟨buf, read, bytes⟩ := shows.readCluster range fun _ => 0
  obtain ⟨dev', written, shows'⟩ := shows.writeCluster range (putEntry buf (j * 32) new)
  refine ⟨dev', _, ?_, shows', rfl, ?_, ?_, ?_⟩
  · simp only [fat32WriteDirEntry, Bool.not_true, Bool.false_eq_true, if_false, read, written]
  · rw [FatView.dirEntry, FatView.setBytes_byte_self, entryAt_putEntry_self]
  · intro i below ne
    rw [FatView.dirEntry, FatView.setBytes_byte_self, entryAt_putEntry_of_ne ne]
    exact entryAt_congr below bytes
  · exact fun c ne => FatView.setBytes_byte_of_ne ne

/-- Writing an entry over an end mark. -/
theorem Shows.fillDirEntry (shows : Shows fs dev view) {k : ℕ} (range : fs.InRange k)
    (mark : (view.dirEntry k j).isEnd = true) (new : DirEntry) :
    ∃ dev' view', fat32WriteDirEntry true fs dev k (j * 32) new = (.ok (), dev') ∧
      Shows fs dev' view' ∧ Filled fs view view' k j new := by
  obtain ⟨dev', view', written, shows', table, here, others, elsewhere⟩ :=
    shows.writeDirEntry range j new
  refine ⟨dev', view', written, shows', table, mark, here, fun c i below apart => ?_⟩
  by_cases same : c = k
  · subst same
    exact others i below fun equal => apart (by rw [equal])
  · rw [FatView.dirEntry, FatView.dirEntry, elsewhere c same]

/-- Allocation: a free cluster, or none. -/
theorem Shows.alloc_cases (shows : Shows fs dev view) :
    (∃ n dev', fat32AllocCluster fs dev = some (n, dev') ∧ n ≠ 0 ∧ fs.InRange n ∧
      view.entry n = fat32Free ∧ Shows fs dev' (view.setEntry n fat32EocMax)) ∨
    fat32AllocCluster fs dev = some (0, dev) := by
  by_cases free : ∃ c, fs.InRange c ∧ view.entry c = fat32Free
  · obtain ⟨c, range, is_free⟩ := free
    obtain ⟨n, dev', allocated, n_range, was_free, shows'⟩ := shows.alloc range is_free
    have low := n_range.1
    exact Or.inl ⟨n, dev', allocated, by omega, n_range, was_free, shows'⟩
  · exact Or.inr (shows.alloc_full fun c range is_free => free ⟨c, range, is_free⟩)

/-- The search for a free place stops at the first end mark. -/
theorem visitSlots_free (slots : List (ℕ × ℕ)) :
    (∃ front k j back, slots = front ++ (k, j) :: back ∧
      (∀ slot ∈ front, (view.dirEntry slot.1 slot.2).isEnd = false) ∧
      (view.dirEntry k j).isEnd = true ∧
      visitSlots view freeVisit slots () = Sum.inr (k, j * 32)) ∨
    (∀ slot ∈ slots, (view.dirEntry slot.1 slot.2).isEnd = false) ∧
      visitSlots view freeVisit slots () = Sum.inl () := by
  induction slots with
  | nil => exact Or.inr ⟨by simp, rfl⟩
  | cons slot rest ih =>
    obtain ⟨c, i⟩ := slot
    have never := (view.dirEntry c i).isFree_eq_false
    cases ends : (view.dirEntry c i).isEnd with
    | true =>
      refine Or.inl ⟨[], c, i, rest, rfl, by simp, ends, ?_⟩
      simp [visitSlots, freeVisit, ends]
    | false =>
      have goes_on : visitSlots view freeVisit ((c, i) :: rest) () =
          visitSlots view freeVisit rest () := by
        simp [visitSlots, freeVisit, ends, never]
      rw [goes_on]
      rcases ih with ⟨front, k, j, back, rfl, before, mark, found⟩ | ⟨none, ran⟩
      · refine Or.inl ⟨(c, i) :: front, k, j, back, rfl, ?_, mark, found⟩
        rintro slot (_ | ⟨_, mem⟩)
        · exact ends
        · exact before slot mem
      · refine Or.inr ⟨?_, ran⟩
        rintro slot (_ | ⟨_, mem⟩)
        · exact ends
        · exact none slot mem

/-- **The search for a place** in a directory: the first end mark; or, if there is none, the
start of a cluster that was free, which is not linked to the directory; or none. -/
theorem Shows.findFree (shows : Shows fs dev view) (dir : DirChain fs view start chain) :
    (∃ front k j back, dirSlots fs chain = front ++ (k, j) :: back ∧
      (∀ slot ∈ front, (view.dirEntry slot.1 slot.2).isEnd = false) ∧
      (view.dirEntry k j).isEnd = true ∧
      fat32FindFreeDirEntry true fs dev start = some (.ok (k, j * 32), dev)) ∨
    (∀ slot ∈ dirSlots fs chain, (view.dirEntry slot.1 slot.2).isEnd = false) ∧
      ((∃ new dev', fat32FindFreeDirEntry true fs dev start = some (.ok (new, 0 * 32), dev') ∧
        fs.InRange new ∧ view.entry new = fat32Free ∧
        Shows fs dev' ((view.setEntry new fat32EocMax).setBytes new fun _ => 0)) ∨
      fat32FindFreeDirEntry true fs dev start = some (.error enospc, dev)) := by
  obtain ⟨last, eoc, walk⟩ := dir.walk shows freeVisit ()
  unfold fat32FindFreeDirEntry
  rw [walk]
  rcases visitSlots_free (dirSlots fs chain) with
    ⟨front, k, j, back, split, before, mark, found⟩ | ⟨none, ran⟩
  · rw [found]
    exact Or.inl ⟨front, k, j, back, split, before, mark, rfl⟩
  rw [ran]
  refine Or.inr ⟨none, ?_⟩
  rcases shows.alloc_cases with ⟨new, dev₁, allocated, nonzero, range, was_free, shows₁⟩ | full
  · obtain ⟨dev₂, written, shows₂⟩ := shows₁.writeCluster range fun _ => 0
    refine Or.inl ⟨new, dev₂, ?_, range, was_free, shows₂⟩
    -- the chain ended in a mark, so nothing is linked
    simp only [Bool.not_true, Bool.false_eq_true, if_false, Option.bind_some, allocated,
      if_neg nonzero, linkCluster, eoc, Option.map_some, written]
    rfl
  · simp [full]

end

/-- **A place and an entry for it**: the entry is at the first end mark of the directory; or only
free clusters have changed, because there is no end mark or there was an error. -/
theorem Shows.addEntry (shows : Shows fs dev view)
    (dir : DirChain fs view start chain) (searchMemory : Bool) :
    ∃ place dev₁, fat32FindFreeDirEntry searchMemory fs dev start = some (place, dev₁) ∧
      (∀ e, place = .error e → e ≠ 0 ∧ dev₁ = dev) ∧
      ∀ k offset, place = .ok (k, offset) → ∀ writeMemory new r dev₂,
        fat32WriteDirEntry writeMemory fs dev₁ k offset new = (r, dev₂) →
          ∃ view₂, Shows fs dev₂ view₂ ∧
            (Aside view view₂ ∧ ((∃ e, r = .error e ∧ e ≠ 0) ∨ r = .ok () ∧
                ∀ slot ∈ dirSlots fs chain, (view.dirEntry slot.1 slot.2).isEnd = false) ∨
              r = .ok () ∧ ∃ front j back, dirSlots fs chain = front ++ (k, j) :: back ∧
                (∀ slot ∈ front, (view.dirEntry slot.1 slot.2).isEnd = false) ∧
                Filled fs view view₂ k j new) := by
  have no_memory : ∃ e, Except.error enomem = (.error e : Except ℕ Unit) ∧ e ≠ 0 :=
    ⟨enomem, rfl, by decide⟩
  cases searchMemory with
  | false =>
    refine ⟨.error enomem, dev, rfl, ?_, fun _ _ ok => by cases ok⟩
    rintro _ ⟨⟩
    exact ⟨by decide, rfl⟩
  | true =>
    rcases shows.findFree dir with ⟨front, k, j, back, split, before, mark, found⟩ |
      ⟨none, ⟨n, dev₁, found, range, was_free, shows₁⟩ | found⟩
    · refine ⟨_, dev, found, fun _ error => (by cases error), ?_⟩
      rintro _ _ ⟨⟩ writeMemory new r dev₂ ran
      cases writeMemory with
      | false =>
        cases ran
        exact ⟨view, shows, Or.inl ⟨Aside.refl view, Or.inl no_memory⟩⟩
      | true =>
        have mem := (mem_dirSlots.mp (split ▸ (by simp) : (k, j) ∈ dirSlots fs chain)).1
        obtain ⟨dev', view', written, shows', filled⟩ :=
          shows.fillDirEntry (dir.inRange k mem) mark new
        rw [written] at ran
        cases ran
        exact ⟨view', shows', Or.inr ⟨rfl, front, j, back, split, before, filled⟩⟩
    · have aside₁ : Aside view ((view.setEntry n fat32EocMax).setBytes n fun _ => 0) :=
        ((Aside.refl view).setEntry was_free _).setBytes was_free _
      refine ⟨_, dev₁, found, fun _ error => (by cases error), ?_⟩
      rintro _ _ ⟨⟩ writeMemory new r dev₂ ran
      cases writeMemory with
      | false =>
        cases ran
        exact ⟨_, shows₁, Or.inl ⟨aside₁, Or.inl no_memory⟩⟩
      | true =>
        obtain ⟨dev', view', written, shows', table, _, _, elsewhere⟩ :=
          shows₁.writeDirEntry range 0 new
        rw [written] at ran
        cases ran
        refine ⟨view', shows', Or.inl ⟨fun c used => ?_, Or.inr ⟨rfl, none⟩⟩⟩
        have other : c ≠ n := by
          rintro rfl
          exact used was_free
        rw [table, elsewhere c other]
        exact aside₁ c used
    · refine ⟨_, dev, found, ?_, fun _ _ ok => by cases ok⟩
      rintro _ ⟨⟩
      exact ⟨by decide, rfl⟩

/-- What a successful call has done to a volume whose root directory is `chain`: the entry is
at the first end mark of the root directory; or there is none, and only free clusters have
changed. -/
theorem fat32CreateFile_cases {searchMemory writeMemory : Bool} {dev' : BlockDevice}
    {path : List (BitVec 8)} {mode : ℕ} (shows : Shows fs dev view)
    (dir : DirChain fs view fs.rootCluster chain)
    (created : fat32CreateFile searchMemory writeMemory fs dev path mode = some (0, dev')) :
    ∃ view', Shows fs dev' view' ∧
      (Aside view view' ∧
          (∀ slot ∈ dirSlots fs chain, (view.dirEntry slot.1 slot.2).isEnd = false) ∨
        ∃ front k j back, dirSlots fs chain = front ++ (k, j) :: back ∧
          (∀ slot ∈ front, (view.dirEntry slot.1 slot.2).isEnd = false) ∧
          Filled fs view view' k j
            (newDirEntry (fat32GenerateShortName (baseName path) 0) fatAttrArchive 0)) := by
  obtain ⟨place, dev₁, found, failed, wrote⟩ := shows.addEntry dir searchMemory
  rw [fat32CreateFile, found, Option.map_some] at created
  cases place with
  | error e => simp [(failed e rfl).1] at created
  | ok place =>
    obtain ⟨k, offset⟩ := place
    dsimp only at created
    generalize written : fat32WriteDirEntry writeMemory fs dev₁ k offset
      (newDirEntry (fat32GenerateShortName (baseName path) 0) fatAttrArchive 0) = result at created
    obtain ⟨r, dev₂⟩ := result
    obtain ⟨view₂, shows₂, ⟨aside, ⟨e, rfl, failed⟩ | ⟨rfl, full⟩⟩ |
      ⟨rfl, front, j, back, filled⟩⟩ := wrote k offset rfl _ _ _ _ written
    · simp [failed] at created
    · cases created
      exact ⟨view₂, shows₂, Or.inl ⟨aside, full⟩⟩
    · cases created
      exact ⟨view₂, shows₂, Or.inr ⟨front, k, j, back, filled⟩⟩

/-! ## The new entry -/

theorem DirEntry.name_eq {entry : DirEntry} (long : name.length = 11)
    (bytes : ∀ i : Fin 11, entry (i.castLE (by decide)) = name.getD i.val 0) :
    entry.name = name := by
  refine ext_getElem (by simp [DirEntry.name, long]) fun i below inside => ?_
  have at_i : entry.name[i] = _ := List.getElem_ofFn below
  rw [at_i, bytes, getD_eq_getElem _ _ inside]

section

variable {attr : BitVec 8} {cluster : ℕ}

theorem newDirEntry_name (long : name.length = 11) : (newDirEntry name attr cluster).name = name :=
  DirEntry.name_eq long fun i => by fin_cases i <;> rfl

theorem newDirEntry_attr : (newDirEntry name attr cluster).attr = attr := rfl

theorem newDirEntry_isEnd : (newDirEntry name attr cluster).isEnd = true ↔ name.getD 0 0 = 0 :=
  DirEntry.isEnd_iff

end

/-- A short name starts with a letter, a digit, `_`, `-` or a blank. -/
theorem fat32GenerateShortName_first (longName : List (BitVec 8)) :
    (fat32GenerateShortName longName 0).getD 0 0 ≠ 0 ∧
      (fat32GenerateShortName longName 0).getD 0 0 ≠ dot := by
  have kept : ∀ ch : BitVec 8, (isalnum ch || ch = 0x5F || ch = 0x2D) = true →
      ch ≠ 0 ∧ ch ≠ dot := by
    decide +kernel
  simp only [fat32GenerateShortName, gt_iff_lt, lt_irrefl, if_false]
  generalize (strrchr dot longName).getD (longName, []) = parts
  cases stem : (((parts.1.map toupper).filter fun ch =>
      isalnum ch || ch = 0x5F || ch = 0x2D).take 6) with
  | nil =>
    have first : ([] ++ List.replicate (8 - 0) blank ++ shortNameExt parts.2).getD 0 0 =
        blank := rfl
    exact ⟨by rw [length_nil, first]; decide, by rw [length_nil, first]; decide⟩
  | cons ch rest =>
    have mem := mem_of_mem_take (stem ▸ mem_cons_self : ch ∈ List.take 6 _)
    exact kept ch (mem_filter.mp mem).2

/-- The entry of a new file with a plain name is listed; it has the name exactly if the base has
at most six characters. -/
theorem PlainName.newEntry (plain : PlainName base ext)
    (is_new : new = newDirEntry (fat32GenerateShortName (fileName base ext) 0) fatAttrArchive 0) :
    new.isEnd = false ∧ new.isSkipped = false ∧
      (nameMatch new.name (fileName base ext) = true ↔ base.length ≤ 6) := by
  subst is_new
  have long : (fat32GenerateShortName (fileName base ext) 0).length = 11 := by
    have := plain.ext_le
    rw [plain.shortName]
    simp only [length_append, length_take, length_map, length_replicate]
    omega
  refine ⟨?_, ?_, ?_⟩
  · rw [← Bool.not_eq_true, newDirEntry_isEnd]
    exact (fat32GenerateShortName_first _).1
  · rw [DirEntry.isSkipped, DirEntry.isFree_eq_false, newDirEntry_attr]
    decide
  · rw [newDirEntry_name long, plain.nameMatch_iff]

/-! ## Files that are found -/

/-- A consistent volume, as far as its directories go: the root directory has the clusters
`chain`, with nothing behind its end mark, and all directories are in `used`. -/
structure ConsistentVolume (fs : FatInfo) (dev : BlockDevice) (chain : List ℕ) (used : Set ℕ) :
    Prop where
  geometry : FatGeometry fs dev.totalSectors
  root : DirChain fs (viewOf fs dev) fs.rootCluster chain
  closed : DirsClosed fs (viewOf fs dev) used
  ended : (dirSlots fs chain).Pairwise fun slot later =>
    ((viewOf fs dev).dirEntry slot.1 slot.2).isEnd = true →
      ((viewOf fs dev).dirEntry later.1 later.2).isEnd = true

/-- The file is found and empty, and every other path that led to an entry still does. -/
def Findable (fs : FatInfo) (dev dev' : BlockDevice) (path : List (BitVec 8)) : Prop :=
  (∃ entry, fat32Lookup true fs dev' path = some (some entry) ∧ entry.fileSize = 0) ∧
    ∀ other, other ≠ path → ∀ entry, fat32Lookup true fs dev other = some (some entry) →
      fat32Lookup true fs dev' other = some (some entry)

/-- A path of one component is looked up in the root directory. -/
theorem fat32Lookup_root (fs : FatInfo) (dev : BlockDevice) (nonempty : name ≠ [])
    (single : slash ∉ name) :
    fat32Lookup true fs dev (slash :: name) = fat32FindInDir fs dev fs.rootCluster name := by
  have relative : skipSlash (slash :: name) = name := rfl
  obtain ⟨passes, enough⟩ := Nat.exists_eq_succ_of_ne_zero (by simp : (2 : ℕ) ^ 32 ≠ 0)
  rw [fat32Lookup, if_neg (by decide), relative, if_neg nonempty, strtok_of_notMem nonempty single]
  dsimp only
  rw [enough, loop_succ, lookupPass]
  cases fat32FindInDir fs dev fs.rootCluster name with
  | none => rfl
  | some found => cases found <;> rfl

/-- **Create makes the file findable** on a consistent volume exactly if it was there already and
empty, or it was not there, the base of its name has at most six characters and the root
directory has an end mark. -/
theorem create_findable_iff {searchMemory writeMemory : Bool} {fs : FatInfo}
    {dev dev' : BlockDevice} {chain : List ℕ} {used : Set ℕ} {base ext : List (BitVec 8)} {mode : ℕ}
    (consistent : ConsistentVolume fs dev chain used) (plain : PlainName base ext)
    (created : fat32CreateFile searchMemory writeMemory fs dev (slash :: fileName base ext) mode =
      some (0, dev')) :
    Findable fs dev dev' (slash :: fileName base ext) ↔
      (∃ entry, fat32Lookup true fs dev (slash :: fileName base ext) = some (some entry) ∧
        entry.fileSize = 0) ∨
      fat32Lookup true fs dev (slash :: fileName base ext) = some none ∧ base.length ≤ 6 ∧
        ∃ slot ∈ dirSlots fs chain, ((viewOf fs dev).dirEntry slot.1 slot.2).isEnd = true := by
  have shows_ := consistent.geometry.shows
  have single := (notMem_fileName plain.base_plain plain.ext_plain).2
  have named : baseName (slash :: fileName base ext) = fileName base ext := by
    have cut : strrchr slash (slash :: fileName base ext) = some ([], fileName base ext) :=
      strrchr_append (s := []) single
    rw [baseName, cut]
  have lookup : ∀ {dev view}, Shows fs dev view → DirChain fs view fs.rootCluster chain →
      fat32Lookup true fs dev (slash :: fileName base ext) =
        some ((listedEntries view (dirSlots fs chain)).find? fun entry =>
          nameMatch entry.name (fileName base ext)) := by
    intro dev view shows_ root
    obtain ⟨last, _, follows⟩ := root.follows shows_.geometry
    rw [fat32Lookup_root fs dev plain.ne_nil single, follows.find shows_]
  obtain ⟨view', shows', ⟨aside, shown⟩ | ⟨front, k, j, back, split, before, filled⟩⟩ :=
    fat32CreateFile_cases shows_ consistent.root created
  · -- the root directory is full: nothing that is reached changes
    have alike : DirsClosed.Same fs used (viewOf fs dev) view' := by
      intro c mem
      have in_use : (viewOf fs dev).entry c ≠ fat32Free := by
        intro free
        rcases consistent.closed.next c mem with eoc | range
        · rw [free] at eoc
          exact absurd eoc (by decide)
        · rw [free] at range
          exact absurd (consistent.closed.inRange _ range).1 (by decide)
      obtain ⟨entry, byte⟩ := aside c in_use
      refine ⟨entry, fun i _ => ?_⟩
      rw [FatView.dirEntry, FatView.dirEntry, byte]
    have lookups := consistent.closed.lookup_same shows_ shows' alike true
    have no_end : ¬∃ slot ∈ dirSlots fs chain,
        ((viewOf fs dev).dirEntry slot.1 slot.2).isEnd = true := by
      rintro ⟨slot, mem, ends⟩
      exact absurd (ends.symm.trans (shown slot mem)) (by simp)
    rw [Findable, lookups]
    constructor
    · exact fun found => Or.inl found.1
    · rintro (found | ⟨_, _, ends⟩)
      · exact ⟨found, fun other _ entry there => (lookups other).trans there⟩
      · exact absurd ends no_end
  · -- one more entry is listed
    rw [named] at filled
    generalize is_new : newDirEntry _ fatAttrArchive 0 = new at filled
    obtain ⟨shown, listed, match_iff⟩ := plain.newEntry is_new.symm
    have root' : DirChain fs view' fs.rootCluster chain :=
      ⟨consistent.root.first, consistent.root.inRange, filled.entry ▸ consistent.root.chained,
        consistent.root.nodup⟩
    have after : listedEntries view' (dirSlots fs chain) =
        listedEntries (viewOf fs dev) (dirSlots fs chain) ++ [new] := by
      have ended := consistent.ended
      have nodup := dirSlots_nodup fs consistent.root.nodup
      have inside : ∀ slot ∈ dirSlots fs chain, slot.2 < fs.entriesPerCluster := fun slot mem =>
        (mem_dirSlots.mp mem).2
      rw [split] at ended nodup inside ⊢
      have behind := (pairwise_cons.mp (pairwise_append.mp ended).2.1).1
      exact filled.listedEntries nodup inside before
        (fun slot mem => behind slot mem filled.was_end)
        shown listed
    have others : ∀ other, other ≠ slash :: fileName base ext → ∀ entry,
        fat32Lookup true fs dev other = some (some entry) →
          fat32Lookup true fs dev' other = some (some entry) :=
      fun _ _ _ found => filled.lookup shows_ shows' found
    have has_end : ∃ slot ∈ dirSlots fs chain,
        ((viewOf fs dev).dirEntry slot.1 slot.2).isEnd = true :=
      ⟨(k, j), by simp [split], filled.was_end⟩
    rw [Findable, and_iff_left others, lookup shows_ consistent.root, lookup shows' root', after,
      find?_append]
    cases (listedEntries (viewOf fs dev) (dirSlots fs chain)).find? fun entry =>
        nameMatch entry.name (fileName base ext) with
    | some old => simp
    | none =>
      by_cases short : base.length ≤ 6
      · rw [Option.none_or, find?_singleton, if_pos (match_iff.mpr short)]
        exact iff_of_true ⟨_, rfl, is_new ▸ rfl⟩ (Or.inr ⟨rfl, short, has_end⟩)
      · rw [Option.none_or, find?_singleton, if_neg (mt match_iff.mp short)]
        simp [short]

/-! ### An empty root directory -/

/-- A volume of eight clusters, with the root directory in the first one. -/
def tinyInfo : FatInfo where
  bytesPerSector := 512
  sectorsPerCluster := 1
  clusterSize := 512
  reservedSectors := 1
  numFats := 1
  fatSize := 1
  rootCluster := 2
  totalSectors := 10
  totalClusters := 10
  fatStartSector := 1
  dataStartSector := 2

/-- Its device: the entry of the root directory is an end-of-chain mark, everything else is
zero. -/
def tinyDevice : BlockDevice where
  totalSectors := 10
  bytes := fun a => if a = 523 then 0x0F else if 520 ≤ a ∧ a < 523 then 0xFF else 0

theorem tinyDevice_isEnd (i : ℕ) : ((viewOf tinyInfo tinyDevice).dirEntry 2 i).isEnd = true := by
  refine DirEntry.isEnd_iff.mpr ?_
  show (if 512 * 2 + (32 * i + 0) = 523 then _ else _) = (0 : BitVec 8)
  rw [if_neg (by omega), if_neg (by omega)]

theorem tinyDevice_consistent : ConsistentVolume tinyInfo tinyDevice [2] {2} := by
  have eoc : fat32IsEoc ((viewOf tinyInfo tinyDevice).entry 2) = true := by decide +kernel
  have range : tinyInfo.InRange 2 := by decide
  refine ⟨?_, ⟨rfl, by simpa using range, eoc, by simp⟩, ⟨rfl, ?_, ?_, ?_⟩, ?_⟩
  · constructor <;> decide
  · rintro c rfl
    exact range
  · rintro c rfl
    exact Or.inl eoc
  · rintro c rfl i _ shown
    exact absurd ((tinyDevice_isEnd i).symm.trans shown) (by simp)
  · refine pairwise_of_forall_mem_list fun slot _ later mem _ => ?_
    have here : later.1 = 2 := by simpa using (mem_dirSlots.mp mem).1
    rw [here]
    exact tinyDevice_isEnd _

/-- `/ABC.TXT` is created and found. -/
theorem create_findable_short :
    ∃ dev', fat32CreateFile true true tinyInfo tinyDevice
        (slash :: fileName [0x41, 0x42, 0x43] [0x54, 0x58, 0x54]) 0 = some (0, dev') ∧
      Findable tinyInfo tinyDevice dev'
        (slash :: fileName [0x41, 0x42, 0x43] [0x54, 0x58, 0x54]) := by
  have returns : (fat32CreateFile true true tinyInfo tinyDevice
      (slash :: fileName [0x41, 0x42, 0x43] [0x54, 0x58, 0x54]) 0).map (·.1) = some 0 := by
    decide +kernel
  obtain ⟨⟨_, dev'⟩, created, rfl⟩ := Option.map_eq_some_iff.mp returns
  refine ⟨dev', created, (create_findable_iff tinyDevice_consistent
    (by constructor <;> decide) created).mpr
    (Or.inr ⟨?_, by decide, (2, 0), by decide, tinyDevice_isEnd 0⟩)⟩
  have missing : (fat32Lookup true tinyInfo tinyDevice
      (slash :: fileName [0x41, 0x42, 0x43] [0x54, 0x58, 0x54])).map (·.isNone) = some true := by
    decide +kernel
  obtain ⟨result, lookup, none⟩ := Option.map_eq_some_iff.mp missing
  rw [lookup, Option.isNone_iff_eq_none.mp none]

/-- `/ABCDEFG` is created and not found. -/
theorem create_truncated :
    ConsistentVolume tinyInfo tinyDevice [2] {2} ∧
      PlainName [0x41, 0x42, 0x43, 0x44, 0x45, 0x46, 0x47] [] ∧
      ((fat32CreateFile true true tinyInfo tinyDevice
        (slash :: fileName [0x41, 0x42, 0x43, 0x44, 0x45, 0x46, 0x47] []) 0).map fun (ret, dev') =>
          (ret, (fat32Lookup true tinyInfo dev'
            (slash :: fileName [0x41, 0x42, 0x43, 0x44, 0x45, 0x46, 0x47] [])).map (·.isSome))) =
        some (0, some false) :=
  ⟨tinyDevice_consistent, by constructor <;> decide, by decide +kernel⟩

end EduOS
