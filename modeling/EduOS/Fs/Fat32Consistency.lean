import EduOS.Fs.Fat32Create
import EduOS.Fs.Fat32FileWrite
import EduOS.Fs.Fat32Layout

/-!
# FAT32 volumes over sequences of calls

`fat32_mkdir`, `fat32_unlink` and `fat32_rmdir` of `kernel/fs/fat32_create.c`, and what sequences
of them, of `fat32_create_file` and of `fat32_file_write` leave of a consistent volume.

`fat32_unlink` and `fat32_rmdir` free the clusters of an entry and mark it as deleted in memory
only: the entry is still listed and refers to free clusters, which the next allocation hands
out again (`rmdir_inconsistent`).  Writing through the entry of a directory overwrites
the directory, and `fat32_mkdir` leaves the cluster of the new directory as it was if there is
no memory for a buffer.

Without that volumes stay consistent (`volume_consistent`).  A file that is written through an
entry from `fat32_lookup` keeps its clusters or gets them from the free ones; the entry in the
directory is not changed.
-/

namespace EduOS

open Function (update update_self update_of_ne)
open Option
open DirEntry

/-! ## The calls -/

/-- An entry of a new directory for itself or its parent. -/
def dotEntry (name : List (BitVec 8)) (cluster : ℕ) : DirEntry :=
  ((DirEntry.zero.setName name).setAttr fatAttrDirectory).setFirstCluster cluster

/-- The first cluster of a new directory. -/
def newDirBuf (newCluster parentCluster : ℕ) : Bytes :=
  putEntry (putEntry (fun _ => 0) (0 * 32) (dotEntry dotName newCluster)) (1 * 32)
    (dotEntry dotDotName parentCluster)

/-- `fat32_mkdir`, in the root directory.  The flags say if there is memory for the search, for
the entry and for the new directory. -/
def fat32Mkdir (searchMemory writeMemory dirMemory : Bool) (fs : FatInfo) (dev : BlockDevice)
    (path : List (BitVec 8)) : Option (ℤ × BlockDevice) :=
  (fat32AllocCluster fs dev).bind fun (newCluster, dev) =>
    if newCluster = 0 then some (-enospc, dev)
    else
      let shortName := fat32GenerateShortName (baseName path) 0
      (fat32FindFreeDirEntry searchMemory fs dev fs.rootCluster).bind fun
      | (.error e, dev) => (fat32FreeCluster fs dev newCluster).map fun dev => (-e, dev)
      | (.ok (cluster, offset), dev) =>
        match fat32WriteDirEntry writeMemory fs dev cluster offset
            (newDirEntry shortName fatAttrDirectory newCluster) with
        | (.error e, dev) => (fat32FreeCluster fs dev newCluster).map fun dev => (-e, dev)
        | (.ok _, dev) =>
          if dirMemory then
            let dirBuf := newDirBuf newCluster fs.rootCluster
            some (0, (fat32WriteCluster fs dev newCluster dirBuf).toOption.getD dev)
          else some (0, dev)

/-- `fat32_unlink`.  The entry is marked as deleted in memory only. -/
def fat32Unlink (memory : Bool) (fs : FatInfo) (dev : BlockDevice) (path : List (BitVec 8)) :
    Option (ℤ × BlockDevice) :=
  (fat32Lookup memory fs dev path).bind fun
  | none => some (-enoent, dev)
  | some entry =>
    if entry.isDirectory then some (-eisdir, dev)
    else if 2 ≤ entry.firstCluster then
      (fat32FreeCluster fs dev entry.firstCluster).map fun dev => (0, dev)
    else some (0, dev)

/-- The check of `fat32_rmdir`: nothing but `.` and `..` in the first cluster. -/
def dirBufEmpty (fs : FatInfo) (buf : Bytes) : Bool :=
  (List.range' 2 (fs.entriesPerCluster - 2)).all fun i =>
    (entryAt buf i).isEnd || (entryAt buf i).isFree

/-- `fat32_rmdir`.  The entry stays as it is. -/
def fat32Rmdir (lookupMemory memory : Bool) (fs : FatInfo) (dev : BlockDevice)
    (path : List (BitVec 8)) : Option (ℤ × BlockDevice) :=
  (fat32Lookup lookupMemory fs dev path).bind fun
  | none => some (-enoent, dev)
  | some entry =>
    if !entry.isDirectory then some (-enotdir, dev)
    else if !memory then some (-enomem, dev)
    else
      match fat32ReadCluster fs dev entry.firstCluster fun _ => 0 with
      | .error _ => some (-eio, dev)
      | .ok buf =>
        if dirBufEmpty fs buf then
          (fat32FreeCluster fs dev entry.firstCluster).map fun dev => (0, dev)
        else some (-enotempty, dev)

/-! ## Runs -/

/-- The volume and the entries that callers have got from `fat32_lookup`. -/
structure FatState where
  dev : BlockDevice
  opened : ℕ → Option DirEntry

/-- The calls on a volume. -/
inductive FatCall
  | createFile (searchMemory writeMemory : Bool) (path : List (BitVec 8)) (mode : ℕ)
  | mkdir (searchMemory writeMemory dirMemory : Bool) (path : List (BitVec 8))
  | unlink (memory : Bool) (path : List (BitVec 8))
  | rmdir (lookupMemory memory : Bool) (path : List (BitVec 8))
  /-- A caller looks a path up and keeps the entry. -/
  | lookup (memory : Bool) (file : ℕ) (path : List (BitVec 8))
  | fileWrite (file : ℕ) (buf : Option Bytes) (pos : ℕ) (bytes : List (BitVec 8))

/-- One call; the flags say if there is memory for it. -/
def fatStep (fs : FatInfo) (s : FatState) : FatCall → Option FatState
  | .createFile searchMemory writeMemory path mode =>
    (fat32CreateFile searchMemory writeMemory fs s.dev path mode).map fun r => { s with dev := r.2 }
  | .mkdir searchMemory writeMemory dirMemory path =>
    (fat32Mkdir searchMemory writeMemory dirMemory fs s.dev path).map fun r => { s with dev := r.2 }
  | .unlink memory path => (fat32Unlink memory fs s.dev path).map fun r => { s with dev := r.2 }
  | .rmdir lookupMemory memory path =>
    (fat32Rmdir lookupMemory memory fs s.dev path).map fun r => { s with dev := r.2 }
  | .lookup memory file path =>
    (fat32Lookup memory fs s.dev path).map fun entry =>
      { s with opened := update s.opened file entry }
  | .fileWrite file buf pos bytes =>
    (fat32FileWrite (some fs) s.dev buf (s.opened file) pos bytes).map fun r =>
      { dev := r.dev, opened := update s.opened file r.entry }

/-- The calls that leave a volume consistent: nothing is freed that a directory refers to,
nothing is written through the entry of a directory, and there is memory for the buffer of a
new directory. -/
def KeepsVolume (fs : FatInfo) (s : FatState) : FatCall → Prop
  | .createFile .. => True
  | .mkdir _ _ dirMemory _ => dirMemory = true
  | .unlink memory path => ∀ entry, fat32Lookup memory fs s.dev path = some (some entry) →
      entry.isDirectory = true ∨ entry.firstCluster < 2
  | .rmdir lookupMemory memory path => ∀ entry buf,
      fat32Lookup lookupMemory fs s.dev path = some (some entry) → entry.isDirectory = true →
        memory = true → fat32ReadCluster fs s.dev entry.firstCluster (fun _ => 0) = .ok buf →
          dirBufEmpty fs buf = false
  | .lookup .. => True
  | .fileWrite file .. => ∀ entry, s.opened file = some entry → entry.isDirectory = false

/-- A volume as it should be: laid out on its device, with a layout of its clusters. -/
def SoundVolume (fs : FatInfo) (dev : BlockDevice) : Prop :=
  FatGeometry fs dev.totalSectors ∧ ∃ layout, Sound fs (viewOf fs dev) layout

/-- The volume is sound, and `files` are first clusters of files. -/
def Kept (fs : FatInfo) (files : Set ℕ) (dev : BlockDevice) : Prop :=
  ∃ view layout, Shows fs dev view ∧ Sound fs view layout ∧ files ⊆ layout.files

/-- The clusters of a file that is not a directory. -/
def Placed (files : Set ℕ) (entry : DirEntry) : Prop :=
  entry.isDirectory = false → entry.firstCluster = 0 ∨ entry.firstCluster ∈ files

variable {entry : DirEntry}

theorem Placed.mono {files files' : Set ℕ} (placed : Placed files entry) (sub : files ⊆ files') :
    Placed files' entry :=
  fun kind => (placed kind).imp_right fun mem => sub mem

section

variable {fs : FatInfo} {dev : BlockDevice} {view : FatView} {layout : Layout} {files : Set ℕ}

/-! ## New entries -/

variable {n cluster first : ℕ} {name : List (BitVec 8)}

/-- The end of a chain is freed. -/
theorem Shows.free_last (shows : Shows fs dev view) (range : fs.InRange n)
    (eoc : fat32IsEoc (view.entry n) = true) :
    ∃ dev', fat32FreeCluster fs dev n = some dev' ∧ Shows fs dev' (view.setEntry n fat32Free) := by
  obtain ⟨dev', written, shows'⟩ := shows.writeFat range fat32Free
  have pass : freePass fs (n, dev) = some (Sum.inr dev') := by
    simp only [freePass, if_neg range.not_outside, shows.readFat range, bind_some, written,
      map_some, eoc, Bool.true_or, if_true]
  refine ⟨dev', ?_, shows'⟩
  exact loop_of_leave _ pass

theorem DirEntry.isDot_eq_false (first : entry 0 ≠ dot) : entry.isDot = false := by
  have head : entry.name.head? = some (entry 0) := rfl
  have not_name : ∀ name, name.head? = some dot → entry.name ≠ name := by
    rintro name starts rfl
    exact first (Option.mem_unique head starts)
  simp [isDot, not_name dotName rfl, not_name dotDotName rfl]

/-- The entry of a new file or directory is listed, under a name of its own. -/
theorem newDirEntry_shown (longName : List (BitVec 8)) (attr : BitVec 8) (cluster : ℕ) :
    (newDirEntry (fat32GenerateShortName longName 0) attr cluster).isEnd = false ∧
      (newDirEntry (fat32GenerateShortName longName 0) attr cluster).isDot = false := by
  obtain ⟨not_end, not_dot⟩ := fat32GenerateShortName_first longName
  exact ⟨by rwa [← Bool.not_eq_true, newDirEntry_isEnd], isDot_eq_false not_dot⟩

theorem newDirEntry_firstCluster {attr : BitVec 8} (small : cluster < 2 ^ 32) :
    (newDirEntry name attr cluster).firstCluster = cluster := by
  simp only [newDirEntry, firstCluster_setFileSize]
  exact firstCluster_setFirstCluster _ small

variable {searchMemory writeMemory : Bool} {path bytes : List (BitVec 8)} {r : ℤ × BlockDevice}
  {parent pos : ℕ} {view₂ : FatView} {s : WriteState} {next : WriteState ⊕ Except ℕ ℕ × BlockDevice}

/-- **A file is created.** -/
theorem Kept.createFile (kept : Kept fs files dev) {mode : ℕ}
    (ran : fat32CreateFile searchMemory writeMemory fs dev path mode = some r) :
    Kept fs files r.2 := by
  obtain ⟨view, layout, shows, sound, sub⟩ := kept
  obtain ⟨place, dev₁, found, failed, wrote⟩ :=
    shows.addEntry (sound.chain _ (sound.dirs_sub sound.root)) searchMemory
  unfold fat32CreateFile at ran
  rw [found, map_some] at ran
  cases place with
  | error e =>
    obtain rfl := (failed e rfl).2
    cases ran
    exact ⟨view, layout, shows, sound, sub⟩
  | ok place =>
    obtain ⟨k, offset⟩ := place
    dsimp only at ran
    generalize written : fat32WriteDirEntry writeMemory fs dev₁ k offset
      (newDirEntry (fat32GenerateShortName (baseName path) 0) fatAttrArchive 0) = result at ran
    obtain ⟨status, dev₂⟩ := result
    have after : r.2 = dev₂ := by
      cases status <;> cases ran <;> rfl
    obtain ⟨view₂, shows₂, ⟨aside, _⟩ | ⟨_, front, j, back, split, before, filled⟩⟩ :=
      wrote k offset rfl _ _ _ _ written
    · exact ⟨view₂, layout, after ▸ shows₂, sound.aside aside, sub⟩
    obtain ⟨shown, proper⟩ := newDirEntry_shown (baseName path) fatAttrArchive 0
    refine ⟨view₂, layout, after ▸ shows₂, sound.fill filled split before shown proper ?_, sub⟩
    refine Or.inl ⟨?_, newDirEntry_firstCluster (by decide)⟩
    rw [DirEntry.isDirectory, newDirEntry_attr]
    decide

/-! ## New directories -/

theorem dotEntry_attr (name : List (BitVec 8)) (cluster : ℕ) :
    (dotEntry name cluster).attr = fatAttrDirectory := rfl

theorem dotEntry_firstCluster (small : cluster < 2 ^ 32) :
    (dotEntry name cluster).firstCluster = cluster :=
  firstCluster_setFirstCluster _ small

/-- The entries of a new directory: two for itself and its parent, then end marks. -/
theorem entryAt_newDirBuf (n parent i : ℕ) :
    entryAt (newDirBuf n parent) i =
      if i = 0 then dotEntry dotName n else if i = 1 then dotEntry dotDotName parent
      else DirEntry.zero := by
  unfold newDirBuf
  by_cases one : i = 1
  · subst one
    rw [entryAt_putEntry_self]
    rfl
  rw [entryAt_putEntry_of_ne one]
  by_cases zero : i = 0
  · subst zero
    rw [entryAt_putEntry_self]
    rfl
  · rw [entryAt_putEntry_of_ne zero, if_neg zero, if_neg one]
    rfl

theorem dotEntry_name (long : name.length = 11) : (dotEntry name cluster).name = name :=
  name_eq long fun i => by fin_cases i <;> rfl

/-- The entries before the end marks are those of the directory and its parent. -/
theorem newDirBuf_shown {i : ℕ} (small : n < 2 ^ 32) (parent_small : parent < 2 ^ 32)
    (shown : (entryAt (newDirBuf n parent) i).isEnd = false) :
    (entryAt (newDirBuf n parent) i).isDot = true ∧
      (entryAt (newDirBuf n parent) i).isDirectory = true ∧
      ((entryAt (newDirBuf n parent) i).firstCluster = n ∨
        (entryAt (newDirBuf n parent) i).firstCluster = parent) := by
  rw [entryAt_newDirBuf] at shown ⊢
  by_cases zero : i = 0
  · rw [if_pos zero]
    refine ⟨?_, isDirectory_of_attr (dotEntry_attr ..), Or.inl (dotEntry_firstCluster small)⟩
    rw [DirEntry.isDot, dotEntry_name (by decide)]
    decide
  rw [if_neg zero] at shown ⊢
  by_cases one : i = 1
  · rw [if_pos one]
    refine ⟨?_, isDirectory_of_attr (dotEntry_attr ..), Or.inr (dotEntry_firstCluster parent_small)⟩
    rw [DirEntry.isDot, dotEntry_name (by decide)]
    decide
  · rw [if_neg one] at shown
    exact absurd shown (by decide)

/-- There is nothing behind the first end mark of a new directory. -/
theorem pairwise_newDirBuf (n : ℕ)
    (content : ∀ i, view.dirEntry n i = entryAt (newDirBuf n parent) i) :
    (dirSlots fs [n]).Pairwise fun slot later =>
      (view.dirEntry slot.1 slot.2).isEnd = true →
        (view.dirEntry later.1 later.2).isEnd = true := by
  have slots : dirSlots fs [n] = (List.range fs.entriesPerCluster).map fun i => (n, i) := by
    simp [dirSlots]
  have first : (dotEntry dotName n).isEnd = false := rfl
  have second : (dotEntry dotDotName parent).isEnd = false := rfl
  rw [slots, List.pairwise_map]
  refine List.pairwise_lt_range.imp fun {i later} lt ends => ?_
  rw [content, entryAt_newDirBuf] at ends ⊢
  by_cases zero : i = 0
  · rw [if_pos zero, first] at ends
    cases ends
  rw [if_neg zero] at ends
  by_cases one : i = 1
  · rw [if_pos one, second] at ends
    cases ends
  · rw [if_neg (by omega), if_neg (by omega)]
    rfl

/-- **A directory is added**: its cluster was free, the entry for it is at the end of the root
directory, and the cluster has the entries of a new directory. -/
theorem Sound.addDir (sound : Sound fs view layout) {sectors : ℕ}
    (geometry : FatGeometry fs sectors) (range : fs.InRange n) (free : view.entry n = fat32Free)
    {new : DirEntry} {k j : ℕ}
    (filled : Filled fs (view.setEntry n fat32EocMax) view₂ k j new) {front back : List (ℕ × ℕ)}
    (split : dirSlots fs (layout.chains fs.rootCluster) = front ++ (k, j) :: back)
    (before : ∀ slot ∈ front, (view.dirEntry slot.1 slot.2).isEnd = false)
    (shown : new.isEnd = false) (proper : new.isDot = false) (directory : new.isDirectory = true)
    (first : new.firstCluster = n) :
    ∃ layout', Sound fs (view₂.setBytes n (newDirBuf n fs.rootCluster)) layout' ∧
      layout.files ⊆ layout'.files := by
  have small : ∀ c, fs.InRange c → c < 2 ^ 32 := by
    intro c c_range
    have below := geometry.cluster_lt c_range
    omega
  have root_head := sound.dirs_sub sound.root
  have root_range : fs.InRange fs.rootCluster :=
    (sound.chain _ root_head).inRange _ (sound.chain _ root_head).start_mem
  have outside := sound.notMem_heads free
  have n_ne_root : fs.rootCluster ≠ n := by
    rintro same
    exact outside (same ▸ root_head)
  have slot_ne : ∀ slot ∈ front ++ (k, j) :: back, slot.1 ≠ n := by
    rintro slot mem rfl
    exact sound.notMem_of_free free root_head (mem_dirSlots.mp (split ▸ mem)).1
  have k_ne_n : k ≠ n := slot_ne (k, j) (by simp)
  -- the chain of the new directory, with its contents, before there is an entry for it
  let buf := newDirBuf n fs.rootCluster
  let layout₁ := layout.setChain n [n]
  have chain_n : layout₁.chains n = [n] := layout.setChain_self n [n]
  have chain_root : layout₁.chains fs.rootCluster = layout.chains fs.rootCluster :=
    layout.setChain_of_ne n_ne_root [n]
  have file : n ∈ layout₁.files :=
    ⟨Set.mem_insert _ _, fun dir => outside (sound.dirs_sub dir)⟩
  have sound₁ : Sound fs (view.setEntry n fat32EocMax) layout₁ := sound.newChain range free
  have sound₂ : Sound fs ((view.setEntry n fat32EocMax).setBytes n buf) layout₁ :=
    sound₁.setBytes file (by simp [chain_n]) buf
  have unreferenced : Unreferenced fs ((view.setEntry n fat32EocMax).setBytes n buf) layout₁ n := by
    -- the entries that are listed refer to the chains that were there
    have old := sound.aside (((Aside.refl view).setEntry free fat32EocMax).setBytes free buf)
    intro d c i slot not_dot same
    have d_ne_n : d ≠ n := ne_of_mem_of_not_mem slot.dir file.2
    have mem : c ∈ layout.chains d := layout.setChain_of_ne d_ne_n [n] ▸ slot.mem
    rcases old.firstCluster ⟨slot.dir, mem, slot.inside, slot.shown, slot.listed⟩ not_dot with
      zero | head
    · have := range.1
      omega
    · exact outside (same ▸ head)
  have content : ∀ i, ((view.setEntry n fat32EocMax).setBytes n buf).dirEntry n i =
      entryAt buf i := by
    intro i
    rw [FatView.dirEntry, FatView.setBytes_byte_self]
  obtain ⟨sound₃, unreferenced₃⟩ := sound₂.newDir file unreferenced (by
    rw [chain_n]
    exact pairwise_newDirBuf n content) (by
    rw [chain_n]
    rintro c at_n i _ not_end
    obtain rfl := List.mem_singleton.mp at_n
    rw [content] at not_end ⊢
    obtain ⟨is_dot, is_dir, place⟩ := newDirBuf_shown (small _ range) (small _ root_range) not_end
    refine ⟨is_dot, is_dir, place.imp_right fun same => ?_⟩
    rw [same]
    exact sound.root)
  refine ⟨layout₁.addDir n, ?_, ?_⟩
  · have elsewhere : ∀ {c}, c ≠ n → ∀ (v : FatView) i, (v.setBytes n buf).dirEntry c i =
        v.dirEntry c i := by
      intro c ne v i
      rw [FatView.dirEntry, FatView.setBytes_byte_of_ne ne]
      rfl
    have filled' : Filled fs ((view.setEntry n fat32EocMax).setBytes n buf) (view₂.setBytes n buf)
        k j new := by
      refine ⟨filled.entry, ?_, ?_, fun c i inside apart => ?_⟩
      · rw [elsewhere k_ne_n]
        exact filled.was_end
      · rw [elsewhere k_ne_n]
        exact filled.here
      · by_cases at_n : c = n
        · subst at_n
          rw [FatView.dirEntry, FatView.dirEntry, FatView.setBytes_byte_self,
            FatView.setBytes_byte_self]
        · rw [elsewhere at_n, elsewhere at_n]
          exact filled.others c i inside apart
    refine sound₃.fill filled' (chain_root ▸ split) (fun slot mem => ?_) shown proper
      (Or.inr ⟨directory, first ▸ Set.mem_insert _ _, first.symm ▸ unreferenced₃⟩)
    rw [elsewhere (slot_ne slot (by simp [mem]))]
    exact before slot mem
  · rintro c ⟨head, not_dir⟩
    refine ⟨Set.mem_insert_of_mem _ head, ?_⟩
    rintro (same | dir)
    · exact outside (same ▸ head)
    · exact not_dir dir

/-- A failed `fat32_mkdir` gives its cluster back. -/
theorem Kept.giveBack (sound : Sound fs view layout) (sub : files ⊆ layout.files)
    (range : fs.InRange n) (free : view.entry n = fat32Free) {dev₂ dev₃ : BlockDevice}
    (shows₂ : Shows fs dev₂ view₂) (aside : Aside (view.setEntry n fat32EocMax) view₂)
    (freed : fat32FreeCluster fs dev₂ n = some dev₃) : Kept fs files dev₃ := by
  have marked : view₂.entry n = fat32EocMax := by
    have used : (view.setEntry n fat32EocMax).entry n ≠ fat32Free := by
      rw [FatView.setEntry_entry_self]
      decide
    rw [(aside n used).1, FatView.setEntry_entry_self]
  obtain ⟨dev', ran, shows₃⟩ := shows₂.free_last range (by rw [marked]; decide)
  obtain rfl := Option.mem_unique freed ran
  have unchanged : Aside view (view₂.setEntry n fat32Free) :=
    (((Aside.refl view).setEntry free _).trans aside).setEntry free _
  exact ⟨_, layout, shows₃, sound.aside unchanged, sub⟩

/-- **A directory is made**, with memory for its buffer. -/
theorem Kept.mkdir (kept : Kept fs files dev)
    (ran : fat32Mkdir searchMemory writeMemory true fs dev path = some r) : Kept fs files r.2 := by
  obtain ⟨view, layout, shows, sound, sub⟩ := kept
  unfold fat32Mkdir at ran
  rcases shows.alloc_cases with ⟨n, dev₁, allocated, nonzero, range, free, shows₁⟩ | full
  · have chain₁ : DirChain fs (view.setEntry n fat32EocMax) fs.rootCluster
        (layout.chains fs.rootCluster) :=
      (sound.aside ((Aside.refl view).setEntry free _)).chain _ (sound.dirs_sub sound.root)
    obtain ⟨place, dev₂, found, failed, wrote⟩ := shows₁.addEntry chain₁ searchMemory
    rw [allocated, bind_some] at ran
    dsimp only at ran
    rw [if_neg nonzero, found, bind_some] at ran
    cases place with
    | error e =>
      obtain rfl := (failed e rfl).2
      obtain ⟨dev₃, freed, rfl⟩ := map_eq_some_iff.mp ran
      exact Kept.giveBack sound sub range free shows₁ (Aside.refl _) freed
    | ok place =>
      obtain ⟨k, offset⟩ := place
      dsimp only at ran
      generalize written : fat32WriteDirEntry writeMemory fs dev₂ k offset
        (newDirEntry (fat32GenerateShortName (baseName path) 0) fatAttrDirectory n) = result at ran
      obtain ⟨status, dev₃⟩ := result
      obtain ⟨view₃, shows₃, outcome⟩ := wrote k offset rfl _ _ _ _ written
      cases status with
      | error e =>
        obtain ⟨dev₄, freed, rfl⟩ := map_eq_some_iff.mp ran
        rcases outcome with ⟨aside, _⟩ | ⟨ok, _⟩
        · exact Kept.giveBack sound sub range free shows₃ aside freed
        · cases ok
      | ok _ =>
        obtain ⟨dev₄, init, shows₄⟩ := shows₃.writeCluster range (newDirBuf n fs.rootCluster)
        dsimp only at ran
        rw [if_pos rfl, init] at ran
        cases ran
        rcases outcome with ⟨aside, _⟩ | ⟨_, front, j, back, split, before, filled⟩
        · -- the entry is in no directory
          have unchanged := (((Aside.refl view).setEntry free _).trans aside).setBytes free
            (newDirBuf n fs.rootCluster)
          exact ⟨_, layout, shows₄, sound.aside unchanged, sub⟩
        · obtain ⟨shown, proper⟩ := newDirEntry_shown (baseName path) fatAttrDirectory n
          have below := shows.geometry.cluster_lt range
          obtain ⟨layout', sound', grows⟩ := sound.addDir shows.geometry range free filled split
            before shown proper (isDirectory_of_attr newDirEntry_attr)
            (newDirEntry_firstCluster (by omega))
          exact ⟨_, layout', shows₄, sound', sub.trans grows⟩
  · rw [full] at ran
    cases ran
    exact ⟨view, layout, shows, sound, sub⟩

/-! ## Writing a file -/

/-- The volume is kept, and a write to the file that starts at `first` is at `cluster`. -/
def Writing (fs : FatInfo) (files : Set ℕ) (first cluster : ℕ) (dev : BlockDevice) : Prop :=
  ∃ view layout, Shows fs dev view ∧ Sound fs view layout ∧ files ⊆ layout.files ∧
    cluster ∈ layout.chains first

theorem Writing.kept (writing : Writing fs files first cluster dev) : Kept fs files dev := by
  obtain ⟨view, layout, shows, sound, sub, _⟩ := writing
  exact ⟨view, layout, shows, sound, sub⟩

theorem Kept.writing (kept : Kept fs files dev) (file : first ∈ files) :
    Writing fs files first first dev := by
  obtain ⟨view, layout, shows, sound, sub⟩ := kept
  exact ⟨view, layout, shows, sound, sub, (sound.chain first (sub file).1).start_mem⟩

/-- A cluster is added to the file. -/
theorem Sound.link (sound : Sound fs view layout) (sub : files ⊆ layout.files) {last : ℕ}
    (file : first ∈ files) (mem : last ∈ layout.chains first)
    (eoc : fat32IsEoc (view.entry last) = true) (range : fs.InRange n)
    (free : view.entry n = fat32Free) {dev₁ : BlockDevice}
    (shows₁ : Shows fs dev₁ (view.setEntry n fat32EocMax)) :
    ∃ dev₂, fat32WriteFat fs dev₁ last n = some (.ok (), dev₂) ∧ Writing fs files first n dev₂ := by
  have last_range := (sound.chain first (sub file).1).inRange last mem
  obtain ⟨dev₂, written, shows₂⟩ := shows₁.writeFat last_range n
  rw [shows₁.geometry.masked range] at shows₂
  have grown := sound.extend shows₁.geometry (sub file) mem eoc range free
  refine ⟨dev₂, written, _, _, shows₂, grown, fun c at_c => ?_, ?_⟩
  · exact ⟨Set.mem_insert_of_mem _ (sub at_c).1, (sub at_c).2⟩
  · rw [Layout.setChain_self]
    exact List.mem_append_right _ (List.mem_singleton_self n)

/-- A write goes on at a cluster of the file, or ends. -/
def WriteGoesOn (fs : FatInfo) (files : Set ℕ) (first : ℕ) :
    WriteState ⊕ Except ℕ ℕ × BlockDevice → Prop
  | Sum.inl s => Writing fs files first s.cluster s.dev
  | Sum.inr r => Kept fs files r.2

/-- On to the next cluster. -/
theorem Writing.nextCluster (file : first ∈ files)
    (writing : Writing fs files first s.cluster s.dev) (ran : nextCluster fs s = some next) :
    WriteGoesOn fs files first next := by
  obtain ⟨view, layout, shows, sound, sub, mem⟩ := writing
  have chain := sound.chain first (sub file).1
  rw [EduOS.nextCluster, shows.readFat (chain.inRange _ mem), bind_some] at ran
  by_cases eoc : fat32IsEoc (view.entry s.cluster) = true
  · rw [if_pos eoc] at ran
    rcases shows.alloc_cases with ⟨n, dev₁, allocated, nonzero, range, free, shows₁⟩ | full
    · obtain ⟨dev₂, written, later⟩ := sound.link sub file mem eoc range free shows₁
      rw [allocated, bind_some] at ran
      dsimp only at ran
      rw [if_neg nonzero, written] at ran
      cases ran
      exact later
    · rw [full] at ran
      cases ran
      exact ⟨view, layout, shows, sound, sub⟩
  · rw [if_neg eoc] at ran
    cases ran
    exact ⟨view, layout, shows, sound, sub, (chain.chained.next_mem mem).resolve_left eoc⟩

/-- **One pass of the loop.** -/
theorem Writing.pass (file : first ∈ files) (writing : Writing fs files first s.cluster s.dev)
    (ran : writePass fs bytes s = some next) :
    WriteGoesOn fs files first next := by
  by_cases done : bytes.length ≤ s.written
  · rw [writePass, if_pos done] at ran
    cases ran
    exact writing.kept
  obtain ⟨view, layout, shows, sound, sub, mem⟩ := writing
  have range := (sound.chain first (sub file).1).inRange _ mem
  rw [writePass, if_neg done] at ran
  dsimp only at ran
  generalize overwrite _ s.offset _ bytes s.written = buf at ran
  obtain ⟨dev', written, shows'⟩ := shows.writeCluster range buf
  have after : Writing fs files first s.cluster dev' :=
    ⟨_, layout, shows', sound.setBytes (sub file) mem buf, sub, mem⟩
  rw [written] at ran
  dsimp only at ran
  split at ran
  · exact Writing.nextCluster file after ran
  · cases ran
    exact after

/-- The way along the chain of a file: to one of its clusters, or to the mark behind the last
one. -/
theorem DirChain.skip {chain : List ℕ} (dir : DirChain fs view first chain)
    (shows : Shows fs dev view) :
    ∀ (n prev cluster : ℕ) (r : ℕ × ℕ), cluster ∈ chain →
      skipClusters fs dev n prev cluster = some r →
        r.2 ∈ chain ∨ 0 < n ∧ r.1 ∈ chain ∧ view.entry r.1 = r.2 ∧ fat32IsEoc r.2 = true
  | 0, _, _, _, mem, ran => by
    cases ran
    exact Or.inl mem
  | n + 1, prev, cluster, r, mem, ran => by
    have range := dir.inRange cluster mem
    rw [skipClusters, shows.geometry.not_eoc range, shows.readFat range] at ran
    simp only [Bool.false_eq_true, if_false, bind_some] at ran
    rcases dir.chained.next_mem mem with eoc | next
    · -- the walk stays at the mark
      have stays : skipClusters fs dev n cluster (view.entry cluster) =
          some (cluster, view.entry cluster) := by
        cases n with
        | zero => rfl
        | succ n => rw [skipClusters, if_pos eoc]
      obtain rfl := Option.mem_unique stays ran
      exact Or.inr ⟨Nat.succ_pos n, mem, rfl, eoc⟩
    · rcases dir.skip shows n cluster _ r next ran with on | ⟨_, rest⟩
      · exact Or.inl on
      · exact Or.inr ⟨Nat.succ_pos n, rest⟩

/-- The cluster where a write begins. -/
theorem Writing.locate (file : first ∈ files) (writing : Writing fs files first first dev)
    {r : Option ℕ × BlockDevice} (ran : locateCluster fs dev n first = some r) :
    Kept fs files r.2 ∧ ∀ cluster, r.1 = some cluster → Writing fs files first cluster r.2 := by
  obtain ⟨view, layout, shows, sound, sub, mem⟩ := writing
  have chain := sound.chain first (sub file).1
  have kept : Kept fs files dev := ⟨view, layout, shows, sound, sub⟩
  obtain ⟨⟨prev, cluster⟩, skipped, ran⟩ := bind_eq_some_iff.mp ran
  dsimp only at ran
  rcases chain.skip shows n 0 first _ mem skipped with on | ⟨some_pages, on, link, eoc⟩
  · have inside : ¬(fat32IsEoc cluster = true ∧ 0 < n) := by
      rw [shows.geometry.not_eoc (chain.inRange cluster on)]
      simp
    rw [if_neg inside] at ran
    cases ran
    refine ⟨kept, ?_⟩
    rintro _ ⟨⟩
    exact ⟨view, layout, shows, sound, sub, on⟩
  · rw [if_pos ⟨eoc, some_pages⟩] at ran
    rcases shows.alloc_cases with ⟨c, dev₁, allocated, nonzero, range, free, shows₁⟩ | full
    · obtain ⟨dev₂, written, later⟩ := sound.link sub file on (link ▸ eoc) range free shows₁
      have positive : 0 < prev := by
        have := (chain.inRange prev on).1
        omega
      rw [allocated, bind_some] at ran
      rw [if_neg nonzero, if_pos positive, written] at ran
      cases ran
      refine ⟨later.kept, ?_⟩
      rintro _ ⟨⟩
      exact later
    · rw [full] at ran
      cases ran
      exact ⟨kept, fun _ equal => by cases equal⟩

/-- The file has a first cluster, or there is none left. -/
theorem Kept.ensureFirst (kept : Kept fs files dev) (placed : Placed files entry)
    (kind : entry.isDirectory = false) {r : Option ℕ × DirEntry × BlockDevice}
    (ran : ensureFirst fs dev entry = some r) :
    ∃ files', files ⊆ files' ∧ Kept fs files' r.2.2 ∧ Placed files' r.2.1 ∧
      r.2.1.attr = entry.attr ∧
      ∀ first, r.1 = some first → first ∈ files' := by
  by_cases none : entry.firstCluster = 0
  · obtain ⟨view, layout, shows, sound, sub⟩ := kept
    rw [EduOS.ensureFirst, if_pos none] at ran
    rcases shows.alloc_cases with ⟨n, dev₁, allocated, nonzero, range, free, shows₁⟩ | full
    · rw [allocated, map_some] at ran
      dsimp only at ran
      rw [if_neg nonzero] at ran
      cases ran
      have below := shows.geometry.cluster_lt range
      have first : (entry.setFirstCluster n).firstCluster = n :=
        entry.firstCluster_setFirstCluster (by omega)
      refine ⟨insert n files, Set.subset_insert _ _, ⟨_, _, shows₁, sound.newChain range free, ?_⟩,
        fun _ => Or.inr (first.symm ▸ Set.mem_insert _ _), rfl, ?_⟩
      · refine Set.insert_subset ⟨Set.mem_insert _ _, fun dir => ?_⟩ fun c at_c =>
          ⟨Set.mem_insert_of_mem _ (sub at_c).1, (sub at_c).2⟩
        exact sound.notMem_heads free (sound.dirs_sub dir)
      · rintro _ ⟨⟩
        exact Set.mem_insert _ _
    · rw [full] at ran
      cases ran
      exact ⟨files, Set.Subset.rfl, ⟨view, layout, shows, sound, sub⟩, placed, rfl,
        fun _ equal => by cases equal⟩
  · rw [EduOS.ensureFirst, if_neg none] at ran
    cases ran
    refine ⟨files, Set.Subset.rfl, kept, placed, rfl, ?_⟩
    rintro _ ⟨⟩
    exact (placed kind).resolve_left none

theorem DirEntry.grown_attr {written : ℕ} : (entry.grown pos written).attr = entry.attr := by
  unfold grown
  split <;> rfl

/-- **A file is written** through an entry of its own. -/
theorem Kept.fileWrite (kept : Kept fs files dev) (placed : Placed files entry)
    (kind : entry.isDirectory = false) {buf : Option Bytes}
    {r : WriteResult} (ran : fat32FileWrite (some fs) dev buf (some entry) pos bytes = some r) :
    ∃ files', files ⊆ files' ∧ Kept fs files' r.dev ∧
      ∀ entry', r.entry = some entry' → Placed files' entry' := by
  obtain ⟨⟨first, entry₁, dev₁⟩, ensured, ran⟩ := bind_eq_some_iff.mp ran
  obtain ⟨files', sub, kept₁, placed₁, attr, file⟩ := kept.ensureFirst placed kind ensured
  refine ⟨files', sub, ?_⟩
  have same : ∀ entry', some entry₁ = some entry' → Placed files' entry' := by
    rintro _ ⟨⟩
    exact placed₁
  cases first with
  | none =>
    cases ran
    exact ⟨kept₁, same⟩
  | some first =>
    have file := file first rfl
    obtain ⟨⟨cluster, dev₂⟩, located, ran⟩ := bind_eq_some_iff.mp ran
    obtain ⟨kept₂, writing⟩ := (kept₁.writing file).locate file located
    cases cluster with
    | none =>
      cases ran
      exact ⟨kept₂, same⟩
    | some cluster =>
      cases buf with
      | none =>
        cases ran
        exact ⟨kept₂, same⟩
      | some buf =>
        obtain ⟨⟨status, dev₃⟩, looped, returned⟩ := map_eq_some_iff.mp ran
        -- every pass keeps the volume
        have kept₃ := loop_post (fun s : WriteState => Writing fs files' first s.cluster s.dev)
          (fun r : Except ℕ ℕ × BlockDevice => Kept fs files' r.2)
          (fun s s' writing pass => writing.pass file pass)
          (fun s r writing pass => writing.pass file pass) _ _ _ (writing cluster rfl) looped
        cases status with
        | error e =>
          subst returned
          exact ⟨kept₃, same⟩
        | ok written =>
          subst returned
          refine ⟨kept₃, ?_⟩
          rintro _ ⟨⟩ kind'
          rw [grown_firstCluster]
          refine placed₁ ?_
          rwa [DirEntry.isDirectory, grown_attr] at kind'

end

/-! ## Consistency -/

/-- **The invariant of runs**: the volume is sound, and callers hold entries of files, of empty
files, or of directories. -/
def RunInvariant (fs : FatInfo) (s : FatState) : Prop :=
  ∃ files, Kept fs files s.dev ∧ ∀ file entry, s.opened file = some entry → Placed files entry

theorem RunInvariant.consistent {fs : FatInfo} {s : FatState} (inv : RunInvariant fs s) :
    VolumeConsistent fs s.dev := by
  obtain ⟨_, ⟨view, layout, shows, sound, _⟩, _⟩ := inv
  exact sound.consistent shows

/-- The entry that a caller keeps. -/
theorem placed_update {files files' : Set ℕ} {opened : ℕ → Option DirEntry}
    (placed : ∀ file entry, opened file = some entry → Placed files entry) (sub : files ⊆ files')
    {file : ℕ} {new : Option DirEntry} (here : ∀ entry, new = some entry → Placed files' entry) :
    ∀ other entry, update opened file new other = some entry → Placed files' entry := by
  intro other entry there
  by_cases same : other = file
  · subst same
    rw [update_self] at there
    exact here entry there
  · rw [update_of_ne same] at there
    exact (placed other entry there).mono sub

/-- **A call keeps the invariant.** -/
theorem RunInvariant.step {fs : FatInfo} {s s' : FatState} {call : FatCall}
    (inv : RunInvariant fs s) (keeps : KeepsVolume fs s call)
    (stepped : fatStep fs s call = some s') :
    RunInvariant fs s' := by
  obtain ⟨files, kept, placed⟩ := inv
  cases call with
  | createFile searchMemory writeMemory path mode =>
    obtain ⟨r, ran, rfl⟩ := map_eq_some_iff.mp stepped
    exact ⟨files, kept.createFile ran, placed⟩
  | mkdir searchMemory writeMemory dirMemory path =>
    obtain ⟨r, ran, rfl⟩ := map_eq_some_iff.mp stepped
    obtain rfl : dirMemory = true := keeps
    exact ⟨files, kept.mkdir ran, placed⟩
  | unlink memory path =>
    obtain ⟨r, ran, rfl⟩ := map_eq_some_iff.mp stepped
    obtain ⟨found, looked, ran⟩ := bind_eq_some_iff.mp ran
    have unchanged : r.2 = s.dev := by
      cases found with
      | none => cases ran; rfl
      | some entry =>
        dsimp only at ran
        rcases keeps entry looked with directory | low
        · rw [if_pos directory] at ran
          cases ran
          rfl
        · rw [if_neg (Nat.not_le.mpr low)] at ran
          split at ran <;> cases ran <;> rfl
    exact ⟨files, unchanged ▸ kept, placed⟩
  | rmdir lookupMemory memory path =>
    obtain ⟨r, ran, rfl⟩ := map_eq_some_iff.mp stepped
    obtain ⟨found, looked, ran⟩ := bind_eq_some_iff.mp ran
    have unchanged : r.2 = s.dev := by
      cases found with
      | none => cases ran; rfl
      | some entry =>
        cases directory : entry.isDirectory with
        | false => simp only [directory] at ran; cases ran; rfl
        | true =>
          cases memory with
          | false => simp only [directory] at ran; cases ran; rfl
          | true =>
            cases read : fat32ReadCluster fs s.dev entry.firstCluster fun _ => 0 with
            | error e => simp only [directory, read] at ran; cases ran; rfl
            | ok buf =>
              have full := keeps entry buf looked directory rfl read
              simp only [directory, read, full] at ran
              cases ran
              rfl
    exact ⟨files, unchanged ▸ kept, placed⟩
  | lookup memory file path =>
    obtain ⟨found, looked, rfl⟩ := map_eq_some_iff.mp stepped
    obtain ⟨view, layout, shows, sound, sub⟩ := kept
    refine ⟨layout.files, ⟨view, layout, shows, sound, Set.Subset.rfl⟩, placed_update placed sub ?_⟩
    rintro entry rfl
    exact fun kind => sound.lookup shows looked kind
  | fileWrite file buf pos bytes =>
    obtain ⟨r, ran, rfl⟩ := map_eq_some_iff.mp stepped
    cases held : s.opened file with
    | none =>
      rw [held] at ran
      cases ran
      exact ⟨files, kept, placed_update placed Set.Subset.rfl fun _ none => by cases none⟩
    | some entry =>
      rw [held] at ran
      obtain ⟨files', sub, kept', placed'⟩ :=
        kept.fileWrite (placed file entry held) (keeps entry held) ran
      exact ⟨files', kept', placed_update placed sub placed'⟩

/-- **Volumes stay consistent** as long as nothing is freed that a directory refers to, nothing is
written through the entry of a directory, and there is memory for new directories. -/
theorem volume_consistent {fs : FatInfo} {dev : BlockDevice} {s' : FatState} {calls : List FatCall}
    (start : SoundVolume fs dev)
    (kept : Allowed (fatStep fs) (KeepsVolume fs) ⟨dev, fun _ => none⟩ calls)
    (ran : exec (fatStep fs) ⟨dev, fun _ => none⟩ calls = some s') :
    VolumeConsistent fs s'.dev := by
  obtain ⟨geometry, layout, sound⟩ := start
  have initially : RunInvariant fs ⟨dev, fun _ => none⟩ :=
    ⟨layout.files, ⟨_, layout, geometry.shows, sound, Set.Subset.rfl⟩,
      fun _ _ none => by cases none⟩
  exact (exec_keeps (RunInvariant fs)
    (fun _ _ _ inv keeps stepped => inv.step keeps stepped) calls _
    s' initially kept ran).consistent

/-! ### Runs on an empty volume -/

/-- The volume with an empty root directory. -/
theorem tinyDevice_sound : SoundVolume tinyInfo tinyDevice := by
  have volume := tinyDevice_consistent
  have nothing : ∀ {d c i}, ListedSlot tinyInfo (viewOf tinyInfo tinyDevice)
      ⟨{2}, {2}, fun _ => [2]⟩ d c i → False := by
    intro d c i slot
    obtain rfl := List.mem_singleton.mp slot.mem
    exact absurd ((tinyDevice_isEnd i).symm.trans slot.shown) (by simp)
  refine ⟨volume.geometry, ⟨{2}, {2}, fun _ => [2]⟩, rfl, Set.Subset.rfl,
    ?_, ?_, ?_, ?_, ?_, ?_, ?_⟩
  · rintro c rfl
    exact volume.root
  · rintro c rfl d rfl ne
    exact absurd rfl ne
  · exact fun _ _ => volume.ended
  all_goals exact fun slot => (nothing slot).elim

/-- `/ABC.TXT` is created and written, then `/D` is made. -/
def quietRun : List FatCall :=
  [.createFile true true (slash :: fileName [0x41, 0x42, 0x43] [0x54, 0x58, 0x54]) 0,
    .lookup true 0 (slash :: fileName [0x41, 0x42, 0x43] [0x54, 0x58, 0x54]),
    .fileWrite 0 (some fun _ => 0) 0 [0x61, 0x62], .mkdir true true true [slash, 0x44]]

theorem volume_consistent_quiet :
    ∃ s', exec (fatStep tinyInfo) ⟨tinyDevice, fun _ => none⟩ quietRun = some s' ∧
      VolumeConsistent tinyInfo s'.dev := by
  refine Exists.imp (fun s' ran => ⟨ran, volume_consistent tinyDevice_sound ?_ ran⟩)
    (isSome_iff_exists.mp (by decide +kernel))
  have file : ((exec (fatStep tinyInfo) ⟨tinyDevice, fun _ => none⟩ (quietRun.take 2)).bind fun s =>
      (s.opened 0).map (·.isDirectory)) = some false := by decide +kernel
  refine ⟨trivial, fun s₁ created => ⟨trivial, fun s₂ opened => ⟨?_, fun _ _ => ⟨rfl, fun _ _ =>
    trivial⟩⟩⟩⟩
  intro entry held
  rw [quietRun, List.take_succ_cons, exec_cons, created, bind_some, List.take_succ_cons,
    exec_cons, opened, bind_some, List.take_zero, exec_nil, bind_some, held] at file
  exact Option.some.inj file

/-- `/D` is made and removed: it is still listed, and its cluster is free. -/
theorem rmdir_inconsistent :
    SoundVolume tinyInfo tinyDevice ∧
      ∃ s', exec (fatStep tinyInfo) ⟨tinyDevice, fun _ => none⟩
          [.mkdir true true true [slash, 0x44], .rmdir true true [slash, 0x44]] = some s' ∧
        ¬VolumeConsistent tinyInfo s'.dev := by
  have facts : ((exec (fatStep tinyInfo) ⟨tinyDevice, fun _ => none⟩
      [.mkdir true true true [slash, 0x44], .rmdir true true [slash, 0x44]]).map fun s =>
        ((fat32Readdir tinyInfo s.dev 2 0).map fun r => r.toOption.join.map fun entry =>
          (entry.isDot, entry.firstCluster), fat32ReadFat tinyInfo s.dev 3)) =
      some (some (some (false, 3)), some fat32Free) := by decide +kernel
  obtain ⟨s', ran, facts⟩ := map_eq_some_iff.mp facts
  obtain ⟨read, free⟩ := Prod.mk.inj facts
  obtain ⟨result, listed, found⟩ := map_eq_some_iff.mp read
  refine ⟨tinyDevice_sound, s', ran, fun consistent => ?_⟩
  cases result with
  | error e => cases found
  | ok entry =>
    obtain ⟨entry, rfl, same⟩ := map_eq_some_iff.mp found
    obtain ⟨proper, first⟩ := Prod.mk.inj same
    refine consistent.used (d := 2) (i := 0) ⟨.root, listed, proper⟩ 3 ?_ free
    rw [first]
    exact .first (by decide)

end EduOS
