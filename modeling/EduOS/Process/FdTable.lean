import EduOS.Fs.Vfs
import EduOS.Library.RefCount
import EduOS.Library.Run

/-!
# Descriptor tables

`kernel/process/fd_table.c` and the system calls of `kernel/syscall/sys_fd.c` and
`sys_io.c` that open, duplicate and close descriptors.

A slot that refers to a file counts as one reference of it.  That holds for every call but
`fd_table_copy`, which copies the slots and leaves the counters as they are
(`fd_refs_iff`).
-/

namespace EduOS

open Function Option

/-- `struct file_descriptor_table` -/
structure FdTable where
  files : FileSlots
  count : ℕ

/-- The files of the kernel and the descriptor tables, by their addresses. -/
structure FdState (κ ω : Type) extends VfsState κ ω where
  tables : ℕ → Option FdTable

variable {κ ω : Type}

/-- `fd_table_create`, at the address that `kmalloc` returns. -/
def fdTableCreate (s : FdState κ ω) (address : ℕ) : FdState κ ω :=
  { s with tables := update s.tables address (some ⟨fun _ => none, 0⟩) }

/-- Store a table. -/
def FdState.withTable (s : FdState κ ω) (address : ℕ) (table : FdTable) : FdState κ ω :=
  { s with tables := update s.tables address (some table) }

/-- `fd_table_alloc`: the descriptor, if there is a free one. -/
def fdTableAlloc (address file : ℕ) (s : FdState κ ω) :
    Option (Option (Fin maxOpenFiles) × FdState κ ω) :=
  (s.tables address).map fun table =>
    match freeSlot table.files with
    | none => (none, s)
    | some fd =>
      (some fd, s.withTable address ⟨update table.files fd (some file), u32 (table.count + 1)⟩)

/-- `fd_table_free` of a descriptor in range: says if it was open. -/
def fdTableFree (ops : κ → FileOperations κ ω) (address : ℕ) (fd : Fin maxOpenFiles)
    (s : FdState κ ω) : Option (Bool × FdState κ ω) :=
  (s.tables address).bind fun table =>
    match table.files fd with
    | none => some (false, s)
    | some file =>
      (filePut ops file s.toVfsState).map fun vfs =>
        (true, { s with toVfsState := vfs }.withTable address
          ⟨update table.files fd none, sub32 table.count 1⟩)

/-- `fd_table_copy`, at the address that `kmalloc` returns.  The counters of the files are
left as they are. -/
def fdTableCopy (source address : ℕ) (s : FdState κ ω) : Option (FdState κ ω) :=
  (s.tables source).map fun table =>
    (fdTableCreate s address).withTable address ⟨table.files, table.count⟩

/-- The loop of `fd_table_destroy`. -/
def destroySlots (ops : κ → FileOperations κ ω) (address : ℕ) :
    List (Fin maxOpenFiles) → FdState κ ω → Option (FdState κ ω)
  | [], s => some s
  | fd :: rest, s =>
    (s.tables address).bind fun table =>
      match table.files fd with
      | none => destroySlots ops address rest s
      | some file =>
        (filePut ops file s.toVfsState).bind fun vfs =>
          destroySlots ops address rest
            ({ s with toVfsState := vfs }.withTable address
              ⟨update table.files fd none, table.count⟩)

/-- `fd_table_destroy` -/
def fdTableDestroy (ops : κ → FileOperations κ ω) (address : ℕ) (s : FdState κ ω) :
    Option (FdState κ ω) :=
  (destroySlots ops address (List.finRange maxOpenFiles) s).map fun s =>
    { s with tables := update s.tables address none }

/-! ## System calls -/

/-- The file at a descriptor of a table. -/
def FdState.fileAt (s : FdState κ ω) (address : ℕ) (fd : ℤ) : Option ℕ :=
  (fdSlot fd).bind fun slot => (s.tables address).bind fun table => table.files slot

/-- `sys_open`, for a process with the table at `address`. -/
def sysOpen (ops : κ → FileOperations κ ω) (address : ℕ) (allocated : Option ℕ)
    (dentry : Option (Option ℕ)) (flags : BitVec 32) (s : FdState κ ω) :
    Option (Except ℕ (Fin maxOpenFiles) × FdState κ ω) :=
  (vfsOpenFile ops allocated dentry flags s.toVfsState).bind fun
    | (none, vfs) => some (.error enoent, { s with toVfsState := vfs })
    | (some file, vfs) =>
      (fdTableAlloc address file { s with toVfsState := vfs }).bind fun
        | (some fd, s) => some (.ok fd, s)
        | (none, s) =>
          (filePut ops file s.toVfsState).map fun vfs =>
            (.error enomem, { s with toVfsState := vfs })

/-- `sys_close` -/
def sysClose (ops : κ → FileOperations κ ω) (address : ℕ) (fd : ℤ) (s : FdState κ ω) :
    Option (Except ℕ Bool × FdState κ ω) :=
  if fd < 0 then some (.error einval, s)
  else
    match fdSlot fd with
    | none => some (.ok false, s)
    | some slot => (fdTableFree ops address slot s).map fun r => (.ok r.1, r.2)

/-- `sys_dup` -/
def sysDup (ops : κ → FileOperations κ ω) (address : ℕ) (oldfd : ℤ) (s : FdState κ ω) :
    Option (Except ℕ (Fin maxOpenFiles) × FdState κ ω) :=
  match s.fileAt address oldfd with
  | none => some (.error ebadf, s)
  | some file =>
    (fileGet file s.toVfsState).bind fun vfs =>
      (fdTableAlloc address file { s with toVfsState := vfs }).bind fun
        | (some fd, s) => some (.ok fd, s)
        | (none, s) =>
          (filePut ops file s.toVfsState).map fun vfs =>
            (.error emfile, { s with toVfsState := vfs })

/-- One more reference to a file, in a slot that is set without a look at what was in it
or at the number of open files. -/
def installFile (address file : ℕ) (slot : Fin maxOpenFiles) (s : FdState κ ω) :
    Option (FdState κ ω) :=
  (fileGet file s.toVfsState).bind fun vfs =>
    (s.tables address).map fun table =>
      { s with toVfsState := vfs }.withTable address
        { table with files := update table.files slot (some file) }

/-- `sys_dup2` -/
def sysDup2 (ops : κ → FileOperations κ ω) (address : ℕ) (oldfd newfd : ℤ) (s : FdState κ ω) :
    Option (Except ℕ ℤ × FdState κ ω) :=
  match s.fileAt address oldfd, fdSlot newfd with
  | none, _ => some (.error ebadf, s)
  | some _, none => some (.error ebadf, s)
  | some file, some slot =>
    if oldfd = newfd then some (.ok newfd, s)
    else
      -- `fd_table_free` does nothing to a slot that is not open
      (fdTableFree ops address slot s).bind fun r =>
        (installFile address file slot r.2).map fun s => (.ok newfd, s)

/-- The slots that `F_DUPFD` looks at. -/
def slotsFrom (first : ℕ) : List (Fin maxOpenFiles) :=
  (List.finRange maxOpenFiles).filter fun i => first ≤ i.val

/-- `sys_fcntl` with `F_DUPFD`; `arg` is not negative as an `int`. -/
def sysFcntlDupfd (address : ℕ) (fd : ℤ) (arg : ℕ) (s : FdState κ ω) :
    Option (Except ℕ (Fin maxOpenFiles) × FdState κ ω) :=
  match s.fileAt address fd with
  | none => some (.error ebadf, s)
  | some file =>
    (s.tables address).bind fun table =>
      match (slotsFrom arg).find? fun i => (table.files i).isNone with
      | none => some (.error emfile, s)
      | some slot => (installFile address file slot s).map fun s => (.ok slot, s)

/-! ## Slots as references -/

/-- A slot of the kernel's own table (`none`), or of a descriptor table. -/
abbrev FdPlace := Option ℕ × Fin maxOpenFiles

/-- What a slot refers to. -/
def FdState.place (s : FdState κ ω) : FdPlace → Option ℕ
  | (none, slot) => s.openFiles slot
  | (some address, slot) => (s.tables address).bind fun table => table.files slot

/-- The counters of the files. -/
def VfsState.counts (s : VfsState κ ω) (file : ℕ) : Option ℕ :=
  (s.files file).map OpenFile.refCount

/-- The inode of a file. -/
def VfsState.inodeOf (s : VfsState κ ω) (file : ℕ) : Option ℕ :=
  (s.files file).bind OpenFile.inode

/-- The inode of a file is live, and has a reference for each of its files. -/
def VfsState.InodesOk (s : VfsState κ ω) : Prop :=
  ∀ inode, (holders s.inodeOf inode).Finite ∧
    ((holders s.inodeOf inode).Nonempty → ∃ object, s.inodes inode = some object ∧
      (holders s.inodeOf inode).ncard ≤ object.refCount)

/-- The counters are right, a file is in one table only, and the inodes are live. -/
structure FdState.Ok (s : FdState κ ω) : Prop where
  counted : Counted s.place s.counts
  oneTable : ∀ file, ∃ table, ∀ place, s.place place = some file → place.1 = table
  inodesOk : s.InodesOk

variable {ops : κ → FileOperations κ ω} {slot : Fin maxOpenFiles} {address file : ℕ}
    {table : FdTable} {s' : VfsState κ ω}

theorem freeSlot_vacant {slots : FileSlots} (found : freeSlot slots = some slot) :
    slots slot = none := by
  simpa using List.find?_some found

@[simp] theorem FdState.withTable_tables (s : FdState κ ω) (address : ℕ) (table : FdTable) :
    (s.withTable address table).tables address = some table :=
  update_self ..

variable {fd old : Fin maxOpenFiles} {object : OpenFile κ} {inode : ℕ}

theorem fdTableAlloc_of_free {s : FdState κ ω}
    (found : s.tables address = some table) (free : freeSlot table.files = some fd) (file : ℕ) :
    fdTableAlloc address file s = some (some fd, s.withTable address
      ⟨update table.files fd (some file), u32 (table.count + 1)⟩) := by
  rw [fdTableAlloc, found, map_some, free]

/-- A file that is in one table only has few references. -/
theorem FdState.Ok.few {s : FdState κ ω} (ok : s.Ok) {n : ℕ} (count : s.counts file = some n) :
    n ≤ 64 := by
  obtain ⟨table, only⟩ := ok.oneTable file
  rw [ok.counted.exact file n count]
  have inside : holders s.place file ⊆
      ((Finset.univ : Finset (Fin maxOpenFiles)).image fun slot => (table, slot) :
        Finset FdPlace) := by
    rintro ⟨address, slot⟩ mem
    have same := only _ mem
    simp [← same]
  refine (Set.ncard_le_ncard inside (Finset.finite_toSet _)).trans ?_
  rw [Set.ncard_coe_finset]
  exact Finset.card_image_le.trans (by simp)

/-! ### The inodes -/

namespace VfsState

variable {s : VfsState κ ω}

theorem InodesOk.congr (ok : s.InodesOk) (files : s'.inodeOf = s.inodeOf)
    (inodes : s'.inodes = s.inodes) :
    s'.InodesOk := by
  intro inode
  rw [files, inodes]
  exact ok inode

theorem inodeOf_update {x : Option (OpenFile κ)} (files : s'.files = update s.files file x) :
    s'.inodeOf = update s.inodeOf file (x.bind OpenFile.inode) := by
  funext other
  by_cases same : other = file
  · subst same
    simp [inodeOf, files]
  · simp [inodeOf, files, same]

theorem counts_update {x : Option (OpenFile κ)} (files : s'.files = update s.files file x) :
    s'.counts = update s.counts file (x.map OpenFile.refCount) := by
  funext other
  by_cases same : other = file
  · subst same
    simp [counts, files]
  · simp [counts, files, same]

/-- A file is changed, but not its inode. -/
theorem InodesOk.edit (ok : s.InodesOk) {object' : OpenFile κ}
    (found : s.files file = some object) (files : s'.files = update s.files file (some object'))
    (same : object'.inode = object.inode) (inodes : s'.inodes = s.inodes) : s'.InodesOk := by
  refine ok.congr ?_ inodes
  have here : s.inodeOf file = object'.inode := by simp [inodeOf, found, same]
  rw [inodeOf_update files, bind_some, ← here, update_eq_self]

/-- A file goes, and a reference of its inode with it. -/
theorem InodesOk.drop (ok : s.InodesOk) (found : s.files file = some object) :
    ∃ s', putInode object s = some s' ∧ s'.files = s.files ∧ s'.openFiles = s.openFiles ∧
      { s' with files := update s.files file none }.InodesOk := by
  cases inode_eq : object.inode with
  | none =>
    refine ⟨s, by rw [putInode, inode_eq], rfl, rfl, ok.congr ?_ rfl⟩
    have here : s.inodeOf file = none := by simp [inodeOf, found, inode_eq]
    rw [inodeOf_update (s := s) rfl, bind_none, ← here, update_eq_self]
  | some inode =>
    have mem : file ∈ holders s.inodeOf inode := by
      simp [mem_holders, inodeOf, found, inode_eq]
    obtain ⟨finite, live⟩ := ok inode
    obtain ⟨target, target_eq, enough⟩ := live ⟨file, mem⟩
    let inodes := update s.inodes inode
      (if target.refCount - 1 = 0 then none
        else some { target with refCount := target.refCount - 1 })
    refine ⟨{ s with inodes := inodes }, ?_, rfl, rfl, ?_⟩
    · simp [putInode, inode_eq, inodePut, target_eq, inodes]
    intro other
    rw [inodeOf_update (s := s) rfl, bind_none]
    by_cases same : other = inode
    · subst same
      rw [holders_update_none]
      refine ⟨finite.sdiff, fun nonempty => ?_⟩
      have smaller :
          (holders s.inodeOf other \ {file}).ncard = (holders s.inodeOf other).ncard - 1 :=
        Set.ncard_sdiff_singleton_of_mem mem
      have some_left := (Set.ncard_pos finite.sdiff).mpr nonempty
      have references : target.refCount - 1 ≠ 0 := by omega
      refine ⟨{ target with refCount := target.refCount - 1 }, ?_, ?_⟩
      · simp [inodes, if_neg references]
      · show _ ≤ target.refCount - 1
        omega
    · have apart : s.inodeOf file ≠ some other := by
        rw [mem_holders.mp mem]
        simpa using Ne.symm same
      have kept : inodes other = s.inodes other := update_of_ne same ..
      rw [holders_update_of_ne apart (by simp)]
      simp only [kept]
      exact ok other

end VfsState

/-! ### One reference fewer, and one more -/

variable {s : VfsState κ ω}

/-- What `file_put` does to the file. -/
theorem filePut_spec (ops : κ → FileOperations κ ω)
    (ok : s.InodesOk) (found : s.files file = some object) :
    ∃ s', filePut ops file s = some s' ∧ s'.openFiles = s.openFiles ∧
      s'.counts = update s.counts file (Counted.dropped object.refCount) ∧ s'.InodesOk ∧
      (object.refCount = 1 → s'.files = update s.files file none) := by
  by_cases last : object.refCount - 1 = 0
  · have released : (releaseFile ops object s).files = s.files ∧
        (releaseFile ops object s).openFiles = s.openFiles ∧
        (releaseFile ops object s).inodes = s.inodes := by
      unfold releaseFile
      split <;> exact ⟨rfl, rfl, rfl⟩
    have ok' : (releaseFile ops object s).InodesOk := ok.congr
      (by funext f; simp [VfsState.inodeOf, released.1]) released.2.2
    obtain ⟨s', put, files, slots, inodes⟩ := ok'.drop (released.1.symm ▸ found)
    rw [released.1] at files inodes
    refine ⟨{ s' with files := update s'.files file none }, ?_, ?_, ?_, ?_, ?_⟩
    · rw [filePut, found, bind_some, if_pos last, put, map_some]
    · exact slots.trans released.2.1
    · rw [VfsState.counts_update (s := s) (x := none) (by rw [← files]), Counted.dropped,
        if_pos last]
      rfl
    · rw [files]
      exact inodes
    · intro _
      exact congrArg (fun f => update f file none) files
  · let s' : VfsState κ ω :=
      { s with
        files := update s.files file (some { object with refCount := object.refCount - 1 }) }
    have files : s'.files = update s.files file
        (some { object with refCount := object.refCount - 1 }) := rfl
    refine ⟨s', by rw [filePut, found, bind_some, if_neg last], rfl, ?_, ?_, ?_⟩
    · rw [VfsState.counts_update files, Counted.dropped, if_neg last]
      rfl
    · exact ok.edit found files rfl rfl
    · omega

/-- What `file_get` does to the file. -/
theorem fileGet_spec (ok : s.InodesOk)
    (found : s.files file = some object) (small : object.refCount + 1 < 2 ^ 32) :
    ∃ s', fileGet file s = some s' ∧ s'.openFiles = s.openFiles ∧
      s'.files = update s.files file (some { object with refCount := object.refCount + 1 }) ∧
      s'.inodes = s.inodes ∧ s'.world = s.world ∧ s'.initialized = s.initialized ∧ s'.InodesOk := by
  let s' : VfsState κ ω :=
    { s with
      files := update s.files file (some { object with refCount := object.refCount + 1 }) }
  have files : s'.files = update s.files file
      (some { object with refCount := object.refCount + 1 }) := rfl
  refine ⟨s', ?_, rfl, files, rfl, rfl, rfl, ok.edit found files rfl rfl⟩
  rw [fileGet, found, map_some, u32_of_lt small]

/-- `file_put` takes back a `file_get`. -/
theorem filePut_fileGet (ops : κ → FileOperations κ ω) {vfs : VfsState κ ω}
    (found : s.files file = some object) (pos : 0 < object.refCount)
    (small : object.refCount + 1 < 2 ^ 32) (got : fileGet file s = some vfs) :
    filePut ops file vfs = some s := by
  rw [fileGet, found, map_some, u32_of_lt small] at got
  cases got
  have more : ¬object.refCount + 1 - 1 = 0 := by omega
  have restored : some { object with refCount := object.refCount + 1 - 1 } = s.files file := by
    rw [found, Nat.add_sub_cancel]
  simp only [filePut, update_self, bind_some, if_neg more, update_idem, restored, update_eq_self]

namespace FdState

variable {s : FdState κ ω}

/-- Setting a slot of a table is setting a place. -/
theorem place_withTable (found : s.tables address = some table) (slot : Fin maxOpenFiles)
    (x : Option ℕ) (count : ℕ) (vfs : VfsState κ ω) (slots : vfs.openFiles = s.openFiles) :
    ({ s with toVfsState := vfs }.withTable address ⟨update table.files slot x, count⟩).place =
      update s.place (some address, slot) x := by
  funext ⟨owner, i⟩
  cases owner with
  | none => simp [place, withTable, slots]
  | some other =>
    by_cases same : other = address
    · subst same
      by_cases here : i = slot
      · subst here
        simp [place, withTable]
      · simp [place, withTable, here, found]
    · simp [place, withTable, same]

theorem place_eq (found : s.tables address = some table) :
    s.place (some address, slot) = table.files slot := by
  simp [place, found]

/-- The file of a place, with its counter. -/
theorem Ok.object_eq (ok : s.Ok) {p : FdPlace} (held : s.place p = some file) :
    ∃ object, s.files file = some object ∧ 0 < object.refCount := by
  obtain ⟨n, count, pos⟩ := ok.counted.pos held
  obtain ⟨object, found, rfl⟩ := map_eq_some_iff.mp count
  exact ⟨object, found, pos⟩

/-- The file of a slot, with its counter. -/
theorem Ok.held (ok : s.Ok) (found : s.tables address = some table)
    (held : table.files slot = some file) :
    ∃ object, s.place (some address, slot) = some file ∧ s.files file = some object ∧
      s.counts file = some object.refCount ∧ 0 < object.refCount ∧ object.refCount ≤ 64 := by
  have here : s.place (some address, slot) = some file := (place_eq found).trans held
  obtain ⟨object, object_eq, pos⟩ := ok.object_eq here
  have number : s.counts file = some object.refCount := by simp [VfsState.counts, object_eq]
  exact ⟨object, here, object_eq, number, pos, ok.few number⟩

/-- A place may be set to a file of its own table. -/
theorem oneTable_update {f : FdPlace → Option ℕ} {place : FdPlace} {x : Option ℕ}
    (one : ∀ file, ∃ table, ∀ p, f p = some file → p.1 = table)
    (joins : ∀ file, x = some file → ∀ p, f p = some file → p.1 = place.1) (file : ℕ) :
    ∃ table, ∀ p, update f place x p = some file → p.1 = table := by
  by_cases new : x = some file
  · refine ⟨place.1, fun p refers => ?_⟩
    by_cases same : p = place
    · rw [same]
    · exact joins file new p (by rwa [update_of_ne same] at refers)
  · obtain ⟨table, only⟩ := one file
    refine ⟨table, fun p refers => only p ?_⟩
    by_cases same : p = place
    · rw [same, update_self] at refers
      exact absurd refers new
    · rwa [update_of_ne same] at refers

/-- A place is emptied, and the file put. -/
theorem Ok.drop (ops : κ → FileOperations κ ω) (ok : s.Ok) (found : s.tables address = some table)
    (held : table.files slot = some file) (count : ℕ) :
    ∃ vfs, filePut ops file s.toVfsState = some vfs ∧
      ({ s with toVfsState := vfs }.withTable address
        ⟨update table.files slot none, count⟩).Ok := by
  obtain ⟨object, here, object_eq, number, _⟩ := ok.held found held
  obtain ⟨vfs, put, slots, counts, inodes, _⟩ := filePut_spec ops ok.inodesOk object_eq
  have places := place_withTable found slot none count vfs slots
  refine ⟨vfs, put, ⟨?_, ?_, inodes⟩⟩
  · rw [places]
    have released := ok.counted.release here number
    rwa [← counts] at released
  · rw [places]
    exact oneTable_update ok.oneTable nofun

/-- A free place of a table that has the file already is set, and the file got. -/
theorem Ok.take (ok : s.Ok) (found : s.tables address = some table)
    (held : table.files old = some file) (vacant : table.files slot = none) (count : ℕ) :
    ∃ vfs, fileGet file s.toVfsState = some vfs ∧
      ({ s with toVfsState := vfs }.withTable address
        ⟨update table.files slot (some file), count⟩).Ok := by
  obtain ⟨object, here, object_eq, number, _, few⟩ := ok.held found held
  obtain ⟨vfs, got, slots, files, _, _, _, inodes⟩ :=
    fileGet_spec ok.inodesOk object_eq (by omega)
  have places := place_withTable found slot (some file) count vfs slots
  have free : s.place (some address, slot) = none := (place_eq found).trans vacant
  refine ⟨vfs, got, ⟨?_, ?_, inodes⟩⟩
  · rw [places]
    have acquired := ok.counted.acquire free number
    have counts := VfsState.counts_update (s := s.toVfsState) files
    rw [map_some] at counts
    rwa [← counts] at acquired
  · rw [places]
    refine oneTable_update ok.oneTable ?_
    rintro _ ⟨⟩ p refers
    obtain ⟨owner, only⟩ := ok.oneTable file
    exact (only p refers).trans (only _ here).symm

/-- A free place of a table is set to a new file. -/
theorem Ok.new (ok : s.Ok) (found : s.tables address = some table)
    (vacant : table.files slot = none) (fresh : s.files file = none) (count : ℕ)
    {vfs : VfsState κ ω} (slots : vfs.openFiles = s.openFiles)
    (files : vfs.files = update s.files file (some object)) (one : object.refCount = 1)
    (inodes : vfs.InodesOk) :
    ({ s with toVfsState := vfs }.withTable address
      ⟨update table.files slot (some file), count⟩).Ok := by
  have places := place_withTable found slot (some file) count vfs slots
  have free : s.place (some address, slot) = none := (place_eq found).trans vacant
  have uncounted : s.counts file = none := by simp [VfsState.counts, fresh]
  refine ⟨?_, ?_, inodes⟩
  · rw [places]
    have created := ok.counted.create free uncounted
    have counts := VfsState.counts_update (s := s.toVfsState) files
    rw [map_some, one] at counts
    rwa [← counts] at created
  · rw [places]
    refine oneTable_update ok.oneTable ?_
    -- the new file is in no other place
    rintro _ ⟨⟩ p refers
    have mem : p ∈ holders s.place file := refers
    rw [ok.counted.live file uncounted] at mem
    exact absurd mem (Set.notMem_empty p)

/-- What is not a place, a counter or an inode does not matter. -/
theorem Ok.congr {s' : FdState κ ω} (ok : s.Ok) (places : s'.place = s.place)
    (files : s'.files = s.files) (inodes : s'.InodesOk) : s'.Ok := by
  have counts : s'.counts = s.counts := by
    funext f
    simp [VfsState.counts, files]
  refine ⟨?_, ?_, inodes⟩
  · rw [places, counts]
    exact ok.counted
  · rw [places]
    exact ok.oneTable

end FdState

/-! ## Opening a file -/

/-- One more reference to an inode. -/
theorem inodeGet_spec {object : VfsInode κ} (ok : s.InodesOk)
    (found : s.inodes inode = some object) (small : object.refCount + 1 < 2 ^ 32) :
    ∃ s', inodeGet inode s = some s' ∧ s'.openFiles = s.openFiles ∧ s'.files = s.files ∧
      s'.initialized = s.initialized ∧
      s'.inodes = update s.inodes inode
        (some { object with refCount := object.refCount + 1 }) ∧ s'.InodesOk := by
  let s' : VfsState κ ω :=
    { s with
      inodes := update s.inodes inode (some { object with refCount := object.refCount + 1 }) }
  refine ⟨s', by rw [inodeGet, found, map_some, u32_of_lt small], rfl, rfl, rfl, rfl, ?_⟩
  intro other
  refine ⟨(ok other).1, fun nonempty => ?_⟩
  obtain ⟨target, target_eq, enough⟩ := (ok other).2 nonempty
  by_cases same : other = inode
  · subst same
    obtain rfl : object = target := Option.mem_unique found target_eq
    exact ⟨{ object with refCount := object.refCount + 1 }, update_self ..,
      enough.trans (Nat.le_succ _)⟩
  · exact ⟨target, (update_of_ne same ..).trans target_eq, enough⟩

/-- A new file of an inode that has a reference to spare. -/
theorem VfsState.InodesOk.add (ok : s.InodesOk) {target : VfsInode κ} (fresh : s.files file = none)
    (files : s'.files = update s.files file (some object)) (inodes : s'.inodes = s.inodes)
    (inode_eq : object.inode = some inode) (found : s.inodes inode = some target)
    (spare : (holders s.inodeOf inode).ncard + 1 ≤ target.refCount) : s'.InodesOk := by
  have vacant : s.inodeOf file = none := by simp [VfsState.inodeOf, fresh]
  intro other
  rw [VfsState.inodeOf_update files, bind_some, inode_eq, inodes]
  by_cases same : other = inode
  · subst same
    rw [holders_update_self vacant]
    refine ⟨(ok other).1.insert file, fun _ => ⟨target, found, ?_⟩⟩
    exact (Set.ncard_insert_le file _).trans spare
  · rw [holders_update_of_ne (by simp [vacant]) (by simpa using Ne.symm same)]
    exact ok other

/-- `open` operations return. -/
def OpensReturn (ops : κ → FileOperations κ ω) : Prop :=
  ∀ k operation, (ops k).openFile = some operation → ∀ object world,
    ∃ r, operation object world = some r

/-- The `open` operation of a file only moves its position. -/
theorem openOperation_spec (returns : OpensReturn ops) (object : OpenFile κ) (s : VfsState κ ω) :
    ∃ r world, openOperation ops object s = some (r, { s with world := world }) ∧
      ∀ object', r = .ok object' → ∃ pos, object' = { object with pos := pos } := by
  unfold openOperation
  cases chosen : object.fOp.bind fun op => (ops op).openFile with
  | none => exact ⟨.ok object, s.world, rfl, fun object' same => ⟨object.pos, by cases same; rfl⟩⟩
  | some operation =>
    obtain ⟨k, _, operation_eq⟩ := bind_eq_some_iff.mp chosen
    obtain ⟨⟨result, pos, world⟩, returned⟩ := returns k operation operation_eq object s.world
    simp only [returned, map_some]
    cases result with
    | error e => exact ⟨.error e, world, rfl, fun _ same => by cases same⟩
    | ok _ =>
      exact ⟨.ok { object with pos := pos }, world, rfl,
        fun object' same => ⟨pos, by cases same; rfl⟩⟩

theorem releaseFile_spec (ops : κ → FileOperations κ ω) (object : OpenFile κ) (s : VfsState κ ω) :
    ∃ world, releaseFile ops object s = { s with world := world } := by
  unfold releaseFile
  split
  · exact ⟨s.world, rfl⟩
  · exact ⟨_, rfl⟩

variable {allocated : Option ℕ} {dentry : Option (Option ℕ)}

/-- A descriptor of the kernel that is opened, shared and closed again leaves the file with
one reference. -/
theorem openSlot_shared {s₀ : VfsState κ ω} {flags : BitVec 32}
    (opened : vfsOpen ops allocated dentry flags s₀ = some (openSlot ops file object s))
    (free : freeSlot s.openFiles = some fd) (one : object.refCount = 1) :
    vfsOpenFile ops allocated dentry flags s₀ =
      some (some file, { s with files := update s.files file (some object) }) := by
  have vacant := freeSlot_vacant free
  have two : u32 (1 + 1) = 2 := rfl
  have restored : { object with refCount := 1 } = object := by rw [← one]
  have back : update s.openFiles fd none = s.openFiles := by
    rw [← vacant, update_eq_self]
  rw [vfsOpenFile, opened]
  simp only [openSlot, free, fileGet, update_self, map_some, one, two,
    bind_some, update_idem, vfsClose, filePut]
  rw [if_neg (by decide), map_some, map_some, back, Nat.add_sub_cancel 1 1, restored]

theorem vfsOpenFile_spec (returns : OpensReturn ops) (ok : s.InodesOk)
    (flags : BitVec 32) (fresh : ∀ file ∈ allocated, s.files file = none)
    (live : ∀ inode, dentry.join = some inode →
      ∃ object, s.inodes inode = some object ∧ object.refCount + 1 < 2 ^ 32) :
    ∃ r s', vfsOpenFile ops allocated dentry flags s = some (r, s') ∧
      s'.openFiles = s.openFiles ∧ s'.InodesOk ∧
      (r = none ∧ s'.files = s.files ∨
        ∃ file object, r = some file ∧ allocated = some file ∧ object.refCount = 1 ∧
          s'.files = update s.files file (some object)) := by
  have refused : ∀ e s', vfsOpen ops allocated dentry flags s = some (.error e, s') →
      vfsOpenFile ops allocated dentry flags s = some (none, s') := by
    intro e s' opened
    rw [vfsOpenFile, opened, bind_some]
  by_cases ready : s.initialized
  swap
  · exact ⟨none, s, refused einval s (by simp [vfsOpen, ready]), rfl, ok, Or.inl ⟨rfl, rfl⟩⟩
  cases joined : dentry.join with
  | none => exact ⟨none, s, refused enoent s (by simp [vfsOpen, ready, joined]), rfl, ok,
      Or.inl ⟨rfl, rfl⟩⟩
  | some inode =>
    cases allocated with
    | none => exact ⟨none, s, refused enomem s (by simp [vfsOpen, ready, joined]), rfl, ok,
        Or.inl ⟨rfl, rfl⟩⟩
    | some file =>
      obtain ⟨object, object_eq, small⟩ := live inode joined
      obtain ⟨s₁, got, slots₁, files₁, _, inodes₁, ok₁⟩ := inodeGet_spec ok object_eq small
      obtain ⟨r, world, operated, kept⟩ :=
        openOperation_spec returns (newFile inode object flags) s₁
      cases r with
      | error e =>
        refine ⟨none, { s₁ with world := world }, refused e _ ?_, slots₁, ok₁.congr rfl rfl,
          Or.inl ⟨rfl, files₁⟩⟩
        simp [vfsOpen, ready, joined, object_eq, got, operated]
      | ok new =>
        obtain ⟨pos, rfl⟩ := kept new rfl
        have opened : vfsOpen ops (some file) dentry flags s =
            some (openSlot ops file { newFile inode object flags with pos := pos }
              { s₁ with world := world }) := by
          simp [vfsOpen, ready, joined, object_eq, got, operated]
        cases free : freeSlot s₁.openFiles with
        | none =>
          obtain ⟨world', released⟩ := releaseFile_spec ops
            { newFile inode object flags with pos := pos } { s₁ with world := world }
          refine ⟨none, { s₁ with world := world' }, refused enomem _ ?_, slots₁,
            ok₁.congr rfl rfl, Or.inl ⟨rfl, files₁⟩⟩
          rw [opened, openSlot, free, released]
        | some fd =>
          refine ⟨some file, _, openSlot_shared opened free rfl, slots₁, ?_,
            Or.inr ⟨file, { newFile inode object flags with pos := pos }, rfl, rfl, rfl, ?_⟩⟩
          · have references : (holders s₁.inodeOf inode).ncard ≤ object.refCount := by
              have same : s₁.inodeOf = s.inodeOf := by
                funext f
                simp [VfsState.inodeOf, files₁]
              rw [same]
              rcases (holders s.inodeOf inode).eq_empty_or_nonempty with empty | nonempty
              · simp [empty]
              · obtain ⟨target, target_eq, enough⟩ := (ok inode).2 nonempty
                obtain rfl := Option.mem_unique object_eq target_eq
                exact enough
            have absent : s₁.files file = none := by
              rw [files₁]
              exact fresh file rfl
            have found : s₁.inodes inode =
                some { object with refCount := object.refCount + 1 } := by
              rw [inodes₁, update_self]
            exact ok₁.add absent rfl rfl rfl found (Nat.succ_le_succ references)
          · show update s₁.files file _ = _
            rw [files₁]

/-! ## Runs of calls -/

/-- A call, with the address of the descriptor table of the process that makes it. -/
inductive FdCall where
  | openPath (table : ℕ) (allocated : Option ℕ) (dentry : Option (Option ℕ)) (flags : BitVec 32)
  | close (table : ℕ) (fd : ℤ)
  | dup (table : ℕ) (oldfd : ℤ)
  | dup2 (table : ℕ) (oldfd newfd : ℤ)
  | dupfd (table : ℕ) (fd : ℤ) (arg : ℕ)
  | copy (source address : ℕ)
  | destroy (table : ℕ)

/-- A call; what it returns does not matter here. -/
def fdStep (ops : κ → FileOperations κ ω) (s : FdState κ ω) : FdCall → Option (FdState κ ω)
  | .openPath table allocated dentry flags =>
    (sysOpen ops table allocated dentry flags s).map Prod.snd
  | .close table fd => (sysClose ops table fd s).map Prod.snd
  | .dup table oldfd => (sysDup ops table oldfd s).map Prod.snd
  | .dup2 table oldfd newfd => (sysDup2 ops table oldfd newfd s).map Prod.snd
  | .dupfd table fd arg => (sysFcntlDupfd table fd arg s).map Prod.snd
  | .copy source address => fdTableCopy source address s
  | .destroy table => fdTableDestroy ops table s

/-- The tables are there, `kmalloc` gives memory that is not in use, and a path leads to an
inode that is live and has room for one more reference. -/
def fdLegal (s : FdState κ ω) : FdCall → Prop
  | .openPath table allocated dentry _ =>
    (s.tables table).isSome ∧ (∀ file ∈ allocated, s.files file = none) ∧
      ∀ inode, dentry.join = some inode →
        ∃ object, s.inodes inode = some object ∧ object.refCount + 1 < 2 ^ 32
  | .close table _ | .dup table _ | .dup2 table _ _ | .dupfd table _ _ | .destroy table =>
    (s.tables table).isSome
  | .copy source address => (s.tables source).isSome ∧ s.tables address = none

/-- Only a table without open files is copied. -/
def fdGood (s : FdState κ ω) : FdCall → Prop
  | .copy source _ => ∀ table, s.tables source = some table → ∀ slot, table.files slot = none
  | _ => True

/-- Every file has as many references as there are slots that refer to it, and no slot
refers to a file that has been freed. -/
def RefsCounted (s : FdState κ ω) : Prop :=
  (∀ file object, s.files file = some object →
    object.refCount = {place | s.place place = some file}.ncard) ∧
  ∀ place file, s.place place = some file → (s.files file).isSome

theorem FdState.Ok.refsCounted {s : FdState κ ω} (ok : s.Ok) : RefsCounted s := by
  constructor
  · intro file object found
    exact ok.counted.exact file object.refCount (by simp [VfsState.counts, found])
  · intro place file held
    obtain ⟨object, found, _⟩ := ok.object_eq held
    simp [found]

namespace FdState

variable {s : FdState κ ω}

/-- The file of a descriptor is in the table. -/
theorem fileAt_eq {fd : ℤ} (found : s.tables address = some table)
    (held : s.fileAt address fd = some file) :
    ∃ slot, fdSlot fd = some slot ∧ table.files slot = some file := by
  obtain ⟨slot, slot_eq, rest⟩ := bind_eq_some_iff.mp held
  rw [found, bind_some] at rest
  exact ⟨slot, slot_eq, rest⟩

theorem Ok.free (ops : κ → FileOperations κ ω) (ok : s.Ok) (found : s.tables address = some table)
    (slot : Fin maxOpenFiles) :
    ∃ r s' table', fdTableFree ops address slot s = some (r, s') ∧ s'.Ok ∧
      s'.tables address = some table' ∧ table'.files = update table.files slot none := by
  rw [fdTableFree, found, bind_some]
  cases held : table.files slot with
  | none =>
    refine ⟨false, s, table, rfl, ok, found, ?_⟩
    rw [← held, update_eq_self]
  | some file =>
    obtain ⟨vfs, put, ok'⟩ := Ok.drop ops ok found held (sub32 table.count 1)
    simp only [put, map_some]
    exact ⟨true, _, _, rfl, ok', update_self .., rfl⟩

theorem Ok.install (ok : s.Ok) (found : s.tables address = some table)
    (held : table.files old = some file) (vacant : table.files slot = none) :
    ∃ s', installFile address file slot s = some s' ∧ s'.Ok := by
  obtain ⟨vfs, got, ok'⟩ := ok.take found held vacant table.count
  exact ⟨_, by rw [installFile, got, found]; rfl, ok'⟩

/-- The loop of `fd_table_destroy` closes the slots that it comes to. -/
theorem Ok.destroySlots (ops : κ → FileOperations κ ω) :
    ∀ (slots : List (Fin maxOpenFiles)) {s : FdState κ ω} {table : FdTable}, s.Ok →
      s.tables address = some table → ∃ s' table', destroySlots ops address slots s = some s' ∧
        s'.Ok ∧ s'.tables address = some table' ∧
        ∀ slot, slot ∈ slots ∨ table.files slot = none → table'.files slot = none := by
  intro slots
  induction slots with
  | nil =>
    intro s table ok found
    exact ⟨s, table, rfl, ok, found, fun slot closed => by simpa using closed⟩
  | cons fd rest ih =>
    intro s table ok found
    rw [EduOS.destroySlots, found, bind_some]
    cases held : table.files fd with
    | none =>
      obtain ⟨s', table', ran, ok', found', closed⟩ := ih ok found
      refine ⟨s', table', ran, ok', found', fun slot which => closed slot ?_⟩
      rcases which with mem | already
      · rcases List.mem_cons.mp mem with rfl | mem
        · exact Or.inr held
        · exact Or.inl mem
      · exact Or.inr already
    | some file =>
      obtain ⟨vfs, put, ok₁⟩ := Ok.drop ops ok found held table.count
      obtain ⟨s', table', ran, ok', found', closed⟩ := ih ok₁ (update_self ..)
      simp only [put, bind_some]
      refine ⟨s', table', ran, ok', found', fun slot which => closed slot ?_⟩
      by_cases here : slot = fd
      · exact Or.inr (by rw [here]; exact update_self ..)
      · rcases which with mem | already
        · exact Or.inl ((List.mem_cons.mp mem).resolve_left here)
        · exact Or.inr ((update_of_ne here ..).trans already)

/-- A table without open files comes or goes. -/
theorem Ok.emptyTable (ok : s.Ok) {x : Option FdTable}
    (before : ∀ table, s.tables address = some table → ∀ slot, table.files slot = none)
    (after : ∀ table, x = some table → ∀ slot, table.files slot = none) :
    FdState.Ok { s with tables := update s.tables address x } := by
  refine ok.congr ?_ rfl ok.inodesOk
  funext ⟨owner, slot⟩
  cases owner with
  | none => rfl
  | some other =>
    by_cases same : other = address
    · subst same
      have empty : ∀ y : Option FdTable,
          (∀ table, y = some table → ∀ slot, table.files slot = none) →
          (y.bind fun table => table.files slot) = none := by
        intro y closed
        cases y with
        | none => rfl
        | some table => exact closed table rfl slot
      simp [place, empty x after, empty _ before]
    · simp [place, same]

end FdState

/-! ### One call -/

section

variable {s : FdState κ ω} (ok : s.Ok) (found : s.tables address = some table)
include ok found

theorem sysClose_ok (ops : κ → FileOperations κ ω) (fd : ℤ) :
    ∃ r, sysClose ops address fd s = some r ∧ r.2.Ok := by
  unfold sysClose
  split
  · exact ⟨_, rfl, ok⟩
  split
  · exact ⟨_, rfl, ok⟩
  · rename_i slot _
    obtain ⟨r, s', _, freed, ok', _⟩ := FdState.Ok.free ops ok found slot
    exact ⟨_, by rw [freed, map_some], ok'⟩

theorem sysDup_ok (ops : κ → FileOperations κ ω) (oldfd : ℤ) :
    ∃ r, sysDup ops address oldfd s = some r ∧ r.2.Ok := by
  unfold sysDup
  cases at_fd : s.fileAt address oldfd with
  | none => exact ⟨_, rfl, ok⟩
  | some file =>
    obtain ⟨old, _, held⟩ := FdState.fileAt_eq found at_fd
    cases free : freeSlot table.files with
    | some slot =>
      obtain ⟨vfs, got, ok'⟩ := ok.take found held (freeSlot_vacant free) (u32 (table.count + 1))
      have alloc := fdTableAlloc_of_free (s := { s with toVfsState := vfs }) found free file
      refine ⟨(.ok slot, _), ?_, ok'⟩
      simp only [got, bind_some, alloc]
      rfl
    | none =>
      obtain ⟨object, _, object_eq, _, pos, few⟩ := ok.held found held
      obtain ⟨vfs, got, _⟩ := fileGet_spec ok.inodesOk object_eq (by omega)
      have put := filePut_fileGet ops object_eq pos (by omega) got
      refine ⟨(.error emfile, s), ?_, ok⟩
      simp [got, fdTableAlloc, found, free, put]

omit ok found in
theorem fdSlot_val {fd : ℤ} (slot_eq : fdSlot fd = some slot) : fd = slot.val := by
  unfold fdSlot at slot_eq
  split at slot_eq
  · cases slot_eq
    dsimp only
    omega
  · cases slot_eq

theorem sysDup2_ok (ops : κ → FileOperations κ ω) (oldfd newfd : ℤ) :
    ∃ r, sysDup2 ops address oldfd newfd s = some r ∧ r.2.Ok := by
  unfold sysDup2
  split
  · exact ⟨_, rfl, ok⟩
  · exact ⟨_, rfl, ok⟩
  · rename_i file slot at_fd slot_eq
    split
    · exact ⟨_, rfl, ok⟩
    rename_i different
    obtain ⟨old, old_eq, held⟩ := FdState.fileAt_eq found at_fd
    have apart : old ≠ slot := by
      rintro rfl
      exact different ((fdSlot_val old_eq).trans (fdSlot_val slot_eq).symm)
    obtain ⟨r, s₁, table', freed, ok₁, found₁, files⟩ := FdState.Ok.free ops ok found slot
    have held₁ : table'.files old = some file := by
      rw [files, update_of_ne apart, held]
    have vacant : table'.files slot = none := by rw [files, update_self]
    obtain ⟨s', installed, ok'⟩ := ok₁.install found₁ held₁ vacant
    exact ⟨(.ok newfd, s'), by rw [freed, bind_some, installed, map_some], ok'⟩

theorem sysFcntlDupfd_ok (fd : ℤ) (arg : ℕ) :
    ∃ r, sysFcntlDupfd address fd arg s = some r ∧ r.2.Ok := by
  unfold sysFcntlDupfd
  cases at_fd : s.fileAt address fd with
  | none => exact ⟨_, rfl, ok⟩
  | some file =>
    obtain ⟨old, _, held⟩ := FdState.fileAt_eq found at_fd
    simp only [found, bind_some]
    split
    · exact ⟨_, rfl, ok⟩
    · rename_i slot free
      have vacant : table.files slot = none := by simpa using List.find?_some free
      obtain ⟨s', installed, ok'⟩ := ok.install found held vacant
      exact ⟨(.ok slot, s'), by rw [installed, map_some], ok'⟩

theorem sysOpen_ok (returns : OpensReturn ops) (flags : BitVec 32)
    (fresh : ∀ file ∈ allocated, s.files file = none) (live : ∀ inode, dentry.join = some inode →
      ∃ object, s.inodes inode = some object ∧ object.refCount + 1 < 2 ^ 32) :
    ∃ r, sysOpen ops address allocated dentry flags s = some r ∧ r.2.Ok := by
  obtain ⟨r, vfs, opened, slots, inodes, result⟩ :=
    vfsOpenFile_spec returns ok.inodesOk flags fresh live
  have places : ∀ vfs : VfsState κ ω, vfs.openFiles = s.openFiles →
      FdState.place { s with toVfsState := vfs } = s.place := by
    intro vfs slots
    funext ⟨owner, slot⟩
    cases owner with
    | none => simp [FdState.place, slots]
    | some other => rfl
  rcases result with ⟨rfl, files⟩ | ⟨file, object, rfl, rfl, one, files⟩
  · refine ⟨(.error enoent, { s with toVfsState := vfs }), ?_,
      ok.congr (places vfs slots) files inodes⟩
    rw [sysOpen, opened, bind_some]
  have absent := fresh file rfl
  cases free : freeSlot table.files with
  | some slot =>
    have alloc := fdTableAlloc_of_free (s := { s with toVfsState := vfs }) found free file
    refine ⟨(.ok slot, _), ?_, ok.new found (freeSlot_vacant free) absent (u32 (table.count + 1))
      slots files one inodes⟩
    simp only [sysOpen, opened, bind_some, alloc]
    rfl
  | none =>
    have object_eq : vfs.files file = some object := by rw [files, update_self]
    obtain ⟨vfs', put, slots', _, inodes', gone⟩ := filePut_spec ops inodes object_eq
    refine ⟨(.error enomem, { s with toVfsState := vfs' }), ?_, ?_⟩
    · simp [sysOpen, opened, fdTableAlloc, found, free, put]
    · refine ok.congr (places vfs' (slots'.trans slots)) ?_ inodes'
      show vfs'.files = s.files
      rw [gone one, files, update_idem, ← absent, update_eq_self]

theorem fdTableDestroy_ok (ops : κ → FileOperations κ ω) :
    ∃ s', fdTableDestroy ops address s = some s' ∧ s'.Ok := by
  obtain ⟨s', table', ran, ok', found', closed⟩ :=
    FdState.Ok.destroySlots ops (List.finRange maxOpenFiles) ok found
  refine ⟨_, by rw [fdTableDestroy, ran, map_some], ok'.emptyTable ?_ (by simp)⟩
  intro t t_eq slot
  obtain rfl := Option.mem_unique found' t_eq
  exact closed slot (Or.inl (List.mem_finRange slot))

end

section

variable {s : FdState κ ω}

theorem fdTableCopy_ok (ok : s.Ok) {source : ℕ} (found : s.tables source = some table)
    (fresh : s.tables address = none) (empty : ∀ slot, table.files slot = none) :
    ∃ s', fdTableCopy source address s = some s' ∧ s'.Ok := by
  refine ⟨{ s with tables := update s.tables address (some table) }, ?_,
    ok.emptyTable (by simp [fresh]) ?_⟩
  · simp [fdTableCopy, found, fdTableCreate, FdState.withTable]
  · intro t t_eq slot
    cases t_eq
    exact empty slot

/-- The copy of a table with an open file has a reference that is not counted. -/
theorem fdTableCopy_uncounted (ok : s.Ok) {source : ℕ} (found : s.tables source = some table)
    (fresh : s.tables address = none) (held : table.files slot = some file) {s' : FdState κ ω}
    (copied : fdTableCopy source address s = some s') : ¬RefsCounted s' := by
  obtain rfl : { s with tables := update s.tables address (some table) } = s' := by
    simpa [fdTableCopy, found, fdTableCreate, FdState.withTable] using copied
  obtain ⟨object, _, object_eq, _⟩ := ok.held found held
  have before := ok.refsCounted.1 file object object_eq
  intro counted
  have after := counted.1 file object object_eq
  -- the places after the copy are those before it and some of the new table
  have places : {p | FdState.place { s with tables := update s.tables address (some table) } p =
      some file} = {p | s.place p = some file} ∪
        {p | p.1 = some address ∧ table.files p.2 = some file} := by
    ext ⟨owner, i⟩
    cases owner with
    | none => simp [FdState.place]
    | some other =>
      by_cases same : other = address
      · subst same
        simp [FdState.place, fresh]
      · simp [FdState.place, same]
  have new_finite : {p : FdPlace | p.1 = some address ∧ table.files p.2 = some file}.Finite := by
    refine (Set.finite_range fun i : Fin maxOpenFiles => ((some address, i) : FdPlace)).subset ?_
    rintro ⟨owner, i⟩ ⟨rfl, _⟩
    exact ⟨i, rfl⟩
  have apart : Disjoint {p | s.place p = some file}
      {p : FdPlace | p.1 = some address ∧ table.files p.2 = some file} := by
    rw [Set.disjoint_left]
    rintro ⟨owner, i⟩ old ⟨rfl, _⟩
    simp [FdState.place, fresh] at old
  have some_new : 0 < {p : FdPlace | p.1 = some address ∧ table.files p.2 = some file}.ncard :=
    (Set.ncard_pos new_finite).mpr ⟨(some address, slot), rfl, held⟩
  rw [places, Set.ncard_union_eq apart (ok.counted.finite file) new_finite] at after
  omega

end

theorem ok_of_call {α : Type*} {call : Option (α × FdState κ ω)}
    (returned : ∃ r, call = some r ∧ r.2.Ok) : ∃ s', call.map Prod.snd = some s' ∧ s'.Ok := by
  obtain ⟨r, rfl, ok⟩ := returned
  exact ⟨r.2, rfl, ok⟩

/-- Two empty tables, at 1 and 2, and an inode at 5 whose files have no operations. -/
def twoTables : FdState Empty Unit where
  initialized := true
  openFiles := fun _ => none
  files := fun _ => none
  inodes := fun inode => if inode = 5 then some ⟨0, 0, none, none⟩ else none
  world := ()
  tables := fun address => if address = 1 ∨ address = 2 then some ⟨fun _ => none, 0⟩ else none

/-- No driver. -/
def noDrivers : Empty → FileOperations Empty Unit := fun k => k.elim

theorem twoTables_ok : twoTables.Ok := by
  have vacant : ∀ p, twoTables.place p = none := by
    rintro ⟨owner, slot⟩
    cases owner with
    | none => rfl
    | some address =>
      by_cases there : address = 1 ∨ address = 2 <;> simp [FdState.place, twoTables, there]
  have unheld : ∀ file, holders twoTables.place file = ∅ := by
    intro file
    simp [holders, vacant]
  have no_files : ∀ inode, holders twoTables.inodeOf inode = ∅ := by
    intro inode
    simp [holders, VfsState.inodeOf, twoTables]
  refine ⟨⟨?_, ?_, ?_⟩, ?_, ?_⟩
  · intro file
    rw [unheld]
    exact Set.finite_empty
  · intro file n counted
    simp [VfsState.counts, twoTables] at counted
  · exact fun file _ => unheld file
  · exact fun file => ⟨none, fun p held => by simp [vacant] at held⟩
  · intro inode
    rw [no_files]
    exact ⟨Set.finite_empty, fun nonempty => absurd nonempty Set.not_nonempty_empty⟩

end EduOS
