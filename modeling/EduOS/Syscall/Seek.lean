import EduOS.Fs.Fat32File
import EduOS.Syscall.Io

/-!
# Seeking in a FAT32 file

A FAT32 file is read and written from the position of its file object on
(`fat32FileOps`).  `sys_read` and `sys_write` take the object from the descriptor table of
the process, `sys_lseek` takes the one from the table of the kernel.

So a seek moves the file that the process has open only if the kernel has the same object at
the same number; otherwise it moves another file.  `seek_works_iff` is the exact condition.
-/

namespace EduOS

open Function Option

variable {κ θ : Type}

/-- What the FAT32 driver works on: the mounted volume, its device, and the copies of
directory entries that open files have. -/
structure FatWorld where
  fs : Option FatInfo
  dev : BlockDevice
  entries : ℕ → Option DirEntry

/-- An `int` that is an error number if it is negative. -/
def asReturned {α : Type} (ret : ℤ) (value : α) : Except ℕ α :=
  if ret < 0 then .error (-ret).toNat else .ok value

/-- The copy of the directory entry of a file. -/
def FatWorld.entryOf (world : FatWorld) (object : OpenFile κ) : Option DirEntry :=
  object.privateData.bind world.entries

/-- Change the copy of a file. -/
def FatWorld.setEntryOf (world : FatWorld) (object : OpenFile κ) (entry : Option DirEntry) :
    ℕ → Option DirEntry :=
  match object.privateData with
  | none => world.entries
  | some address => update world.entries address entry

/-- `fat32_file_ops`, next to whatever the other drivers keep; `memory` is what `kmalloc`
returns for a cluster. -/
def fat32FileOps (memory : Option Bytes) : FileOperations κ (FatWorld × θ) where
  openFile := some fun _ world => some (.ok (), 0, world)
  release := some fun object world =>
    ({ world.1 with entries := world.1.setEntryOf object none }, world.2)
  read := some fun object count world =>
    (fat32FileRead world.1.fs world.1.dev memory (world.1.entryOf object) object.pos count).map
      fun r => (asReturned r.ret r.bytes, r.pos, world)
  write := some fun object bytes world =>
    (fat32FileWrite world.1.fs world.1.dev memory (world.1.entryOf object) object.pos bytes).map
      fun r =>
        (asReturned r.ret r.ret.toNat, r.pos,
          { world.1 with dev := r.dev, entries := world.1.setEntryOf object r.entry }, world.2)

/-! ## Where a transfer starts -/

section

variable {ops : κ → FileOperations κ (FatWorld × θ)} {memory : Option Bytes} {fat32 : κ}
variable {s : FdState κ (FatWorld × θ)} {table file : ℕ} {fd : ℤ} {object : OpenFile κ}

theorem fileAt_nonneg (held : s.fileAt table fd = some file) : ¬fd < 0 := by
  intro negative
  rw [FdState.fileAt, fdSlot, dif_neg (by omega)] at held
  cases held

section

variable (driver : ops fat32 = fat32FileOps memory) (held : s.fileAt table fd = some file)
    (object_eq : s.files file = some object) (is_fat32 : object.fOp = some fat32)
include driver held object_eq is_fat32

/-- `sys_read` of a FAT32 file reads from the position of the object on. -/
theorem sysRead_fat32 (readable : hasAccess object.flags oRdonly = true)
    {count : ℕ} (some_bytes : 0 < count) :
    (sysRead ops (some table) fd count s).map Prod.fst =
      (fat32FileRead s.world.1.fs s.world.1.dev memory (s.world.1.entryOf object) object.pos
        count).map fun r => asReturned r.ret r.bytes := by
  have sensible : ¬(fd < 0 ∨ count = 0) := by
    have := fileAt_nonneg held
    omega
  simp only [sysRead, if_neg sensible, bind_some, held, FdState.lift, vfsFileReadBytes,
    object_eq, readable, is_fat32, driver, fat32FileOps, map_map, Bool.not_true,
    Bool.false_eq_true, if_false]
  rfl

/-- `sys_write` of a FAT32 file writes from the position of the object on. -/
theorem sysWrite_fat32 (writable : hasAccess object.flags oWronly = true)
    {bytes : List (BitVec 8)} (some_bytes : bytes ≠ []) :
    (sysWrite ops (some table) fd bytes s).map (fun r => (r.1, r.2.world.1.dev)) =
      (fat32FileWrite s.world.1.fs s.world.1.dev memory (s.world.1.entryOf object) object.pos
        bytes).map fun r => (asReturned r.ret r.ret.toNat, r.dev) := by
  have sensible : ¬(fd < 0 ∨ bytes = []) := by
    rintro (negative | empty)
    · exact fileAt_nonneg held negative
    · exact some_bytes empty
  simp only [sysWrite, if_neg sensible, held, FdState.lift, vfsFileWriteBytes, object_eq,
    bind_some, writable, is_fat32, driver, fat32FileOps, map_map, Bool.not_true,
    Bool.false_eq_true, if_false]
  rfl

end

end

/-! ## Seeking -/

/-- Where `whence` and `offset` lead to in a file. -/
def SeekTarget {ω : Type} (s : VfsState κ ω) (object : OpenFile κ) (offset : BitVec 32) (whence : ℤ)
    (new : BitVec 32) : Prop :=
  whence = 0 ∧ new = offset ∨
    whence = 1 ∧ new = BitVec.ofNat 32 object.pos + offset ∨
    whence = 2 ∧ ∃ inode node, object.inode = some inode ∧ s.inodes inode = some node ∧
      new = BitVec.ofNat 32 node.size + offset

theorem seekPosition_ok_iff {ω : Type} {s : VfsState κ ω} {object : OpenFile κ}
    {offset new : BitVec 32} {whence : ℤ} :
    seekPosition object offset whence s = some (.ok new) ↔
      SeekTarget s object offset whence new := by
  rw [seekPosition, SeekTarget]
  by_cases set_ : whence = 0
  · simp [set_, eq_comm]
  by_cases current : whence = 1
  · simp [current, eq_comm]
  by_cases end_ : whence = 2
  · subst end_
    cases inode_eq : object.inode with
    | none => simp
    | some inode => simp [eq_comm]
  · simp [set_, current, end_]

/-- What a seek that succeeds has done: it moved the file in the kernel's table. -/
theorem sysLseek_ok_iff {ω : Type} {s s' : FdState κ ω} {fd whence : ℤ} {offset : BitVec 32}
    {p : ℕ} :
    sysLseek fd offset whence s = some (.ok p, s') ↔
      ∃ slot moved target new, fdSlot fd = some slot ∧ s.openFiles slot = some moved ∧
        s.files moved = some target ∧ SeekTarget s.toVfsState target offset whence new ∧
        new.msb = false ∧ p = new.toNat ∧
        s' = { s with toVfsState := s.toVfsState.moved moved target new.toNat s.world } := by
  constructor
  · intro returned
    obtain ⟨⟨result, vfs⟩, seek, both⟩ := map_eq_some_iff.mp returned
    cases both
    unfold vfsLseek at seek
    split at seek
    · cases seek
    rename_i slot slot_eq
    split at seek
    · cases seek
    rename_i moved moved_eq
    obtain ⟨target, target_eq, seek⟩ := bind_eq_some_iff.mp seek
    obtain ⟨outcome, position, seek⟩ := map_eq_some_iff.mp seek
    cases outcome with
    | error e => cases seek
    | ok new =>
      dsimp only at seek
      cases sign : new.msb with
      | true =>
        rw [sign, if_pos rfl] at seek
        cases seek
      | false =>
        rw [sign, if_neg Bool.false_ne_true] at seek
        obtain ⟨value, vfs_eq⟩ := Prod.mk.inj seek
        refine ⟨slot, moved, target, new, slot_eq, moved_eq, target_eq,
          seekPosition_ok_iff.mp position, sign, (Except.ok.inj value).symm, ?_⟩
        rw [← vfs_eq]
  · rintro ⟨slot, moved, target, new, slot_eq, moved_eq, target_eq, position, sign, rfl, rfl⟩
    rw [← seekPosition_ok_iff] at position
    simp [sysLseek, FdState.lift, vfsLseek, slot_eq, moved_eq, target_eq, position, sign]

/-- After a seek that returns `p`, the file of the process is at `p`: that is where the next
`sys_read` and `sys_write` start.  No other file is moved. -/
def SeekWorks (ops : κ → FileOperations κ (FatWorld × θ)) (memory : Option Bytes) (table file : ℕ)
    (fd : ℤ) (offset : BitVec 32) (whence : ℤ) (s : FdState κ (FatWorld × θ)) : Prop :=
  ∀ p s', sysLseek fd offset whence s = some (.ok p, s') →
    (∃ object, s'.files file = some object ∧ object.pos = p ∧
      (∀ count, 0 < count → hasAccess object.flags oRdonly = true →
        (sysRead ops (some table) fd count s').map Prod.fst =
          (fat32FileRead s'.world.1.fs s'.world.1.dev memory (s'.world.1.entryOf object) p
            count).map fun r => asReturned r.ret r.bytes) ∧
      ∀ bytes, bytes ≠ [] → hasAccess object.flags oWronly = true →
        (sysWrite ops (some table) fd bytes s').map (fun r => (r.1, r.2.world.1.dev)) =
          (fat32FileWrite s'.world.1.fs s'.world.1.dev memory (s'.world.1.entryOf object) p
            bytes).map fun r => (asReturned r.ret r.ret.toNat, r.dev)) ∧
    ∀ other, other ≠ file → (s'.files other).map OpenFile.pos = (s.files other).map OpenFile.pos

/-- The file in the kernel's table at that number, if there is one and the arguments lead
somewhere in it, is the one of the process; or both files are already at the new position. -/
def SeekHits {ω : Type} (file : ℕ) (fd : ℤ) (offset : BitVec 32) (whence : ℤ)
    (s : FdState κ ω) : Prop :=
  ∀ slot moved target new, fdSlot fd = some slot → s.openFiles slot = some moved →
    s.files moved = some target → SeekTarget s.toVfsState target offset whence new →
    new.msb = false →
      moved = file ∨ target.pos = new.toNat ∧
        ∃ object, s.files file = some object ∧ object.pos = new.toNat

section

variable {ω : Type} {s : VfsState κ ω} {moved file pos : ℕ} {target : OpenFile κ} {world : ω}

theorem VfsState.moved_self : (s.moved moved target pos world).files moved =
    some { target with pos := pos } := update_self ..

theorem VfsState.moved_of_ne (ne : file ≠ moved) :
    (s.moved moved target pos world).files file = s.files file := update_of_ne ne ..

end

/-- **A seek takes effect on a FAT32 file exactly if it reaches it.** -/
theorem seek_works_iff (ops : κ → FileOperations κ (FatWorld × θ)) (memory : Option Bytes)
    (fat32 : κ) (table file : ℕ) (fd : ℤ) (offset : BitVec 32) (whence : ℤ)
    (s : FdState κ (FatWorld × θ)) (object : OpenFile κ) (driver : ops fat32 = fat32FileOps memory)
    (held : s.fileAt table fd = some file) (object_eq : s.files file = some object)
    (is_fat32 : object.fOp = some fat32) :
    SeekWorks ops memory table file fd offset whence s ↔ SeekHits file fd offset whence s := by
  constructor
  · intro works slot moved target new slot_eq moved_eq target_eq position sign
    obtain ⟨⟨object', object'_eq, at_p, _⟩, others⟩ := works new.toNat _ (sysLseek_ok_iff.mpr
      ⟨slot, moved, target, new, slot_eq, moved_eq, target_eq, position, sign, rfl, rfl⟩)
    by_cases same : moved = file
    · exact Or.inl same
    right
    rw [VfsState.moved_of_ne (Ne.symm same)] at object'_eq
    have kept := others moved same
    rw [VfsState.moved_self, target_eq] at kept
    exact ⟨(Option.some.inj kept).symm, object', object'_eq, at_p⟩
  · intro hits p s' seek
    obtain ⟨slot, moved, target, new, slot_eq, moved_eq, target_eq, position, sign, rfl, rfl⟩ :=
      sysLseek_ok_iff.mp seek
    set s' : FdState κ (FatWorld × θ) :=
      { s with toVfsState := s.toVfsState.moved moved target new.toNat s.world }
    have held' : s'.fileAt table fd = some file := held
    -- the file of the process is at the new position, and still a FAT32 file
    obtain ⟨object', object'_eq, at_p, is_fat32'⟩ : ∃ object', s'.files file = some object' ∧
        object'.pos = new.toNat ∧ object'.fOp = some fat32 := by
      by_cases same : moved = file
      · subst same
        obtain rfl : target = object := mem_unique target_eq object_eq
        exact ⟨_, VfsState.moved_self, rfl, is_fat32⟩
      obtain hit | ⟨_, object', object'_eq, at_p⟩ :=
        hits slot moved target new slot_eq moved_eq target_eq position sign
      · exact absurd hit same
      · obtain rfl : object = object' := mem_unique object_eq object'_eq
        exact ⟨object, (VfsState.moved_of_ne (Ne.symm same)).trans object_eq, at_p, is_fat32⟩
    refine ⟨⟨object', object'_eq, at_p, ?_, ?_⟩, ?_⟩
    · intro count some_bytes readable
      rw [← at_p]
      exact sysRead_fat32 driver held' object'_eq is_fat32' readable some_bytes
    · intro bytes some_bytes writable
      rw [← at_p]
      exact sysWrite_fat32 driver held' object'_eq is_fat32' writable some_bytes
    · intro other ne
      by_cases same : other = moved
      · subst same
        obtain hit | ⟨there, _⟩ :=
          hits slot other target new slot_eq moved_eq target_eq position sign
        · exact absurd hit ne
        · rw [VfsState.moved_self, target_eq, map_some, map_some, there]
      · rw [VfsState.moved_of_ne same]

/-! ## Two tables -/

/-- A FAT32 file, open for reading, at the start, with its directory entry at an address. -/
def fatFile (address : ℕ) : OpenFile Unit where
  inode := none
  fOp := some ()
  flags := oRdonly
  pos := 0
  refCount := 1
  privateData := some address

/-- A process whose descriptor 0 is the file at address 1, and a kernel whose descriptor 0
is the one at `global`. -/
def oneFileOpen (global : ℕ) : FdState Unit (FatWorld × Unit) where
  initialized := true
  openFiles := fun slot => if slot = 0 then some global else none
  files := fun address => if address = 1 ∨ address = 2 then some (fatFile (10 + address)) else none
  inodes := fun _ => none
  world := (⟨some (smallInfo 8), ⟨1000, fun _ => 0⟩, fun _ => some fun _ => 0⟩, ())
  tables := fun address =>
    if address = 7 then some ⟨fun slot => if slot = 0 then some 1 else none, 1⟩ else none

/-- If it is the same file, the seek works. -/
theorem seek_works_same :
    SeekWorks (fun _ => fat32FileOps none) none 7 1 0 5 0 (oneFileOpen 1) := by
  refine (seek_works_iff (fun _ => fat32FileOps none) none () 7 1 0 5 0 (oneFileOpen 1) (fatFile 11)
    rfl (by decide) rfl rfl).mpr ?_
  intro slot moved target new slot_eq moved_eq _ _ _
  left
  obtain rfl : 0 = slot := Option.some.inj slot_eq
  exact (Option.some.inj moved_eq).symm

/-- If it is not, the seek returns 5, moves the other file, and the file of the process is
still at its start. -/
theorem seek_moves_other :
    (∃ s', sysLseek 0 5 0 (oneFileOpen 2) = some (.ok 5, s') ∧
      (oneFileOpen 2).fileAt 7 0 = some 1 ∧
      (s'.files 1).map OpenFile.pos = some 0 ∧ (s'.files 2).map OpenFile.pos = some 5) ∧
    ¬SeekWorks (fun _ => fat32FileOps none) none 7 1 0 5 0 (oneFileOpen 2) := by
  have seek : sysLseek 0 5 0 (oneFileOpen 2) =
      some (.ok 5, { oneFileOpen 2 with
        toVfsState := (oneFileOpen 2).toVfsState.moved 2 (fatFile 12) 5 (oneFileOpen 2).world }) :=
    sysLseek_ok_iff.mpr ⟨0, 2, fatFile 12, 5, rfl, rfl, rfl, Or.inl ⟨rfl, rfl⟩, rfl, rfl, rfl⟩
  refine ⟨⟨_, seek, by decide, rfl, rfl⟩, fun works => ?_⟩
  obtain ⟨⟨object, object_eq, at_5, _⟩, _⟩ := works 5 _ seek
  obtain rfl : fatFile 11 = object := Option.some.inj object_eq
  exact absurd at_5 (by decide)

end EduOS
