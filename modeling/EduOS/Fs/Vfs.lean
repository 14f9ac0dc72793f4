import EduOS.Include.Errno
import EduOS.Library.Word

/-!
# Open files

`kernel/fs/vfs_core.c`: file objects with their reference counts, the table of open files
that the kernel has for itself, and the operations on an open file.

A driver is known by the table of operations that its files point to: `κ` has a name for
each of those tables, `ops` says what is in it, and `ω` is what the drivers keep, which
the functions here only pass on.  An operation gives its result and where it leaves the
position of the file.  Objects are known by the addresses that `kmalloc` gave them; an
access to one that has been freed is a fault (`none`).
-/

namespace EduOS

open Function

/-- `VFS_MAX_OPEN_FILES`, and `MAX_FILES_PER_PROCESS` -/
abbrev maxOpenFiles : ℕ := 64

/-- `struct vfs_file` -/
structure OpenFile (κ : Type) where
  inode : Option ℕ
  fOp : Option κ
  flags : BitVec 32
  pos : ℕ
  refCount : ℕ
  privateData : Option ℕ

/-- `struct vfs_inode` -/
structure VfsInode (κ : Type) where
  size : ℕ
  refCount : ℕ
  fOp : Option κ
  privateData : Option ℕ

/-- `struct vfs_file_operations`; a missing operation is a null pointer. -/
structure FileOperations (κ ω : Type) where
  openFile : Option (OpenFile κ → ω → Option (Except ℕ Unit × ℕ × ω))
  release : Option (OpenFile κ → ω → ω)
  read : Option (OpenFile κ → ℕ → ω → Option (Except ℕ (List (BitVec 8)) × ℕ × ω))
  write : Option (OpenFile κ → List (BitVec 8) → ω → Option (Except ℕ ℕ × ℕ × ω))

/-- A table of open files. -/
abbrev FileSlots := Fin maxOpenFiles → Option ℕ

/-- The open files of the kernel (`vfs_state`), and the objects in memory. -/
structure VfsState (κ ω : Type) where
  initialized : Bool
  openFiles : FileSlots
  files : ℕ → Option (OpenFile κ)
  inodes : ℕ → Option (VfsInode κ)
  world : ω

/-- The slot of a descriptor, if it is one. -/
def fdSlot (fd : ℤ) : Option (Fin maxOpenFiles) :=
  if inRange : 0 ≤ fd ∧ fd < maxOpenFiles then some ⟨fd.toNat, by omega⟩ else none

theorem fdSlot_of_val (slot : Fin maxOpenFiles) : fdSlot slot.val = some slot := by
  simp [fdSlot]

/-- The first free slot of a table. -/
def freeSlot (slots : FileSlots) : Option (Fin maxOpenFiles) :=
  (List.finRange maxOpenFiles).find? fun i => (slots i).isNone

variable {κ ω : Type}

/-! ## Reference counts -/

/-- `inode_get` -/
def inodeGet (inode : ℕ) (s : VfsState κ ω) : Option (VfsState κ ω) :=
  (s.inodes inode).map fun object =>
    { s with
      inodes := update s.inodes inode (some { object with refCount := u32 (object.refCount + 1) }) }

/-- `inode_put` -/
def inodePut (inode : ℕ) (s : VfsState κ ω) : Option (VfsState κ ω) :=
  (s.inodes inode).map fun object =>
    { s with
      inodes := update s.inodes inode
        (if object.refCount - 1 = 0 then none
          else some { object with refCount := object.refCount - 1 }) }

/-- `file_get` -/
def fileGet (file : ℕ) (s : VfsState κ ω) : Option (VfsState κ ω) :=
  (s.files file).map fun object =>
    { s with
      files := update s.files file (some { object with refCount := u32 (object.refCount + 1) }) }

/-- The `release` operation of a file, if there is one. -/
def releaseFile (ops : κ → FileOperations κ ω) (object : OpenFile κ) (s : VfsState κ ω) :
    VfsState κ ω :=
  match object.fOp.bind fun op => (ops op).release with
  | none => s
  | some release => { s with world := release object s.world }

/-- `inode_put` of the inode of a file, if there is one. -/
def putInode (object : OpenFile κ) (s : VfsState κ ω) : Option (VfsState κ ω) :=
  match object.inode with
  | none => some s
  | some inode => inodePut inode s

/-- `file_put`: without references the file is released and freed. -/
def filePut (ops : κ → FileOperations κ ω) (file : ℕ) (s : VfsState κ ω) : Option (VfsState κ ω) :=
  (s.files file).bind fun object =>
    if object.refCount - 1 = 0 then
      (putInode object (releaseFile ops object s)).map fun s =>
        { s with files := update s.files file none }
    else
      some
        { s with
          files := update s.files file (some { object with refCount := object.refCount - 1 }) }

/-! ## Opening and closing -/

/-- The `open` operation of a new file, if there is one. -/
def openOperation (ops : κ → FileOperations κ ω) (object : OpenFile κ) (s : VfsState κ ω) :
    Option (Except ℕ (OpenFile κ) × VfsState κ ω) :=
  match object.fOp.bind fun op => (ops op).openFile with
  | none => some (.ok object, s)
  | some operation =>
    (operation object s.world).map fun
      | (.ok _, pos, world) => (.ok { object with pos := pos }, { s with world := world })
      | (.error e, _, world) => (.error e, { s with world := world })

/-- The file object that `vfs_open` sets up for an inode. -/
def newFile (inode : ℕ) (object : VfsInode κ) (flags : BitVec 32) : OpenFile κ where
  inode := some inode
  fOp := object.fOp
  flags := flags
  pos := 0
  refCount := 1
  privateData := object.privateData

/-- The end of `vfs_open`: a descriptor for the file at `file`. -/
def openSlot (ops : κ → FileOperations κ ω) (file : ℕ) (object : OpenFile κ) (s : VfsState κ ω) :
    Except ℕ (Fin maxOpenFiles) × VfsState κ ω :=
  match freeSlot s.openFiles with
  | none => (.error enomem, releaseFile ops object s)
  | some fd =>
    (.ok fd,
      { s with
        files := update s.files file (some object)
        openFiles := update s.openFiles fd (some file) })

/-- `vfs_open`.  `dentry` is what `vfs_lookup` finds, with its inode, and `allocated` what
`kmalloc` returns for the file.  An error after `inode_get` keeps the reference. -/
def vfsOpen (ops : κ → FileOperations κ ω) (allocated : Option ℕ) (dentry : Option (Option ℕ))
    (flags : BitVec 32) (s : VfsState κ ω) :
    Option (Except ℕ (Fin maxOpenFiles) × VfsState κ ω) :=
  if !s.initialized then some (.error einval, s)
  else
    match dentry.join with
    | none => some (.error enoent, s)
    | some inode =>
      match allocated with
      | none => some (.error enomem, s)
      | some file =>
        (s.inodes inode).bind fun object =>
          (inodeGet inode s).bind fun s =>
            (openOperation ops (newFile inode object flags) s).map fun
              | (.error e, s) => (.error e, s)
              | (.ok object, s) => openSlot ops file object s

/-- `vfs_close` of a descriptor in range. -/
def vfsClose (ops : κ → FileOperations κ ω) (fd : Fin maxOpenFiles) (s : VfsState κ ω) :
    Option (Except ℕ Unit × VfsState κ ω) :=
  match s.openFiles fd with
  | none => some (.error ebadf, s)
  | some file =>
    (filePut ops file { s with openFiles := update s.openFiles fd none }).map fun s =>
      (.ok (), s)

/-- `vfs_open_file`: the address of the file, or a null pointer. -/
def vfsOpenFile (ops : κ → FileOperations κ ω) (allocated : Option ℕ)
    (dentry : Option (Option ℕ)) (flags : BitVec 32) (s : VfsState κ ω) :
    Option (Option ℕ × VfsState κ ω) :=
  (vfsOpen ops allocated dentry flags s).bind fun
    | (.error _, s) => some (none, s)
    | (.ok fd, s) =>
      match s.openFiles fd with
      | none => (vfsClose ops fd s).map fun r => (none, r.2)
      | some file =>
        (fileGet file s).bind fun s => (vfsClose ops fd s).map fun r => (some file, r.2)

/-! ## Reading, writing and seeking -/

def oRdonly : BitVec 32 := 0

def oWronly : BitVec 32 := 1

def oRdwr : BitVec 32 := 2

/-- The access mode of a file is one of the two. -/
def hasAccess (flags mode : BitVec 32) : Bool := flags &&& 3 = mode || flags &&& 3 = oRdwr

/-- What an operation on a file leaves: its position and the driver's state. -/
def VfsState.moved (s : VfsState κ ω) (file : ℕ) (object : OpenFile κ) (pos : ℕ) (world : ω) :
    VfsState κ ω :=
  { s with
    files := update s.files file (some { object with pos := pos })
    world := world }

/-- `vfs_file_read` of `count` bytes into a buffer: the bytes. -/
def vfsFileReadBytes (ops : κ → FileOperations κ ω) (file count : ℕ) (s : VfsState κ ω) :
    Option (Except ℕ (List (BitVec 8)) × VfsState κ ω) :=
  (s.files file).bind fun object =>
    if !hasAccess object.flags oRdonly then some (.error ebadf, s)
    else
      match object.fOp.bind fun op => (ops op).read with
      | none => some (.error einval, s)
      | some read =>
        (read object count s.world).map fun (result, pos, world) =>
          (result, s.moved file object pos world)

/-- `vfs_file_write` of the bytes in a buffer: how many it takes. -/
def vfsFileWriteBytes (ops : κ → FileOperations κ ω) (file : ℕ) (bytes : List (BitVec 8))
    (s : VfsState κ ω) : Option (Except ℕ ℕ × VfsState κ ω) :=
  (s.files file).bind fun object =>
    if !hasAccess object.flags oWronly then some (.error ebadf, s)
    else
      match object.fOp.bind fun op => (ops op).write with
      | none => some (.error einval, s)
      | some write =>
        (write object bytes s.world).map fun (result, pos, world) =>
          (result, s.moved file object pos world)

/-- `vfs_write` -/
def vfsWrite (ops : κ → FileOperations κ ω) (fd : ℤ) (bytes : List (BitVec 8))
    (s : VfsState κ ω) : Option (Except ℕ ℕ × VfsState κ ω) :=
  match fdSlot fd with
  | none => some (.error einval, s)
  | some slot =>
    match s.openFiles slot with
    | none => some (.error ebadf, s)
    | some file => vfsFileWriteBytes ops file bytes s

/-- The position that `vfs_lseek` computes, on 32 bits. -/
def seekPosition (object : OpenFile κ) (offset : BitVec 32) (whence : ℤ) (s : VfsState κ ω) :
    Option (Except ℕ (BitVec 32)) :=
  if whence = 0 then some (.ok offset)
  else if whence = 1 then some (.ok (BitVec.ofNat 32 object.pos + offset))
  else if whence = 2 then
    match object.inode with
    | none => some (.error einval)
    | some inode =>
      (s.inodes inode).map fun inode => .ok (BitVec.ofNat 32 inode.size + offset)
  else some (.error einval)

/-- `vfs_lseek`; the new position is signed, and must not be negative. -/
def vfsLseek (fd : ℤ) (offset : BitVec 32) (whence : ℤ) (s : VfsState κ ω) :
    Option (Except ℕ ℕ × VfsState κ ω) :=
  match fdSlot fd with
  | none => some (.error einval, s)
  | some slot =>
    match s.openFiles slot with
    | none => some (.error ebadf, s)
    | some file =>
      (s.files file).bind fun object =>
        (seekPosition object offset whence s).map fun
          | .error e => (.error e, s)
          | .ok new =>
            if new.msb then (.error einval, s)
            else (.ok new.toNat, s.moved file object new.toNat s.world)

end EduOS
