import EduOS.Process.FdTable

/-!
# Reading, writing and seeking

`kernel/syscall/sys_io.c`.  `sys_read` and `sys_write` find the file in the descriptor
table of the process; `sys_lseek` hands the descriptor on to `vfs_lseek`, which looks it up
in the table of the kernel.
-/

namespace EduOS

variable {κ ω : Type}

/-- Work on the files of the kernel, and leave the descriptor tables. -/
def FdState.lift {ρ : Type} (s : FdState κ ω) (r : Option (Except ℕ ρ × VfsState κ ω)) :
    Option (Except ℕ ρ × FdState κ ω) :=
  r.map fun (result, vfs) => (result, { s with toVfsState := vfs })

/-- `sys_read` into a buffer: the bytes.  `table` is the descriptor table of the process,
if it has one. -/
def sysRead (ops : κ → FileOperations κ ω) (table : Option ℕ) (fd : ℤ) (count : ℕ)
    (s : FdState κ ω) : Option (Except ℕ (List (BitVec 8)) × FdState κ ω) :=
  if fd < 0 ∨ count = 0 then some (.error einval, s)
  else
    match table.bind fun address => s.fileAt address fd with
    | none => some (.error ebadf, s)
    | some file => s.lift (vfsFileReadBytes ops file count s.toVfsState)

/-- `sys_write` of the bytes in a buffer: how many are taken.  Without a descriptor table
the table of the kernel is used. -/
def sysWrite (ops : κ → FileOperations κ ω) (table : Option ℕ) (fd : ℤ) (bytes : List (BitVec 8))
    (s : FdState κ ω) : Option (Except ℕ ℕ × FdState κ ω) :=
  if fd < 0 ∨ bytes = [] then some (.error einval, s)
  else
    match table with
    | none => s.lift (vfsWrite ops fd bytes s.toVfsState)
    | some address =>
      match s.fileAt address fd with
      | none => some (.error ebadf, s)
      | some file => s.lift (vfsFileWriteBytes ops file bytes s.toVfsState)

/-- `sys_lseek` -/
def sysLseek (fd : ℤ) (offset : BitVec 32) (whence : ℤ) (s : FdState κ ω) :
    Option (Except ℕ ℕ × FdState κ ω) :=
  s.lift (vfsLseek fd offset whence s.toVfsState)

end EduOS
