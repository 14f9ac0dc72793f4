import EduOS.Ipc.Pipe
import EduOS.Syscall.Io

/-!
# The pipe system call

`sys_pipe` makes a pipe and two files for its ends, and puts them into the descriptor table
of the process.  It gives the files no table of operations, so that `vfs_file_read` and
`vfs_file_write` refuse them: no byte ever goes through a pipe that `sys_pipe` made
(`pipe_call_iff`).
-/

namespace EduOS

open Function Option

variable {κ ω : Type}

/-- The files and the pipes in memory. -/
structure PipeState (κ ω : Type) extends FdState κ ω where
  pipes : ℕ → Option Pipe

/-- The file of one end of a pipe. -/
def pipeEnd (pipe : ℕ) (flags : BitVec 32) : OpenFile κ where
  inode := none
  fOp := none
  flags := flags
  pos := 0
  refCount := 1
  privateData := some pipe

/-- The state with a new pipe and the files of its ends. -/
def PipeState.withPipe (s : PipeState κ ω) (pipe readFile writeFile : ℕ) : PipeState κ ω :=
  { s with
    files := update (update s.files readFile (some (pipeEnd pipe oRdonly)))
      writeFile (some (pipeEnd pipe oWronly))
    pipes := update s.pipes pipe (some pipeCreate) }

/-- `sys_pipe` of a process with the descriptor table at `address`: the two descriptors.
`pipe`, `readFile` and `writeFile` are what `kmalloc` returns; after an error what was
allocated is freed again. -/
def sysPipe (ops : κ → FileOperations κ ω) (address : ℕ) (pipe readFile writeFile : Option ℕ)
    (s : PipeState κ ω) :
    Option (Except ℕ (Fin maxOpenFiles × Fin maxOpenFiles) × PipeState κ ω) :=
  match pipe, readFile, writeFile with
  | some pipe, some readFile, some writeFile =>
    let made := s.withPipe pipe readFile writeFile
    (fdTableAlloc address readFile made.toFdState).bind fun
      | (none, _) => some (.error enomem, s)
      | (some readFd, fds) =>
        (fdTableAlloc address writeFile fds).bind fun
          | (some writeFd, fds) => some (.ok (readFd, writeFd), { made with toFdState := fds })
          | (none, fds) =>
            (fdTableFree ops address readFd fds).map fun (_, fds) =>
              (.error enomem,
                { s with
                  toFdState := { fds with files := update fds.files writeFile none } })
  | _, _, _ => some (.error enomem, s)

/-- What is written to a new pipe can be read from it. -/
def PipeWorks (ops : κ → FileOperations κ ω) (address : ℕ) (pipe readFile writeFile : Option ℕ)
    (bytes : List (BitVec 8)) (s : PipeState κ ω) : Prop :=
  ∀ readFd writeFd s₁, sysPipe ops address pipe readFile writeFile s =
      some (.ok (readFd, writeFd), s₁) →
    ∃ s₂ s₃, sysWrite ops (some address) writeFd.val bytes s₁.toFdState =
        some (.ok bytes.length, s₂) ∧
      sysRead ops (some address) readFd.val bytes.length s₂ = some (.ok bytes, s₃)

/-- A table with a free slot has a first one. -/
theorem freeSlot_of_vacant {slots : FileSlots} {slot : Fin maxOpenFiles}
    (vacant : slots slot = none) :
    ∃ first, freeSlot slots = some first := by
  have found : (freeSlot slots).isSome :=
    List.find?_isSome.mpr ⟨slot, List.mem_finRange slot, by simp [vacant]⟩
  exact isSome_iff_exists.mp found

/-- A file without operations takes no bytes. -/
theorem sysWrite_pipeEnd (ops : κ → FileOperations κ ω) (pipe : ℕ) {s : FdState κ ω}
    {address file : ℕ} {slot : Fin maxOpenFiles}
    {bytes : List (BitVec 8)} (nonempty : bytes ≠ [])
    (held : s.place (some address, slot) = some file)
    (file_eq : s.files file = some (pipeEnd pipe oWronly)) :
    sysWrite ops (some address) slot.val bytes s = some (.error einval, s) := by
  have at_fd : s.fileAt address slot.val = some file := by
    rw [FdState.fileAt, fdSlot_of_val]
    exact held
  have access : hasAccess oWronly oWronly = true := by decide
  have sensible : ¬((slot.val : ℤ) < 0 ∨ bytes = []) := by
    rintro (negative | empty)
    · omega
    · exact nonempty empty
  simp only [sysWrite, if_neg sensible, at_fd, vfsFileWriteBytes, file_eq, bind_some, pipeEnd,
    access]
  rfl

/-- **A pipe works exactly if it was not made**: there is no memory for it. -/
theorem pipe_call_iff (ops : κ → FileOperations κ ω) (address : ℕ)
    (pipe readFile writeFile : Option ℕ) (bytes : List (BitVec 8)) (s : PipeState κ ω)
    (table : FdTable)
    (first second : Fin maxOpenFiles) (found : s.tables address = some table)
    (free : table.files first = none ∧ table.files second = none) (two : first ≠ second)
    (nonempty : bytes ≠ []) :
    PipeWorks ops address pipe readFile writeFile bytes s ↔
      pipe = none ∨ readFile = none ∨ writeFile = none := by
  constructor
  · intro works
    by_contra made
    simp only [not_or] at made
    obtain ⟨pipe, rfl⟩ := ne_none_iff_exists'.mp made.1
    obtain ⟨readFile, rfl⟩ := ne_none_iff_exists'.mp made.2.1
    obtain ⟨writeFile, rfl⟩ := ne_none_iff_exists'.mp made.2.2
    obtain ⟨readFd, readFd_eq⟩ := freeSlot_of_vacant free.1
    -- one of the two free slots is left for the other end
    have vacant : ∃ slot, update table.files readFd (some readFile) slot = none := by
      by_cases same : first = readFd
      · exact ⟨second, by rw [update_of_ne (same ▸ two.symm), free.2]⟩
      · exact ⟨first, by rw [update_of_ne same, free.1]⟩
    obtain ⟨slot, slot_eq⟩ := vacant
    obtain ⟨writeFd, writeFd_eq⟩ := freeSlot_of_vacant slot_eq
    let made := s.withPipe pipe readFile writeFile
    let fds := (made.toFdState.withTable address
      ⟨update table.files readFd (some readFile), u32 (table.count + 1)⟩).withTable address
        ⟨update (update table.files readFd (some readFile)) writeFd (some writeFile),
          u32 (u32 (table.count + 1) + 1)⟩
    have called : sysPipe ops address (some pipe) (some readFile) (some writeFile) s =
        some (.ok (readFd, writeFd), { made with toFdState := fds }) := by
      have first_alloc := fdTableAlloc_of_free (s := made.toFdState) found readFd_eq readFile
      have second_alloc := fdTableAlloc_of_free (made.toFdState.withTable_tables address
        ⟨update table.files readFd (some readFile), u32 (table.count + 1)⟩)
        writeFd_eq writeFile
      simp [sysPipe, made, first_alloc, second_alloc, fds]
    obtain ⟨s₂, s₃, written, _⟩ := works readFd writeFd _ called
    have held : fds.place (some address, writeFd) = some writeFile := by
      simp [fds, FdState.place, FdState.withTable]
    have refused := sysWrite_pipeEnd ops pipe (s := fds) nonempty held (update_self ..)
    rw [refused] at written
    simp at written
  · intro missing readFd writeFd s₁ made
    have refused : sysPipe ops address pipe readFile writeFile s = some (.error enomem, s) := by
      rcases missing with rfl | rfl | rfl
      · rfl
      · cases pipe <;> rfl
      · cases pipe <;> cases readFile <;> rfl
    rw [refused] at made
    simp at made

/-- Two empty tables and no pipe. -/
def noPipes : PipeState Empty Unit where
  toFdState := twoTables
  pipes := fun _ => none

/-- Without memory for the pipe nothing is promised. -/
theorem pipe_call_no_memory : PipeWorks noDrivers 1 none (some 8) (some 9) [0x61] noPipes :=
  (pipe_call_iff noDrivers 1 none (some 8) (some 9) [0x61] noPipes ⟨fun _ => none, 0⟩ 0 1 rfl
    ⟨rfl, rfl⟩ (by decide) (by decide)).mpr (Or.inl rfl)

/-- A pipe is made, with the descriptors 0 and 1, and a byte written to it is refused. -/
theorem pipe_call_refused : ∃ s, sysPipe noDrivers 1 (some 7) (some 8) (some 9) noPipes =
    some (.ok (0, 1), s) ∧
      (sysWrite noDrivers (some 1) 1 [0x61] s.toFdState).map Prod.fst = some (.error einval) :=
  ⟨_, rfl, by decide +kernel⟩

end EduOS
