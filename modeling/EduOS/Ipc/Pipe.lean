import EduOS.Include.Errno
import EduOS.Library.Circular

/-!
# Pipes

`kernel/ipc/pipe.c`: a pipe is a circular buffer of `PIPE_BUF` bytes.  Reading and
writing move one byte a pass, as far as there are bytes, or as there is room; they do not
wait.  An error is the number that the call leaves in `errno`.

`pipe_fifo` is about any sequence of calls: what is read is what was written, in order.
-/

namespace EduOS

open Function

def pipeBuf : ℕ := 4096

/-- `struct pipe` -/
structure Pipe where
  buffer : ℕ → BitVec 8
  readPos : ℕ
  writePos : ℕ
  size : ℕ
  readers : ℕ
  writers : ℕ

/-- `pipe_create`, when there is memory for the pipe. -/
def pipeCreate : Pipe where
  buffer := fun _ => 0
  readPos := 0
  writePos := 0
  size := 0
  readers := 1
  writers := 1

/-- The loop of `pipe_read`, for `n` more bytes. -/
def takeBytes : ℕ → Pipe → List (BitVec 8) × Pipe
  | 0, pipe => ([], pipe)
  | n + 1, pipe =>
    let rest := takeBytes n
      { pipe with readPos := (pipe.readPos + 1) % pipeBuf, size := pipe.size - 1 }
    (pipe.buffer pipe.readPos :: rest.1, rest.2)

/-- `pipe_read`: the bytes that it puts in the buffer, if there is one. -/
def pipeRead (hasBuffer : Bool) (count : ℕ) (pipe : Pipe) : Except ℕ (List (BitVec 8)) × Pipe :=
  if !hasBuffer then (.error einval, pipe)
  else if pipe.size = 0 ∧ pipe.writers = 0 then (.ok [], pipe)
  else if pipe.size = 0 then (.error eagain, pipe)
  else
    let (bytes, pipe) := takeBytes (min count pipe.size) pipe
    (.ok bytes, pipe)

/-- The loop of `pipe_write` over the bytes that are left. -/
def putBytes : List (BitVec 8) → Pipe → Pipe
  | [], pipe => pipe
  | byte :: rest, pipe =>
    putBytes rest
      { pipe with
        buffer := update pipe.buffer pipe.writePos byte
        writePos := (pipe.writePos + 1) % pipeBuf
        size := pipe.size + 1 }

/-- `pipe_write` of the bytes in a buffer: how many it takes. -/
def pipeWrite (buffer : Option (List (BitVec 8))) (pipe : Pipe) : Except ℕ ℕ × Pipe :=
  match buffer with
  | none => (.error einval, pipe)
  | some bytes =>
    if pipe.readers = 0 then (.error epipe, pipe)
    else if pipeBuf ≤ pipe.size then (.error eagain, pipe)
    else
      let toWrite := min bytes.length (pipeBuf - pipe.size)
      (.ok toWrite, putBytes (bytes.take toWrite) pipe)

/-! ## The queue in the buffer -/

/-- The bytes in a pipe, the next one to be read first. -/
def Pipe.contents (pipe : Pipe) : List (BitVec 8) :=
  circular pipeBuf pipe.buffer pipe.readPos pipe.size

/-- The positions fit the number of bytes. -/
structure Pipe.Ok (pipe : Pipe) : Prop where
  size_le : pipe.size ≤ pipeBuf
  read_lt : pipe.readPos < pipeBuf
  write_eq : pipe.writePos = (pipe.readPos + pipe.size) % pipeBuf

theorem takeBytes_spec :
    ∀ (n : ℕ) (pipe : Pipe), pipe.Ok → n ≤ pipe.size →
      (takeBytes n pipe).2.Ok ∧
        pipe.contents = (takeBytes n pipe).1 ++ (takeBytes n pipe).2.contents ∧
        (takeBytes n pipe).1.length = n ∧ (takeBytes n pipe).2.readers = pipe.readers ∧
        (takeBytes n pipe).2.writers = pipe.writers := by
  intro n
  induction n with
  | zero => exact fun pipe ok _ => ⟨ok, rfl, rfl, rfl, rfl⟩
  | succ n ih =>
    intro pipe ok enough
    obtain ⟨size_le, read_lt, write_eq⟩ := ok
    obtain ⟨size, size_eq⟩ : ∃ size, pipe.size = size + 1 := ⟨pipe.size - 1, by omega⟩
    set next : Pipe :=
      { pipe with readPos := (pipe.readPos + 1) % pipeBuf, size := pipe.size - 1 }
    have next_ok : next.Ok := by
      refine ⟨by dsimp only [next]; omega, Nat.mod_lt _ (by decide), ?_⟩
      show pipe.writePos = ((pipe.readPos + 1) % pipeBuf + (pipe.size - 1)) % pipeBuf
      rw [write_eq, Nat.mod_add_mod]
      congr 1
      omega
    obtain ⟨ok, contents, length, readers, writers⟩ := ih _ next_ok (by dsimp only [next]; omega)
    refine ⟨ok, ?_, by rw [takeBytes, List.length_cons, length], readers, writers⟩
    have first : pipe.contents = pipe.buffer pipe.readPos :: next.contents := by
      simp only [Pipe.contents, next]
      rw [size_eq, circular_succ, Nat.mod_eq_of_lt read_lt, Nat.add_sub_cancel]
    rw [first, contents]
    rfl

theorem putBytes_spec :
    ∀ (bytes : List (BitVec 8)) (pipe : Pipe), pipe.Ok → bytes.length ≤ pipeBuf - pipe.size →
      (putBytes bytes pipe).Ok ∧ (putBytes bytes pipe).contents = pipe.contents ++ bytes ∧
        (putBytes bytes pipe).readers = pipe.readers ∧
        (putBytes bytes pipe).writers = pipe.writers := by
  intro bytes
  induction bytes with
  | nil => exact fun pipe ok _ => ⟨ok, (List.append_nil _).symm, rfl, rfl⟩
  | cons byte rest ih =>
    intro pipe ok room
    obtain ⟨size_le, read_lt, write_eq⟩ := ok
    rw [List.length_cons] at room
    set next : Pipe :=
      { pipe with
        buffer := update pipe.buffer pipe.writePos byte
        writePos := (pipe.writePos + 1) % pipeBuf
        size := pipe.size + 1 }
    have next_ok : next.Ok := by
      refine ⟨by dsimp only [next]; omega, read_lt, ?_⟩
      show (pipe.writePos + 1) % pipeBuf = (pipe.readPos + (pipe.size + 1)) % pipeBuf
      rw [write_eq, Nat.mod_add_mod, Nat.add_assoc]
    obtain ⟨ok, contents, readers, writers⟩ := ih _ next_ok (by dsimp only [next]; omega)
    refine ⟨ok, ?_, readers, writers⟩
    have pushed : next.contents = pipe.contents ++ [byte] := by
      simp only [Pipe.contents, next]
      rw [write_eq, circular_push (by omega)]
    rw [putBytes, contents, pushed, List.append_assoc, List.singleton_append]

/-- A read takes bytes off the front of the queue. -/
theorem pipeRead_spec {pipe : Pipe} (ok : pipe.Ok) (some_byte : 0 < pipe.size) (count : ℕ) :
    ∃ bytes pipe', pipeRead true count pipe = (.ok bytes, pipe') ∧
      bytes.length = min count pipe.size ∧ pipe'.Ok ∧ pipe.contents = bytes ++ pipe'.contents ∧
      pipe'.readers = pipe.readers ∧ pipe'.writers = pipe.writers := by
  obtain ⟨ok', contents, length, readers, writers⟩ :=
    takeBytes_spec (min count pipe.size) pipe ok (Nat.min_le_right _ _)
  refine ⟨_, _, ?_, length, ok', contents, readers, writers⟩
  simp [pipeRead, Nat.ne_of_gt some_byte]

/-- A write adds bytes at the end of the queue. -/
theorem pipeWrite_spec {pipe : Pipe} (ok : pipe.Ok) (reader : pipe.readers ≠ 0)
    (room : pipe.size < pipeBuf) (bytes : List (BitVec 8)) :
    ∃ pipe', pipeWrite (some bytes) pipe = (.ok (min bytes.length (pipeBuf - pipe.size)), pipe') ∧
      pipe'.Ok ∧
      pipe'.contents = pipe.contents ++ bytes.take (min bytes.length (pipeBuf - pipe.size)) ∧
      pipe'.readers = pipe.readers ∧ pipe'.writers = pipe.writers := by
  obtain ⟨ok', contents, readers, writers⟩ :=
    putBytes_spec (bytes.take (min bytes.length (pipeBuf - pipe.size))) pipe ok
      (by rw [List.length_take]; omega)
  refine ⟨_, ?_, ok', contents, readers, writers⟩
  simp [pipeWrite, reader, Nat.not_le.mpr room]

/-! ## Runs -/

/-- The calls on a pipe. -/
inductive PipeCall
  | read (count : ℕ)
  | write (bytes : List (BitVec 8))

/-- A pipe, with all bytes that were read from it and all bytes that it took. -/
structure PipeLog where
  pipe : Pipe
  received : List (BitVec 8)
  accepted : List (BitVec 8)

/-- One call, with the bytes it moves. -/
def pipeStep (s : PipeLog) : PipeCall → PipeLog
  | .read count =>
    let (result, pipe) := pipeRead true count s.pipe
    { s with
      pipe := pipe
      received := s.received ++ result.toOption.getD [] }
  | .write bytes =>
    let (result, pipe) := pipeWrite (some bytes) s.pipe
    { s with
      pipe := pipe
      accepted := s.accepted ++ bytes.take (result.toOption.getD 0) }

/-- Both ends are open, and the pipe holds what was taken and not yet read. -/
structure PipeLog.Inv (s : PipeLog) : Prop where
  ok : s.pipe.Ok
  reader : s.pipe.readers ≠ 0
  writer : s.pipe.writers ≠ 0
  queue : s.accepted = s.received ++ s.pipe.contents

theorem PipeLog.Inv.step {s : PipeLog} (inv : s.Inv) (call : PipeCall) : (pipeStep s call).Inv := by
  obtain ⟨ok, reader, writer, queue⟩ := inv
  cases call with
  | read count =>
    rcases Nat.eq_zero_or_pos s.pipe.size with empty | some_byte
    · have again : pipeRead true count s.pipe = (.error eagain, s.pipe) := by
        simp [pipeRead, empty, writer]
      simp only [pipeStep, again]
      exact ⟨ok, reader, writer, by simpa [Except.toOption] using queue⟩
    · obtain ⟨bytes, pipe', done, -, ok', contents, readers, writers⟩ :=
        pipeRead_spec ok some_byte count
      simp only [pipeStep, done]
      refine ⟨ok', by rwa [readers], by rwa [writers], ?_⟩
      rw [queue, contents]
      simp [Except.toOption]
  | write bytes =>
    rcases Nat.lt_or_ge s.pipe.size pipeBuf with room | full
    · obtain ⟨pipe', done, ok', contents, readers, writers⟩ := pipeWrite_spec ok reader room bytes
      simp only [pipeStep, done]
      refine ⟨ok', by rwa [readers], by rwa [writers], ?_⟩
      rw [queue, contents]
      simp [Except.toOption]
    · have again : pipeWrite (some bytes) s.pipe = (.error eagain, s.pipe) := by
        simp [pipeWrite, reader, full]
      simp only [pipeStep, again]
      exact ⟨ok, reader, writer, by simpa [Except.toOption] using queue⟩

theorem PipeLog.Inv.run {s : PipeLog} (inv : s.Inv) (calls : List PipeCall) :
    (calls.foldl pipeStep s).Inv :=
  List.foldlRecOn calls pipeStep inv fun _ inv call _ => inv.step call

/-- The calls of `calls` on a new pipe. -/
def pipeRun (calls : List PipeCall) : PipeLog := calls.foldl pipeStep ⟨pipeCreate, [], []⟩

/-- **A pipe is a queue of bytes**, after any sequence of calls. -/
theorem pipe_fifo (calls : List PipeCall) :
    ∃ rest, (pipeRun calls).accepted = (pipeRun calls).received ++ rest ∧
      rest.length = (pipeRun calls).pipe.size ∧ (pipeRun calls).pipe.size ≤ pipeBuf ∧
      (∀ count, 0 < (pipeRun calls).pipe.size →
        ∃ bytes, (pipeRead true count (pipeRun calls).pipe).1 = .ok bytes ∧
          bytes.length = min count (pipeRun calls).pipe.size) ∧
      ∀ bytes, (pipeRun calls).pipe.size < pipeBuf →
        (pipeWrite (some bytes) (pipeRun calls).pipe).1 =
          .ok (min bytes.length (pipeBuf - (pipeRun calls).pipe.size)) := by
  have start : PipeLog.Inv ⟨pipeCreate, [], []⟩ :=
    ⟨⟨by decide, by decide, rfl⟩, by decide, by decide, rfl⟩
  obtain ⟨ok, reader, writer, queue⟩ : (pipeRun calls).Inv := start.run calls
  refine ⟨_, queue, length_circular _ _, ok.size_le, fun count some_byte => ?_,
    fun bytes room => ?_⟩
  · obtain ⟨bytes, pipe', done, length, -⟩ := pipeRead_spec ok some_byte count
    exact ⟨bytes, by rw [done], length⟩
  · obtain ⟨pipe', done, -⟩ := pipeWrite_spec ok reader room bytes
    rw [done]

end EduOS
