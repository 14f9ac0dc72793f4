import EduOS.Library.SList
import EduOS.Process.Scheduler

/-!
# Wait queues

`add_wait_queue`, `remove_wait_queue`, `wake_up` and `wake_up_all` of
`sync/wait_queue.c`.

A wait queue is a list of entries, each naming a process.  `wake_up` looks at the first
entry only: if its process is `BLOCKED`, the process becomes `READY` and is given to
`scheduler_add_process`.  The entry stays where it is.  So a second `wake_up` finds the
process it has already woken and does nothing, and the processes further down are never
reached; only `wake_up_all` reaches them (`wakeUpAll_wakes`).
-/

namespace EduOS

open Function

/-- A wait queue, its entries and the scheduler that has the processes.  `added` is the
list of the calls of `scheduler_add_process`, for the record. -/
structure WaitQueue where
  /-- `head` of the queue and `next` of the entries. -/
  entries : SList Pointer
  /-- `process` of the entries. -/
  process : Pointer → Option Pointer
  scheduler : Scheduler
  added : List Pointer

namespace WaitQueue

/-- `proc->state` -/
def state (w : WaitQueue) (proc : Pointer) : ProcessState := w.scheduler.mlfq.state proc

end WaitQueue

/-- `add_wait_queue` -/
def addWaitQueue (w : WaitQueue) (entry : Pointer) : WaitQueue :=
  { w with entries := w.entries.push entry }

/-- `remove_wait_queue`, `none` if the walk does not end. -/
def removeWaitQueue (w : WaitQueue) (entry : Pointer) : Option WaitQueue :=
  (w.entries.unlink (fun curr => curr = entry) (2 ^ 32)).map fun result =>
    { w with entries := result.1 }

/-- What both wake-ups do with an entry. -/
def wakeEntry (w : WaitQueue) (entry : Pointer) : WaitQueue :=
  match w.process entry with
  | none => w
  | some proc =>
    if w.state proc = .blocked then
      let scheduler := { w.scheduler with mlfq := w.scheduler.mlfq.setState proc .ready }
      { w with
        scheduler := schedulerAddProcess scheduler (some proc)
        added := w.added ++ [proc] }
    else w

/-- `wake_up` -/
def wakeUp (w : WaitQueue) : WaitQueue :=
  match w.entries.head with
  | none => w
  | some entry => wakeEntry w entry

/-- One pass of the loop of `wake_up_all`. -/
def wakeAllPass : WaitQueue × Option Pointer → Option ((WaitQueue × Option Pointer) ⊕ WaitQueue)
  | (w, none) => some (Sum.inr w)
  | (w, some entry) =>
    let w := wakeEntry w entry
    some (Sum.inl (w, w.entries.next entry))

/-- `wake_up_all` -/
def wakeUpAll (w : WaitQueue) : Option WaitQueue :=
  loop wakeAllPass (2 ^ 32) (w, w.entries.head)

/-! ## What a wake-up changes -/

variable {w : WaitQueue} {entry proc : Pointer}

section

theorem wakeEntry_entries (w : WaitQueue) (entry : Pointer) :
    (wakeEntry w entry).entries = w.entries ∧ (wakeEntry w entry).process = w.process := by
  unfold wakeEntry
  split
  · exact ⟨rfl, rfl⟩
  · split <;> exact ⟨rfl, rfl⟩

/-- The process of the entry is woken if it is blocked. -/
theorem wakeEntry_blocked (names : w.process entry = some proc)
    (blocked : w.state proc = .blocked) :
    (wakeEntry w entry).state = update w.state proc .ready ∧
      (wakeEntry w entry).added = w.added ++ [proc] := by
  simp only [wakeEntry, names, if_pos blocked, and_true]
  -- the state is written by the wake-up and again by the scheduler
  exact update_idem ProcessState.ready ProcessState.ready w.scheduler.mlfq.state

/-- Otherwise nothing happens. -/
theorem wakeEntry_awake (names : w.process entry = some proc) (awake : w.state proc ≠ .blocked) :
    wakeEntry w entry = w := by
  simp [wakeEntry, names, if_neg awake]

end

/-! ## Queues of blocked processes -/

/-- The queue has one entry for each of the distinct blocked processes `procs`. -/
structure Waiting (w : WaitQueue) (entries procs : List Pointer) : Prop where
  holds : w.entries.Holds entries
  names : entries.map w.process = procs.map some
  distinct : procs.Nodup
  blocked : ∀ proc ∈ procs, w.state proc = .blocked

variable {entries procs : List Pointer}

/-- Adding an entry of another blocked process. -/
theorem Waiting.add (waiting : Waiting w entries procs) (fresh : entry ∉ entries)
    (named : w.process entry = some proc) (other : proc ∉ procs)
    (blocked : w.state proc = .blocked) :
    Waiting (addWaitQueue w entry) (entry :: entries) (proc :: procs) where
  holds := waiting.holds.push fresh
  names := by
    rw [List.map_cons, List.map_cons, ← waiting.names]
    exact congrArg (· :: _) named
  distinct := List.nodup_cons.mpr ⟨other, waiting.distinct⟩
  blocked := by
    exact List.forall_mem_cons.mpr ⟨blocked, waiting.blocked⟩

/-- Removing an entry leaves the others, and the queue as it was if the entry is not in it. -/
theorem removeWaitQueue_holds (holds : w.entries.Holds entries) (entry : Pointer) :
    ∃ w', removeWaitQueue w entry = some w' ∧ w'.entries.Holds (entries.erase entry) ∧
      (entry ∉ entries → w' = w) := by
  obtain ⟨L, ran, holds'⟩ :=
    holds.unlink (fun curr => curr = entry) (Pointer.length_lt holds.nodup)
  refine ⟨{ w with entries := L }, by rw [removeWaitQueue, ran]; rfl, ?_, fun absent => ?_⟩
  · rw [List.erase_eq_eraseP]
    simpa [beq_eq_decide, eq_comm] using holds'
  · have missing : entries.find? (fun curr => decide (curr = entry)) = none := by
      refine List.find?_eq_none.mpr fun curr mem hit => absent ?_
      exact of_decide_eq_true hit ▸ mem
    rw [missing] at ran
    rw [SList.unlink_none ran]

/-- `wake_up_all` is `wakeEntry` for every entry. -/
theorem wakeUpAll_eq (holds : w.entries.Holds entries) :
    wakeUpAll w = some (entries.foldl wakeEntry w) := by
  have walks : ∀ (entries : List Pointer) (w : WaitQueue) (start : Option Pointer) (n : ℕ),
      SList.Walk w.entries.next start entries → entries.length < n →
      loop wakeAllPass n (w, start) = some (entries.foldl wakeEntry w) := by
    intro entries
    induction entries with
    | nil =>
      rintro w start (_ | n) walk short
      · exact absurd short (by simp)
      · obtain rfl : start = none := walk
        exact loop_of_leave n rfl
    | cons entry rest ih =>
      rintro w start (_ | n) walk short
      · exact absurd short (by simp)
      · obtain ⟨rfl, later⟩ := walk
        refine ih (wakeEntry w entry) _ n ?_ (by simpa using short)
        rw [(wakeEntry_entries w entry).1]
        exact later
  exact walks entries w _ _ holds (Pointer.length_lt holds.nodup)

/-- Waking entries one after another wakes all their processes, each once. -/
theorem foldl_wakeEntry (names : entries.map w.process = procs.map some) (distinct : procs.Nodup)
    (blocked : ∀ proc ∈ procs, w.state proc = .blocked) :
    (∀ proc, (entries.foldl wakeEntry w).state proc =
        if proc ∈ procs then .ready else w.state proc) ∧
      (entries.foldl wakeEntry w).added = w.added ++ procs := by
  induction entries generalizing w procs with
  | nil =>
    obtain rfl : procs = [] := by simpa using names.symm
    exact ⟨fun proc => by simp, by simp⟩
  | cons entry rest ih =>
    cases procs with
    | nil => simp at names
    | cons p procs =>
      obtain ⟨named, names⟩ := List.cons.inj names
      obtain ⟨fresh, distinct⟩ := List.nodup_cons.mp distinct
      obtain ⟨woken, logged⟩ := wakeEntry_blocked named (blocked p List.mem_cons_self)
      have still : ∀ q ∈ procs, (wakeEntry w entry).state q = .blocked := by
        intro q mem
        have other : q ≠ p := ne_of_mem_of_not_mem mem fresh
        rw [woken, update_of_ne other]
        exact blocked q (List.mem_cons_of_mem p mem)
      obtain ⟨states, record⟩ := ih
        (by rw [(wakeEntry_entries w entry).2]; exact names) distinct still
      rw [List.foldl_cons]
      refine ⟨fun q => ?_, by rw [record, logged, List.append_assoc]; rfl⟩
      rw [states q, woken]
      by_cases same : q = p
      · simp [same]
      · simp [same]

/-- **`wake_up_all` wakes everyone**: every process of the queue is `READY` and has been
given to the scheduler once more; nothing happens to the others. -/
theorem wakeUpAll_wakes (waiting : Waiting w entries procs) :
    ∃ w', wakeUpAll w = some w' ∧ w'.added = w.added ++ procs ∧
      ∀ proc, w'.state proc = if proc ∈ procs then .ready else w.state proc := by
  obtain ⟨states, record⟩ := foldl_wakeEntry waiting.names waiting.distinct waiting.blocked
  exact ⟨_, wakeUpAll_eq waiting.holds, record, states⟩

/-! ## Repeated wake-ups -/

/-- After `k` calls of `wake_up`, `min k n` of the `n` processes are `READY`, and each of
those was given to the scheduler once. -/
def DeliversWakeUps (w : WaitQueue) (procs : List Pointer) (k : ℕ) : Prop :=
  (procs.filter fun proc => (wakeUp^[k] w).state proc = .ready).length = min k procs.length ∧
    ∀ proc ∈ procs, (wakeUp^[k] w).state proc = .ready →
      (wakeUp^[k] w).added.count proc = w.added.count proc + 1

theorem wakeUp_of_head (first : w.entries.head = some entry) : wakeUp w = wakeEntry w entry := by
  simp [wakeUp, first]

/-- The second wake-up finds the process that the first one woke. -/
theorem wakeUp_again (first : w.entries.head = some entry) (named : w.process entry = some proc)
    (blocked : w.state proc = .blocked) (k : ℕ) : wakeUp^[k + 1] w = wakeEntry w entry := by
  obtain ⟨woken, _⟩ := wakeEntry_blocked named blocked
  obtain ⟨entries, process⟩ := wakeEntry_entries w entry
  have fixed : wakeUp (wakeEntry w entry) = wakeEntry w entry := by
    rw [wakeUp_of_head (by rw [entries]; exact first)]
    refine wakeEntry_awake (by rw [process]; exact named) ?_
    rw [woken, update_self]
    decide
  rw [iterate_succ_apply, wakeUp_of_head first]
  exact iterate_fixed fixed k

/-- **Wake-up delivery.**  For a queue of `n` distinct blocked processes, `k` wake-ups
wake `min k n` of them exactly if `k` or `n` is at most 1: one process is all that
repeated wake-ups ever reach. -/
theorem wake_up_delivers_iff (w : WaitQueue) (entries procs : List Pointer) (k : ℕ)
    (waiting : Waiting w entries procs) :
    DeliversWakeUps w procs k ↔ k ≤ 1 ∨ procs.length ≤ 1 := by
  cases k with
  | zero =>
    have asleep : ∀ proc ∈ procs, w.state proc ≠ .ready := by
      intro proc mem ready
      exact absurd ((waiting.blocked proc mem).symm.trans ready) (by decide)
    refine iff_of_true ⟨?_, fun proc mem ready => absurd ready (asleep proc mem)⟩
      (Or.inl (Nat.zero_le 1))
    rw [Nat.zero_min, List.length_eq_zero_iff, List.filter_eq_nil_iff]
    exact fun proc mem ready => asleep proc mem (of_decide_eq_true ready)
  | succ k =>
    cases procs with
    | nil => exact iff_of_true ⟨by simp, by simp⟩ (Or.inr (by simp))
    | cons p procs =>
      cases entries with
      | nil => exact absurd waiting.names (by simp)
      | cons entry rest =>
        have first : w.entries.head = some entry := waiting.holds.1
        have named : w.process entry = some p := (List.cons.inj waiting.names).1
        have blocked := waiting.blocked p List.mem_cons_self
        have fresh : p ∉ procs := (List.nodup_cons.mp waiting.distinct).1
        obtain ⟨woken, logged⟩ := wakeEntry_blocked named blocked
        have asleep : ∀ q ∈ procs, (wakeEntry w entry).state q ≠ .ready := by
          intro q mem
          have other : q ≠ p := ne_of_mem_of_not_mem mem fresh
          rw [woken, update_of_ne other, waiting.blocked q (List.mem_cons_of_mem p mem)]
          decide
        -- the woken process is the only one that is ready
        have ready : ((p :: procs).filter fun proc =>
            (wakeEntry w entry).state proc = .ready) = [p] := by
          rw [List.filter_cons_of_pos (by simp [woken])]
          congr 1
          rw [List.filter_eq_nil_iff]
          exact fun q mem ready => asleep q mem (of_decide_eq_true ready)
        have once : ∀ proc ∈ p :: procs, (wakeEntry w entry).state proc = .ready →
            (wakeEntry w entry).added.count proc = w.added.count proc + 1 := by
          intro q mem awake
          rcases List.mem_cons.mp mem with rfl | mem
          · rw [logged, List.count_append, List.count_singleton_self]
          · exact absurd awake (asleep q mem)
        rw [DeliversWakeUps, wakeUp_again first named blocked k, ready,
          List.length_singleton, List.length_cons]
        constructor
        · omega
        · intro few
          exact ⟨by omega, once⟩

/-! ### Two waiters -/

def waitEntryA : Pointer := pagePointer 2

def waitEntryB : Pointer := pagePointer 3

/-- An empty queue; all processes are blocked. -/
def noWaiters : WaitQueue where
  entries := ⟨none, fun _ => none⟩
  process := fun entry => if entry = waitEntryA then some procA else some procIdle
  scheduler := { schedulerZero with
    mlfq := { schedulerZero.mlfq with state := fun _ => .blocked } }
  added := []

/-- Two processes wait. -/
def twoWaiters : WaitQueue := addWaitQueue (addWaitQueue noWaiters waitEntryA) waitEntryB

theorem twoWaiters_waiting : Waiting twoWaiters [waitEntryB, waitEntryA] [procIdle, procA] := by
  have empty : Waiting noWaiters [] [] := ⟨rfl, rfl, List.nodup_nil, by simp⟩
  have one : Waiting (addWaitQueue noWaiters waitEntryA) [waitEntryA] [procA] :=
    empty.add (by simp) (by decide) (by simp) rfl
  exact one.add (by decide) (by decide) (by decide) rfl

theorem removeWaitQueue_holds_two :
    ∃ w', removeWaitQueue twoWaiters waitEntryA = some w' ∧ w'.entries.Holds [waitEntryB] := by
  obtain ⟨w', ran, left, -⟩ := removeWaitQueue_holds twoWaiters_waiting.holds waitEntryA
  exact ⟨w', ran, left⟩

theorem wakeUpAll_wakes_two :
    ∃ w', wakeUpAll twoWaiters = some w' ∧ w'.added = [procIdle, procA] ∧
      ∀ proc, w'.state proc = if proc ∈ [procIdle, procA] then .ready else .blocked :=
  wakeUpAll_wakes twoWaiters_waiting

/-- The first wake-up is delivered. -/
theorem wake_up_delivers_first : DeliversWakeUps twoWaiters [procIdle, procA] 1 :=
  (wake_up_delivers_iff twoWaiters [waitEntryB, waitEntryA] [procIdle, procA] 1
    twoWaiters_waiting).mpr
    (Or.inl le_rfl)

/-- The second one is not. -/
theorem wake_up_lost :
    Waiting twoWaiters [waitEntryB, waitEntryA] [procIdle, procA] ∧
      ¬DeliversWakeUps twoWaiters [procIdle, procA] 2 := by
  refine ⟨twoWaiters_waiting, fun delivers => ?_⟩
  exact absurd delivers.1 (by decide)

end EduOS
