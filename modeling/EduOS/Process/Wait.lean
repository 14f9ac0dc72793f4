import EduOS.Process.ProcessList

/-!
# Waiting for a child

`sys_waitpid` of `kernel/process/wait.c`.

A call that finds a terminated child writes its exit code, destroys it and returns its pid.
A call that finds a child that is still running blocks and calls `scheduler_schedule`; when
that comes back, whatever made the caller run again, the call returns the pid as well,
without a look at the child.  The call is therefore modelled in two parts: what it does by
itself, up to the return or up to `scheduler_schedule` (`sysWaitpid`), and the return after
other things have happened (`waitpidRun`).  What these are is left open: `waitpid_reports_iff`
is about any step function for the rest of the kernel.

`pid_t` is unsigned, so that an error number may be the pid that was asked for.
-/

namespace EduOS

open Function

/-! ## The source -/

/-- How far a call of `sys_waitpid` gets by itself. -/
inductive WaitProgress where
  /-- It has returned; `status` is what was stored for the caller. -/
  | returned (ret : ℕ) (status : Option ℕ) (s : ProcTable)
  /-- It is in `scheduler_schedule`, after the switch. -/
  | switched (s : ProcTable)

/-- `sys_waitpid`; `wanted` says that `status` is not `NULL`.  Without a result if the walk
over the process list does not end. -/
def sysWaitpid (s : ProcTable) (pid : ℕ) (wanted : Bool) (options : BitVec 32) (now : ℕ) :
    Option WaitProgress :=
  match s.sched.current with
  | none => some (.returned (sub32 0 esrch) none s)
  | some current =>
    (processFindByPid s pid).bind fun found =>
      match found with
      | none => some (.returned (sub32 0 echild) none s)
      | some child =>
        if s.parent child ≠ some current then some (.returned (sub32 0 echild) none s)
        else if s.sched.mlfq.state child = .terminated then
          some (.returned pid (if wanted then some (s.exitCode child) else none)
            (processDestroy s child))
        else if hasFlag options 1 then some (.returned 0 none s)
        else
          let s := s.setState current .blocked
          (schedulerSchedule s.sched now).map fun sched => .switched { s with sched := sched }

/-- A call of `sys_waitpid` from start to end: the value it returns, what it has stored and the
state it returns in.  The events are what happens between a switch to another process and the
moment the caller runs again. -/
def waitpidRun {ε : Type*} (step : ProcTable → ε → Option ProcTable) (s : ProcTable) (pid : ℕ)
    (wanted : Bool) (options : BitVec 32) (now : ℕ) (events : List ε) :
    Option (ℕ × Option ℕ × ProcTable) :=
  (sysWaitpid s pid wanted options now).bind fun progress =>
    match progress with
    | .returned ret status s => some (ret, status, s)
    | .switched s₁ =>
      (exec step s₁ events).bind fun s₂ =>
        if s₂.sched.current = s.sched.current ∧ s₂.sched.panicked = false then
          some (pid, none, s₂)
        else none

/-- A return of `pid` is the report of a finished child: it is `TERMINATED`, its exit code has
been stored, and it has been destroyed once. -/
def WaitReports (s : ProcTable) (pid ret : ℕ) (status : Option ℕ) (s' : ProcTable) : Prop :=
  ret = pid → ∃ child, processFindByPid s pid = some (some child) ∧
    s'.sched.mlfq.state child = .terminated ∧ status = some (s'.exitCode child) ∧
    s'.destroyed child = 1

/-- The call does not have to wait: the child is `TERMINATED` and not destroyed already, or
the result is an error number or 0, and not the pid that was asked for. -/
def WaitAtOnce (s : ProcTable) (pid : ℕ) (options : BitVec 32) : Prop :=
  match s.sched.current, processFindByPid s pid with
  | none, _ => pid ≠ sub32 0 esrch
  | some current, some (some child) =>
    if s.parent child ≠ some current then pid ≠ sub32 0 echild
    else if s.sched.mlfq.state child = .terminated then s.destroyed child = 0
    else hasFlag options 1 = true ∧ pid ≠ 0
  | some _, _ => pid ≠ sub32 0 echild

/-! ## Reports -/

/-- `process_destroy` leaves the state and the exit codes of all processes alone. -/
theorem processDestroy_fields (s : ProcTable) (proc : Pointer) :
    (processDestroy s proc).sched.mlfq.state = s.sched.mlfq.state ∧
      (processDestroy s proc).exitCode = s.exitCode ∧
      (processDestroy s proc).destroyed = update s.destroyed proc (s.destroyed proc + 1) := by
  unfold processDestroy
  dsimp only
  split <;> split <;> exact ⟨rfl, rfl, rfl⟩

/-- Nothing is reported without a status. -/
theorem waitReports_none {s s' : ProcTable} {pid ret : ℕ} :
    WaitReports s pid ret none s' ↔ pid ≠ ret := by
  constructor
  · rintro reports rfl
    obtain ⟨_, _, _, stored, _⟩ := reports rfl
    cases stored
  · exact fun other same => absurd same.symm other

/-- The report of a terminated child. -/
theorem waitReports_destroyed {s : ProcTable} {pid : ℕ} {child : Pointer}
    (found : processFindByPid s pid = some (some child))
    (finished : s.sched.mlfq.state child = .terminated) :
    WaitReports s pid pid (some (s.exitCode child)) (processDestroy s child) ↔
      s.destroyed child = 0 := by
  obtain ⟨states, codes, counts⟩ := processDestroy_fields s child
  constructor
  · intro reports
    obtain ⟨other, there, _, _, once⟩ := reports rfl
    obtain rfl : child = other := by simpa using found.symm.trans there
    rw [counts, update_self] at once
    omega
  · intro before _
    refine ⟨child, found, by rw [states, finished], by rw [codes], ?_⟩
    rw [counts, update_self, before]

/-- **`waitpid` reports only finished children** exactly if it does not have to wait.  For
every state and whatever happens while the caller waits, a call with a place for the status
that returns is as wanted if and only if its condition held at the call. -/
theorem waitpid_reports_iff {ε : Type*} (step : ProcTable → ε → Option ProcTable) (s s' : ProcTable)
    (pid : ℕ) (options : BitVec 32) (now : ℕ) (events : List ε) (ret : ℕ) (status : Option ℕ)
    (call : waitpidRun step s pid true options now events = some (ret, status, s')) :
    WaitReports s pid ret status s' ↔ WaitAtOnce s pid options := by
  obtain ⟨progress, started, ended⟩ := Option.bind_eq_some_iff.mp call
  unfold sysWaitpid at started
  unfold WaitAtOnce
  cases runs : s.sched.current with
  | none =>
    rw [runs] at started
    cases started
    cases ended
    exact waitReports_none
  | some current =>
    rw [runs] at started
    obtain ⟨found, walked, started⟩ := Option.bind_eq_some_iff.mp started
    rw [walked]
    cases found with
    | none =>
      cases started
      cases ended
      exact waitReports_none
    | some child =>
      dsimp only at started ⊢
      by_cases own : s.parent child ≠ some current
      · rw [if_pos own] at started ⊢
        cases started
        cases ended
        exact waitReports_none
      rw [if_neg own] at started ⊢
      by_cases finished : s.sched.mlfq.state child = .terminated
      · rw [if_pos finished] at started ⊢
        cases started
        cases ended
        exact waitReports_destroyed walked finished
      rw [if_neg finished] at started ⊢
      by_cases hang : hasFlag options 1 = true
      · rw [if_pos hang] at started
        cases started
        cases ended
        rw [waitReports_none, and_iff_right hang]
      -- the caller has waited: no status was stored
      rw [if_neg hang] at started
      obtain ⟨sched, _, rfl⟩ := Option.map_eq_some_iff.mp started
      obtain ⟨s₂, _, resumed⟩ := Option.bind_eq_some_iff.mp ended
      obtain ⟨_, same⟩ := Option.ite_none_right_eq_some.mp resumed
      cases same
      rw [waitReports_none]
      exact iff_of_false (fun other => other rfl) fun both => hang both.1

/-! ### A child that is reported too early -/

/-- What `create_user_process` does with the control block of the new process; the results of
`kmalloc` and `create_user_page_directory`. -/
def loadUserElf (allocated : Option Pointer) (directory : Option ℕ) (s : ProcTable) : ProcTable :=
  match allocated with
  | none => s
  | some proc =>
    let s := (s.zeroPcb proc).allocatePid proc
    match directory with
    | none => s
    | some cr3 => (s.setPageDir proc cr3).start proc

/-- The calls on the process table, those on the scheduler alone, and the start of a user
program. -/
inductive KernelEvent where
  | table (call : ProcCall)
  | sched (call : SchedCall)
  | load (allocated : Option Pointer) (directory : Option ℕ)

/-- One event; nothing happens after a panic. -/
def kernelStep (s : ProcTable) (event : KernelEvent) : Option ProcTable :=
  if s.sched.panicked then some s
  else
    match event with
    | .table call => procCall s call
    | .sched call => (schedCall s.sched call).map fun sched => { s with sched := sched }
    | .load allocated directory => some (loadUserElf allocated directory s)

def procB : Pointer := pagePointer 2

def procC : Pointer := pagePointer 3

def procD : Pointer := ⟨0x5000#32, by decide⟩

/-- A user program `A` is dispatched and forks `B`, a thread `C` is created, and `A` forks
`D`. -/
def family : List KernelEvent :=
  [.load (some procA) (some 0x6000), .table (.schedule 0),
    .table (.fork (some procB) true (some 0x7000)), .table (.create true (some procC) true),
    .table (.fork (some procD) true (some 0x8000))]

/-- `A` runs, and its child `B`, with pid 2, has exited with code 7. -/
def childDone : ProcTable :=
  { procZero with
    sched :=
      { schedulerZero with
        mlfq := schedulerZero.mlfq.setState procB .terminated
        current := some procA
        pid := update schedulerZero.pid procB 2 }
    head := some procB
    parent := update procZero.parent procB (some procA)
    exitCode := update procZero.exitCode procB 7
    live := [procB, procA] }

/-- `A` waits for `B`. -/
theorem waitpid_reports_done :
    waitpidRun kernelStep childDone 2 true 0 0 [] =
        some (2, some 7, processDestroy childDone procB) ∧
      WaitReports childDone 2 2 (some 7) (processDestroy childDone procB) := by
  have found : processFindByPid childDone 2 = some (some procB) := by decide +kernel
  have call : waitpidRun kernelStep childDone 2 true 0 0 [] =
      some (2, some 7, processDestroy childDone procB) := by
    rw [waitpidRun, sysWaitpid, found]
    rfl
  refine ⟨call, (waitpid_reports_iff kernelStep _ _ _ _ _ _ _ _ call).mpr ?_⟩
  rw [WaitAtOnce, found]
  rfl

/-- `A` waits for `D`, which has pid 5; `B` runs, a signal wakes `A` and the scheduler goes back
to it: the call returns 5, while `D` is `READY`, has not been destroyed and nothing has been
stored. -/
theorem waitpid_signalled :
    ((exec kernelStep (procBoot procZero procIdle true 0) family).bind fun s =>
        (waitpidRun kernelStep s 5 true 0 1
          [.sched (.sendSignal (some procA) 10), .table (.schedule 2)]).map
        fun (ret, status, s') => (s.sched.pid procD, ret, status, s'.sched.mlfq.state procD,
          s'.destroyed procD)) =
      some (5, 5, none, .ready, 0) := by
  decide +kernel

end EduOS
