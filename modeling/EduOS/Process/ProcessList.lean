import EduOS.Include.Errno
import EduOS.Library.SList
import EduOS.Process.Scheduler

/-!
# The process list

`process_create_kernel_thread`, `process_destroy` and `process_find_by_pid` of
`kernel/process/process.c`, and what `do_fork` of `kernel/process/fork.c` does with the
process control blocks.

The list of all processes runs through the `next` and `prev` fields of the processes, and
so do the run queues of the scheduler.  A new thread is put in front of the list, and the
`scheduler_add_process` that follows overwrites both its links: it is the last on its run
queue, so the list ends at it and the processes behind it are lost.  The child of a fork is
never put on the list at all.

After boot the list holds the idle process, which is on no run queue.  While it is the only
process, `process_find_by_pid` is right, whatever the scheduler does; and in a run that
keeps the idle process it is right only as long as no process is created
(`process_found_iff`).
-/

namespace EduOS

open Function

/-! ## The source -/

/-- The static variables of `process.c` and the fields of `struct process` that the
scheduler does not use.  Two records are added: the processes that have been created and not
destroyed, and how often each has been destroyed. -/
structure ProcTable where
  sched : Scheduler
  /-- `process_list_head` -/
  head : Option Pointer
  nextPid : ℕ
  processCount : ℕ
  parent : Pointer → Option Pointer
  exitCode : Pointer → ℕ
  live : List Pointer
  destroyed : Pointer → ℕ

namespace ProcTable

def links (s : ProcTable) : Queues ℕ Pointer := s.sched.mlfq.queues

/-- The run queues and links of the scheduler's part. -/
def setLinks (s : ProcTable) (links : Queues ℕ Pointer) : ProcTable :=
  { s with sched := { s.sched with mlfq := { s.sched.mlfq with queues := links } } }

/-- `proc->next = value` -/
def setNext (s : ProcTable) (proc : Pointer) (value : Option Pointer) : ProcTable :=
  s.setLinks { s.links with next := update s.links.next proc value }

/-- `proc->prev = value` -/
def setPrev (s : ProcTable) (proc : Pointer) (value : Option Pointer) : ProcTable :=
  s.setLinks { s.links with prev := update s.links.prev proc value }

/-- `proc->pid = process_allocate_pid()` -/
def allocatePid (s : ProcTable) (proc : Pointer) : ProcTable :=
  { s with
    sched := { s.sched with pid := update s.sched.pid proc s.nextPid }
    nextPid := u32 (s.nextPid + 1) }

/-- `memset(proc, 0, sizeof(struct process))` -/
def zeroPcb (s : ProcTable) (proc : Pointer) : ProcTable :=
  let s := (s.setNext proc none).setPrev proc none
  { s with
    sched :=
      { s.sched with
        mlfq :=
          { s.sched.mlfq with
            state := update s.sched.mlfq.state proc .new
            mlfqLevel := update s.sched.mlfq.mlfqLevel proc 0
            timeSlice := update s.sched.mlfq.timeSlice proc 0
            timeSliceRemaining := update s.sched.mlfq.timeSliceRemaining proc 0
            timeUsed := update s.sched.mlfq.timeUsed proc 0 }
        preemptCount := update s.sched.preemptCount proc 0
        pendingSignals := update s.sched.pendingSignals proc 0
        blockedSignals := update s.sched.blockedSignals proc 0
        pid := update s.sched.pid proc 0
        cr3 := update s.sched.cr3 proc 0 }
    parent := update s.parent proc none
    exitCode := update s.exitCode proc 0
    destroyed := update s.destroyed proc 0 }

/-- `memcpy(child, parent, sizeof(struct process))` -/
def copyPcb (s : ProcTable) (parent child : Pointer) : ProcTable :=
  let s := (s.setNext child (s.links.next parent)).setPrev child (s.links.prev parent)
  { s with
    sched :=
      { s.sched with
        mlfq :=
          { s.sched.mlfq with
            state := update s.sched.mlfq.state child (s.sched.mlfq.state parent)
            mlfqLevel :=
              update s.sched.mlfq.mlfqLevel child (s.sched.mlfq.mlfqLevel parent)
            timeSlice :=
              update s.sched.mlfq.timeSlice child (s.sched.mlfq.timeSlice parent)
            timeSliceRemaining := update s.sched.mlfq.timeSliceRemaining child
              (s.sched.mlfq.timeSliceRemaining parent)
            timeUsed := update s.sched.mlfq.timeUsed child (s.sched.mlfq.timeUsed parent) }
        preemptCount := update s.sched.preemptCount child (s.sched.preemptCount parent)
        pendingSignals :=
          update s.sched.pendingSignals child (s.sched.pendingSignals parent)
        blockedSignals :=
          update s.sched.blockedSignals child (s.sched.blockedSignals parent)
        pid := update s.sched.pid child (s.sched.pid parent)
        cr3 := update s.sched.cr3 child (s.sched.cr3 parent) }
    parent := update s.parent child (s.parent parent)
    exitCode := update s.exitCode child (s.exitCode parent)
    destroyed := update s.destroyed child 0 }

/-- `proc->state = state` -/
def setState (s : ProcTable) (proc : Pointer) (state : ProcessState) : ProcTable :=
  { s with sched := { s.sched with mlfq := s.sched.mlfq.setState proc state } }

/-- `proc->time_slice = 10; proc->time_slice_remaining = 10;` -/
def setTimeSlice (s : ProcTable) (proc : Pointer) : ProcTable :=
  { s with
    sched :=
      { s.sched with
        mlfq :=
          { s.sched.mlfq with
            timeSlice := update s.sched.mlfq.timeSlice proc 10
            timeSliceRemaining := update s.sched.mlfq.timeSliceRemaining proc 10 } } }

/-- `proc->page_dir`, with the directory at the physical address `cr3`. -/
def setPageDir (s : ProcTable) (proc : Pointer) (cr3 : ℕ) : ProcTable :=
  { s with sched := { s.sched with cr3 := update s.sched.cr3 proc cr3 } }

/-- `scheduler_add_process` of a process that is now complete. -/
def start (s : ProcTable) (proc : Pointer) : ProcTable :=
  { s with sched := schedulerAddProc s.sched proc, live := proc :: s.live }

/-- The process list. -/
def list (s : ProcTable) : SList Pointer := ⟨s.head, s.links.next⟩

/-- `proc->next = process_list_head; if (process_list_head) process_list_head->prev = proc;`
`process_list_head = proc; process_count++;` -/
def pushFront (s : ProcTable) (proc : Pointer) : ProcTable :=
  let s := s.setNext proc s.head
  let s := match s.head with
    | some first => s.setPrev first (some proc)
    | none => s
  { s with head := some proc, processCount := u32 (s.processCount + 1) }

end ProcTable

/-- `process_create_kernel_thread`; whether there is an entry function, the result of
`kmalloc` for the control block, and whether it gives a stack. -/
def processCreateKernelThread (entry : Bool) (allocated : Option Pointer) (stack : Bool)
    (s : ProcTable) : Option Pointer × ProcTable :=
  if !entry then (none, s)
  else
    match allocated with
    | none => (none, s)
    | some proc =>
      let s := ((s.zeroPcb proc).allocatePid proc).setTimeSlice proc
      if !stack then (none, s)
      else (some proc, ((s.pushFront proc).setState proc .ready).start proc)

/-- `do_fork`; the results of `kmalloc` as for a thread, and the directory that
`copy_page_directory` makes. -/
def doFork (allocated : Option Pointer) (stack : Bool) (directory : Option ℕ) (s : ProcTable) :
    ℤ × ProcTable :=
  match s.sched.current with
  | none => (-esrch, s)
  | some parent =>
    match allocated with
    | none => (-enomem, s)
    | some child =>
      let s := (s.copyPcb parent child).allocatePid child
      let s := { s with parent := update s.parent child (some parent) }
      let s := s.setState child .ready
      if !stack then (-enomem, s)
      else
        match directory with
        | none => (-enomem, s)
        | some cr3 =>
          let s := (s.setPageDir child cr3).start child
          ((BitVec.ofNat 32 (s.sched.pid child)).toInt, s)

/-- `process_destroy`, of a process. -/
def processDestroy (s : ProcTable) (proc : Pointer) : ProcTable :=
  let s := match s.links.prev proc with
    | some before => s.setNext before (s.links.next proc)
    | none => { s with head := s.links.next proc }
  let s := match s.links.next proc with
    | some after => s.setPrev after (s.links.prev proc)
    | none => s
  let s := s.setPageDir proc 0
  { s with
    processCount := sub32 s.processCount 1
    live := s.live.erase proc
    destroyed := update s.destroyed proc (s.destroyed proc + 1) }

/-- `process_find_by_pid`; `none` if the walk does not end. -/
def processFindByPid (s : ProcTable) (pid : ℕ) : Option (Option Pointer) :=
  s.list.find (fun proc => s.sched.pid proc = pid) (2 ^ 32)

/-- The state after `process_init`, `scheduler_init` and `mlfq_init`: the idle process is the
only one, has pid 1 and no links. -/
def procBoot (s : ProcTable) (idle : Pointer) (enabled : Bool) (now : ℕ) : ProcTable :=
  let s := { s with sched := schedulerBoot s.sched idle enabled now }
  let s := (s.setNext idle none).setPrev idle none
  { s with
    sched :=
      { s.sched with
        pid := update s.sched.pid idle 1
        cr3 := update s.sched.cr3 idle 0 }
    head := some idle
    nextPid := 2
    processCount := 1
    live := [idle] }

/-! ## The calls -/

/-- The calls on processes. -/
inductive ProcCall where
  | create (entry : Bool) (allocated : Option Pointer) (stack : Bool)
  | fork (allocated : Option Pointer) (stack : Bool) (directory : Option ℕ)
  | schedule (now : ℕ)
  | destroy (proc : Pointer)

/-- The call itself. -/
def procCall (s : ProcTable) : ProcCall → Option ProcTable
  | .create entry allocated stack => some (processCreateKernelThread entry allocated stack s).2
  | .fork allocated stack directory => some (doFork allocated stack directory s).2
  | .schedule now => (schedulerSchedule s.sched now).map fun sched => { s with sched := sched }
  | .destroy proc => some (processDestroy s proc)

/-- One call; nothing happens after a panic. -/
def procStep (s : ProcTable) (call : ProcCall) : Option ProcTable :=
  if s.sched.panicked then some s else procCall s call

/-- `kmalloc` gives memory that no process has, and only existing processes are
destroyed. -/
def ProcLegal (s : ProcTable) : ProcCall → Prop
  | .create _ allocated _ | .fork allocated _ _ => ∀ proc ∈ allocated, proc ∉ s.live
  | .schedule _ => True
  | .destroy proc => proc ∈ s.live

/-- `process_find_by_pid` finds a process with this pid if there is one, and nothing
otherwise. -/
def FindsLive (s : ProcTable) : Prop :=
  ∀ pid,
    (∀ proc ∈ s.live, s.sched.pid proc = pid →
      ∃ found ∈ s.live, s.sched.pid found = pid ∧ processFindByPid s pid = some (some found)) ∧
    ((∀ proc ∈ s.live, s.sched.pid proc ≠ pid) → processFindByPid s pid = some none)

/-- The call creates no process and does not destroy the idle process. -/
def CreatesNothing (s : ProcTable) : ProcCall → Prop
  | .create entry allocated stack =>
    s.sched.panicked = false → entry = false ∨ allocated = none ∨ stack = false
  | .fork allocated stack directory =>
    s.sched.panicked = false →
      s.sched.current = none ∨ allocated = none ∨ stack = false ∨ directory = none
  | .schedule _ => True
  | .destroy proc => s.sched.panicked = false → proc ≠ s.sched.idleProcess

/-- The idle process is kept, and the next pid is not in use. -/
def KeepsPids (s : ProcTable) : ProcCall → Prop
  | .create _ _ _ | .fork _ _ _ => ∀ proc ∈ s.live, s.sched.pid proc ≠ s.nextPid
  | .schedule _ => True
  | .destroy proc => proc ≠ s.sched.idleProcess

instance (s : ProcTable) : (call : ProcCall) → Decidable (ProcLegal s call)
  | .create _ allocated _ | .fork allocated _ _ => Option.decidableForallMem allocated
  | .schedule _ => inferInstanceAs (Decidable True)
  | .destroy proc => inferInstanceAs (Decidable (proc ∈ s.live))

instance (s : ProcTable) : (call : ProcCall) → Decidable (CreatesNothing s call)
  | .create _ _ _ | .fork _ _ _ | .destroy _ => inferInstanceAs (Decidable (_ → _))
  | .schedule _ => inferInstanceAs (Decidable True)

/-! ## The scheduler without processes -/

section

variable {m : Mlfq}

theorem mlfqBoostLevels_empty (empty : ∀ i, m.queues.head i = none) (n : ℕ) :
    mlfqBoostLevels n m = some m := by
  induction n with
  | zero => rfl
  | succ n ih =>
    have pass : mlfqBoostPass (n + 1) m = some (Sum.inr m) := by
      simp [mlfqBoostPass, empty]
    obtain ⟨passes, enough⟩ := Nat.exists_eq_succ_of_ne_zero (by simp : (2 : ℕ) ^ 32 ≠ 0)
    rw [mlfqBoostLevels, enough, loop_of_leave passes pass]
    exact ih

theorem mlfqBoostAll_empty (empty : ∀ i, m.queues.head i = none) (now : ℕ) :
    ∃ m', mlfqBoostAll m now = some m' ∧ m'.queues = m.queues := by
  unfold mlfqBoostAll
  dsimp only
  split
  · exact ⟨m, rfl, rfl⟩
  · refine ⟨{ m with boostTime := u64 now, boostCount := u64 (m.boostCount + 1) }, ?_, rfl⟩
    refine mlfqBoostLevels_empty ?_ _
    exact empty

theorem mlfqPickNext_empty (empty : ∀ i, m.queues.head i = none) : mlfqPickNext m = some none := by
  have levels : ∀ remaining level, mlfqPickFrom m remaining level = some none := by
    intro remaining
    induction remaining with
    | zero => exact fun _ => rfl
    | succ remaining ih =>
      intro level
      have none_here : mlfqPickLevel m level = some none := by
        simp [mlfqPickLevel, empty]
      rw [mlfqPickFrom, none_here]
      exact ih (level + 1)
  exact levels mlfqLevels 0

/-- With empty queues `scheduler_schedule` runs the idle process, if any, and leaves the links
alone. -/
theorem schedulerSchedule_empty {s : Scheduler} (now : ℕ) (empty : ∀ i, s.mlfq.queues.head i = none)
    (current : s.current = none ∨ s.current = some s.idleProcess) :
    ∃ s', schedulerSchedule s now = some s' ∧ s'.mlfq.queues = s.mlfq.queues ∧
      s'.idleProcess = s.idleProcess ∧
      (s'.current = none ∨ s'.current = some s.idleProcess) := by
  cases enabled : s.enabled with
  | false => exact ⟨s, by simp [schedulerSchedule, enabled], rfl, rfl, current⟩
  | true =>
    cases free : preemptible s with
    | false => exact ⟨s, by simp [schedulerSchedule, enabled, free], rfl, rfl, current⟩
    | true =>
      obtain ⟨m, boost, same⟩ := mlfqBoostAll_empty empty now
      have pick := mlfqPickNext_empty (m := m) (by rw [same]; exact empty)
      have run := schedulerSchedule_eq enabled free boost pick
      rcases current with first | idle
      · rw [first] at run
        refine ⟨_, run, ?_, (scheduleFirst_mlfq _ _).2, Or.inr ?_⟩
        · rw [(scheduleFirst_mlfq _ _).1]
          exact same
        · unfold scheduleFirst
          dsimp only
          split <;> rfl
      · rw [idle] at run
        refine ⟨_, run, ?_, ?_, Or.inr ?_⟩
        · simp only [scheduleSwitch, takeNext, putPrevious, Option.getD_none, ne_eq,
            not_true_eq_false, if_false]
          split <;> exact same
        · simp [scheduleSwitch]
        · simp [scheduleSwitch]

end

/-! ## The idle process alone -/

/-- The idle process is the only one: the list has it as its only element, and nothing is
queued. -/
structure IdleAlone (s : ProcTable) : Prop where
  live : s.live = [s.sched.idleProcess]
  head : s.head = some s.sched.idleProcess
  last : s.links.next s.sched.idleProcess = none
  empty : ∀ i, s.links.head i = none ∧ s.links.tail i = none
  current : s.sched.current = none ∨ s.sched.current = some s.sched.idleProcess

variable {proc : Pointer} {s' : ProcTable}

/-- A list of one process. -/
theorem processFindByPid_single {s : ProcTable} (head : s.head = some proc)
    (last : s.links.next proc = none) (pid : ℕ) :
    processFindByPid s pid = some (if s.sched.pid proc = pid then some proc else none) := by
  have holds : s.list.Holds [proc] := ⟨head, last⟩
  rw [processFindByPid, holds.find _ (by simp)]
  by_cases same : s.sched.pid proc = pid <;> simp [same]

namespace IdleAlone

variable {s : ProcTable}

theorem findsLive (alone : IdleAlone s) : FindsLive s := by
  intro pid
  rw [processFindByPid_single alone.head alone.last, alone.live]
  constructor
  · intro proc mem same
    obtain rfl := List.mem_singleton.mp mem
    exact ⟨_, List.mem_singleton_self _, same, by rw [if_pos same]⟩
  · intro none_has
    rw [if_neg (none_has _ (List.mem_singleton_self _))]

/-- The invariant only looks at the links of the idle process and the ends of the
queues. -/
theorem congr (alone : IdleAlone s) (live : s'.live = s.live)
    (idle : s'.sched.idleProcess = s.sched.idleProcess) (head : s'.head = s.head)
    (last : s'.links.next s.sched.idleProcess = s.links.next s.sched.idleProcess)
    (heads : s'.links.head = s.links.head) (tails : s'.links.tail = s.links.tail)
    (current : s'.sched.current = s.sched.current) : IdleAlone s' where
  live := by rw [live, idle, alone.live]
  head := by rw [head, idle, alone.head]
  last := by rw [idle, last, alone.last]
  empty := fun i => by rw [heads, tails]; exact alone.empty i
  current := by rw [current, idle]; exact alone.current

theorem ne_idle (alone : IdleAlone s) (unused : proc ∉ s.live) : proc ≠ s.sched.idleProcess := by
  rintro rfl
  exact unused (by rw [alone.live]; exact List.mem_singleton_self _)

end IdleAlone

theorem schedulerAddProc_queues (s : Scheduler) (proc : Pointer) :
    (schedulerAddProc s proc).mlfq.queues = s.mlfq.queues.pushBack 0 proc := by
  have top : clampLevel (((s.mlfq.setState proc .ready).setLevel proc 0).mlfqLevel proc) = 0 := by
    rw [Mlfq.setLevel_level_self]
    rfl
  simp only [schedulerAddProc, mlfqEnqueueProc, top]
  rfl

/-- What a started process leaves of the links if no other process is queued. -/
theorem start_next {s : ProcTable} (proc : Pointer) (empty : s.links.tail 0 = none) :
    (s.start proc).links.next = update s.links.next proc none := by
  show (schedulerAddProc s.sched proc).mlfq.queues.next = _
  rw [schedulerAddProc_queues]
  show (s.links.pushBack 0 proc).next = _
  simp [Queues.pushBack, empty]

/-- A new thread in front of the list changes links, the head and the count. -/
theorem pushFront_eq (s : ProcTable) (proc : Pointer) :
    ∃ next prev, s.pushFront proc =
      { s.setLinks { s.links with next := next, prev := prev } with
        head := some proc
        processCount := u32 (s.processCount + 1) } := by
  unfold ProcTable.pushFront
  dsimp only
  split
  · exact ⟨_, _, rfl⟩
  · exact ⟨_, _, rfl⟩

/-- A process that exists beside the only one on the list is not found. -/
theorem not_findsLive {s : ProcTable} {first : Pointer} (alive : proc ∈ s.live)
    (head : s.head = some first) (last : s.links.next first = none)
    (apart : s.sched.pid first ≠ s.sched.pid proc) : ¬FindsLive s := by
  intro finds
  obtain ⟨found, _, _, there⟩ := (finds (s.sched.pid proc)).1 proc alive rfl
  rw [processFindByPid_single head last, if_neg apart] at there
  cases there

namespace IdleAlone

variable {s : ProcTable}

/-- A call that creates no process. -/
theorem step (alone : IdleAlone s) {call : ProcCall} (legal : ProcLegal s call)
    (good : CreatesNothing s call) : ∃ s', procStep s call = some s' ∧ IdleAlone s' := by
  cases panicked : s.sched.panicked with
  | true => exact ⟨s, by simp [procStep, panicked], alone⟩
  | false =>
    have runs : procStep s call = procCall s call := by simp [procStep, panicked]
    rw [runs]
    cases call with
    | create entry allocated stack =>
      refine ⟨_, rfl, ?_⟩
      cases entry with
      | false => exact alone
      | true =>
        cases allocated with
        | none => exact alone
        | some proc =>
          obtain rfl : stack = false := by simpa using good panicked
          have other := alone.ne_idle (legal proc rfl)
          exact alone.congr rfl rfl rfl (update_of_ne other.symm _ _) rfl rfl rfl
    | fork allocated stack directory =>
      refine ⟨_, rfl, ?_⟩
      rcases alone.current with current | current
      · simpa only [doFork, current] using alone
      cases allocated with
      | none => simpa only [doFork, current] using alone
      | some child =>
        have other := alone.ne_idle (legal child rfl)
        have failed : stack = false ∨ directory = none := by
          simpa [current] using good panicked
        -- the child's block is filled in and given back
        have kept : IdleAlone (((s.copyPcb s.sched.idleProcess child).allocatePid child)) :=
          alone.congr rfl rfl rfl (update_of_ne other.symm _ _) rfl rfl rfl
        simp only [doFork, current]
        rcases failed with rfl | rfl
        · exact kept.congr rfl rfl rfl rfl rfl rfl rfl
        · cases stack with
          | true => exact kept.congr rfl rfl rfl rfl rfl rfl rfl
          | false => exact kept.congr rfl rfl rfl rfl rfl rfl rfl
    | schedule now =>
      obtain ⟨sched, run, links, idle, current⟩ := schedulerSchedule_empty now
        (fun i => (alone.empty i).1) alone.current
      refine ⟨{ s with sched := sched }, by simp [procCall, run], ?_⟩
      refine ⟨?_, ?_, ?_, ?_, ?_⟩
      · exact alone.live.trans (by rw [idle])
      · exact alone.head.trans (by rw [idle])
      · show sched.mlfq.queues.next sched.idleProcess = none
        rw [links, idle]
        exact alone.last
      · show ∀ i, sched.mlfq.queues.head i = none ∧ sched.mlfq.queues.tail i = none
        rw [links]
        exact alone.empty
      · show sched.current = none ∨ sched.current = some sched.idleProcess
        rw [idle]
        exact current
    | destroy proc =>
      have mem : proc ∈ s.live := legal
      rw [alone.live] at mem
      exact absurd (List.mem_singleton.mp mem) (good panicked)

/-- A new thread hides the idle process. -/
theorem create_breaks (alone : IdleAlone s) (unused : proc ∉ s.live)
    (fresh : s.sched.pid s.sched.idleProcess ≠ s.nextPid) :
    ¬FindsLive (processCreateKernelThread true (some proc) true s).2 := by
  have other := alone.ne_idle unused
  obtain ⟨next, prev, pushed⟩ :=
    pushFront_eq (((s.zeroPcb proc).allocatePid proc).setTimeSlice proc) proc
  simp only [processCreateKernelThread, Bool.not_true, Bool.false_eq_true, if_false, pushed]
  generalize made : ProcTable.setState _ proc .ready = s₁
  have tail : s₁.links.tail 0 = none := by rw [← made]; exact (alone.empty 0).2
  have head : (s₁.start proc).head = some proc := by rw [← made]; rfl
  have live : s₁.live = s.live := by rw [← made]; rfl
  have pid : s₁.sched.pid = update (update s.sched.pid proc 0) proc s.nextPid := by
    rw [← made]; rfl
  have last : (s₁.start proc).links.next proc = none := by
    rw [start_next proc tail, update_self]
  have alive : s.sched.idleProcess ∈ (s₁.start proc).live := by
    show s.sched.idleProcess ∈ proc :: s₁.live
    simp [live, alone.live]
  refine not_findsLive alive head last ?_
  show s₁.sched.pid proc ≠ s₁.sched.pid s.sched.idleProcess
  rw [pid, update_self, update_of_ne other.symm, update_of_ne other.symm]
  exact fresh.symm

/-- The child of a fork is not on the list. -/
theorem fork_breaks (alone : IdleAlone s) {child : Pointer} {cr3 : ℕ} (unused : child ∉ s.live)
    (fresh : s.sched.pid s.sched.idleProcess ≠ s.nextPid)
    (current : s.sched.current = some s.sched.idleProcess) :
    ¬FindsLive (doFork (some child) true (some cr3) s).2 := by
  have other := alone.ne_idle unused
  simp only [doFork, current, Bool.not_true, Bool.false_eq_true, if_false]
  generalize made : ProcTable.setPageDir _ child cr3 = s₁
  have tail : s₁.links.tail 0 = none := by rw [← made]; exact (alone.empty 0).2
  have head : (s₁.start child).head = some s.sched.idleProcess := by
    rw [← made]
    exact alone.head
  have next : s₁.links.next s.sched.idleProcess = none := by
    rw [← made]
    exact (update_of_ne other.symm _ _).trans alone.last
  have pid : s₁.sched.pid = update
      (update s.sched.pid child (s.sched.pid s.sched.idleProcess)) child s.nextPid := by
    rw [← made]; rfl
  have last : (s₁.start child).links.next s.sched.idleProcess = none := by
    rw [start_next child tail, update_of_ne other.symm, next]
  have alive : child ∈ (s₁.start child).live := List.mem_cons_self
  refine not_findsLive alive head last ?_
  show s₁.sched.pid s.sched.idleProcess ≠ s₁.sched.pid child
  rw [pid, update_self, update_of_ne other.symm, update_of_ne other.symm]
  exact fresh

/-- A process created while the idle process is the only one is lost, or hides it. -/
theorem breaks (alone : IdleAlone s) {call : ProcCall} (legal : ProcLegal s call)
    (kept : KeepsPids s call) (bad : ¬CreatesNothing s call)
    (stepped : procStep s call = some s') : ¬FindsLive s' := by
  have idle_live : s.sched.idleProcess ∈ s.live := by simp [alone.live]
  cases panicked : s.sched.panicked with
  | true =>
    -- nothing happens after a panic, so the call is not a bad one
    cases call with
    | schedule now => exact absurd trivial bad
    | create => exact absurd (fun no => absurd (panicked.symm.trans no) (by simp)) bad
    | fork => exact absurd (fun no => absurd (panicked.symm.trans no) (by simp)) bad
    | destroy => exact absurd (fun no => absurd (panicked.symm.trans no) (by simp)) bad
  | false =>
    have runs : procStep s call = procCall s call := by simp [procStep, panicked]
    rw [runs] at stepped
    cases call with
    | create entry allocated stack =>
      obtain ⟨rfl, allocates, rfl⟩ : entry = true ∧ allocated ≠ none ∧ stack = true := by
        simpa [CreatesNothing, panicked] using bad
      obtain ⟨proc, rfl⟩ := Option.ne_none_iff_exists'.mp allocates
      cases stepped
      exact alone.create_breaks (legal proc rfl) (kept _ idle_live)
    | fork allocated stack directory =>
      obtain ⟨forks, allocates, rfl, copies⟩ : s.sched.current ≠ none ∧ allocated ≠ none ∧
          stack = true ∧ directory ≠ none := by
        simpa [CreatesNothing, panicked] using bad
      obtain ⟨child, rfl⟩ := Option.ne_none_iff_exists'.mp allocates
      obtain ⟨cr3, rfl⟩ := Option.ne_none_iff_exists'.mp copies
      cases stepped
      exact alone.fork_breaks (legal child rfl) (kept _ idle_live)
        (alone.current.resolve_left forks)
    | schedule now => exact absurd trivial bad
    | destroy proc => exact absurd (fun _ => kept) bad

end IdleAlone

/-! ## Lookup by pid -/

/-- **Process lookup.**  From boot, `process_find_by_pid` is right in every state of a run in
which no process is created and the idle process is not destroyed.  Among the runs that keep
the idle process and give out no pid twice at a time, there is no other run in which it is
right in every state. -/
theorem process_found_iff (s : ProcTable) (idle : Pointer) (enabled : Bool) (now : ℕ)
    (calls : List ProcCall)
    (legal : Allowed procStep ProcLegal (procBoot s idle enabled now) calls) :
    (Allowed procStep CreatesNothing (procBoot s idle enabled now) calls →
      Throughout procStep FindsLive (procBoot s idle enabled now) calls) ∧
    (Allowed procStep KeepsPids (procBoot s idle enabled now) calls →
      Throughout procStep FindsLive (procBoot s idle enabled now) calls →
      Allowed procStep CreatesNothing (procBoot s idle enabled now) calls) := by
  have start : IdleAlone (procBoot s idle enabled now) :=
    ⟨rfl, rfl, update_self _ _ _, fun _ => ⟨rfl, rfl⟩, Or.inl rfl⟩
  constructor
  · intro good
    have all := allowed_and.mpr ⟨legal, good⟩
    refine (throughout_iff_allowed IdleAlone (fun _ => IdleAlone.findsLive) ?_ ?_ calls _ start
      all).mpr all
    · exact fun s call alone all _ => alone.step all.1 all.2
    · exact fun _ _ _ all bad => absurd all bad
  · intro kept
    refine (throughout_iff_allowed IdleAlone (fun _ => IdleAlone.findsLive) ?_ ?_ calls _ start
      (allowed_and.mpr ⟨legal, kept⟩)).mp
    · exact fun s call alone all good => alone.step all.1 good
    · exact fun s call alone all bad s' stepped => alone.breaks all.1 all.2 bad stepped

/-- Zeroed memory. -/
def procZero : ProcTable where
  sched := schedulerZero
  head := none
  nextPid := 1
  processCount := 0
  parent := fun _ => none
  exitCode := fun _ => 0
  live := []
  destroyed := fun _ => 0

/-- The idle process is dispatched, a fork fails, and the idle process is dispatched
again. -/
theorem process_found_idle :
    Throughout procStep FindsLive (procBoot procZero procIdle true 0)
      [.schedule 0, .fork (some procA) true none, .schedule 1] :=
  (process_found_iff procZero procIdle true 0 _ (by decide +kernel)).1 (by decide +kernel)

/-- A thread is created after boot: the idle process, with pid 1, is not found any more. -/
theorem process_lost :
    (exec procStep (procBoot procZero procIdle true 0) [.create true (some procA) true]).map
        (fun s => (s.live, s.sched.pid procIdle, processFindByPid s 1)) =
      some ([procA, procIdle], 1, some none) := by
  decide +kernel

end EduOS
