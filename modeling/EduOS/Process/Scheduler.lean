import EduOS.Process.Mlfq

/-!
# The scheduler

`kernel/process/scheduler.c` under its MLFQ policy (the only one it is ever set
to) and the wake-up of `send_signal_to_process` in `kernel/process/signal.c`.

The scheduler keeps a process on the run queues exactly while it is `READY`.
`scheduler_schedule` works in three steps that have to be taken together for
this to hold: the process to run next is only looked at, the outgoing process is
enqueued, and then the chosen one is dequeued.  `SchedCore` is the invariant,
with one lemma per step.

Two places do not keep it, and `scheduler_run_sound_iff` shows that they are the
only ones: the first dispatch sets the chosen process running without taking it
off its queue, and a signal sets a blocked process `READY` without putting it on
one.

A `panic` stops the machine: the state is kept and nothing happens any more.  A
context switch is the end of a call as far as the data modelled here is
concerned; what the switched-to process does next is another call.
-/

namespace EduOS

open Function

/-- `_NSIG` -/
def nsig : ℤ := 32

/-- The static variable `scheduler`, the flag `scheduler_locked` and the fields of
`struct process` they are used with. -/
structure Scheduler where
  mlfq : Mlfq
  current : Option Pointer
  idleProcess : Pointer
  enabled : Bool
  totalSwitches : ℕ
  schedulerLocked : Bool
  preemptCount : Pointer → ℤ
  pendingSignals : Pointer → BitVec 32
  blockedSignals : Pointer → BitVec 32
  pid : Pointer → ℕ
  /-- The physical address of the page directory, `0` for processes without
  one. -/
  cr3 : Pointer → ℕ
  /-- Whether `panic` has been called. -/
  panicked : Bool

/-- `process_set_state` -/
def Mlfq.setState (m : Mlfq) (proc : Pointer) (state : ProcessState) : Mlfq :=
  { m with state := update m.state proc state }

/-- `proc->time_used = 0` -/
def Mlfq.resetTimeUsed (m : Mlfq) (proc : Pointer) : Mlfq :=
  { m with timeUsed := update m.timeUsed proc 0 }

/-- The state when the kernel has run `scheduler_init` and `mlfq_init`: the idle
process exists, is `READY` and was wiped off the queues; no other process has been
added yet. -/
def schedulerBoot (s : Scheduler) (idle : Pointer) (enabled : Bool) (now : ℕ) : Scheduler :=
  { s with
    mlfq :=
      { mlfqInit s.mlfq now with
        state := update (fun _ => .new) idle .ready
        mlfqLevel := update s.mlfq.mlfqLevel idle 0 }
    current := none
    idleProcess := idle
    enabled := enabled
    totalSwitches := 0
    panicked := false }

/-- `preempt_disable` -/
def preemptDisable (s : Scheduler) : Scheduler :=
  let s :=
    match s.current with
    | some proc =>
      { s with
        preemptCount := update s.preemptCount proc
          (Int.bmod (s.preemptCount proc + 1) (2 ^ 32)) }
    | none => s
  { s with schedulerLocked := true }

/-- `preempt_enable` -/
def preemptEnable (s : Scheduler) : Scheduler :=
  match s.current with
  | some proc =>
    let count := s.preemptCount proc
    let count := if count > 0 then count - 1 else count
    { s with
      preemptCount := update s.preemptCount proc count
      schedulerLocked := if count = 0 then false else s.schedulerLocked }
  | none => { s with schedulerLocked := false }

/-- `preemptible` -/
def preemptible (s : Scheduler) : Bool :=
  match s.current with
  | some proc => s.preemptCount proc = 0 && !s.schedulerLocked
  | none => true

/-- `scheduler_add_process` of a process. -/
def schedulerAddProc (s : Scheduler) (proc : Pointer) : Scheduler :=
  { s with mlfq := mlfqEnqueueProc ((s.mlfq.setState proc .ready).setLevel proc 0) proc }

/-- `scheduler_add_process` -/
def schedulerAddProcess (s : Scheduler) : Option Pointer → Scheduler
  | none => s
  | some proc => schedulerAddProc s proc

/-- How a call of `context_switch` ends. -/
inductive SwitchOutcome
  /-- It returns without switching. -/
  | refused
  /-- It panics. -/
  | fatal
  /-- The next process runs. -/
  | switched

/-- `context_switch`, to a process. -/
def contextSwitch (s : Scheduler) (next : Pointer) : SwitchOutcome :=
  if s.schedulerLocked then .refused
  else if s.cr3 next = 0 ∧ s.pid next ≠ 1 then .fatal
  else .switched

/-- `panic` -/
def Scheduler.panic (s : Scheduler) : Scheduler := { s with panicked := true }

/-- `process_set_state(next, PROCESS_STATE_RUNNING); next->time_used = 0;` -/
def Mlfq.startRun (m : Mlfq) (next : Pointer) : Mlfq :=
  (m.setState next .running).resetTimeUsed next

/-- The branch of `scheduler_schedule` for the first dispatch. -/
def scheduleFirst (s : Scheduler) (next : Pointer) : Scheduler :=
  let s :=
    { s with
      mlfq := s.mlfq.startRun next
      current := some next
      totalSwitches := u64 (s.totalSwitches + 1) }
  match contextSwitch s next with
  | .switched => s
  | _ => s.panic

/-- What `scheduler_schedule` does with the outgoing process. -/
def putPrevious (idle : Pointer) (m : Mlfq) (prev : Pointer) : Mlfq :=
  if m.state prev = .running then
    let m := (m.setState prev .ready).resetTimeUsed prev
    if prev ≠ idle then mlfqEnqueueProc m prev else m
  else m

/-- What `scheduler_schedule` does with the chosen process. -/
def takeNext (idle : Pointer) (m : Mlfq) (next : Pointer) : Mlfq :=
  (if next ≠ idle then mlfqDequeueProc m next else m).startRun next

/-- The branch of `scheduler_schedule` for a switch from `prev`. -/
def scheduleSwitch (s : Scheduler) (prev next : Pointer) : Scheduler :=
  let m := takeNext s.idleProcess (putPrevious s.idleProcess s.mlfq prev) next
  let s := { s with mlfq := m, current := some next }
  if prev ≠ next then
    let s := { s with totalSwitches := u64 (s.totalSwitches + 1) }
    match contextSwitch s next with
    | .fatal => s.panic
    | _ => s
  else s

/-- `scheduler_schedule`, with the timer reading that `mlfq_boost_all` takes. -/
def schedulerSchedule (s : Scheduler) (now : ℕ) : Option Scheduler :=
  if !s.enabled then some s
  else if !preemptible s then some s
  else do
    let m ← mlfqBoostAll s.mlfq now
    let choice ← mlfqPickNext m
    let next := choice.getD s.idleProcess
    let s := { s with mlfq := m }
    match s.current with
    | none => some (scheduleFirst s next)
    | some prev => some (scheduleSwitch s prev next)

/-- `scheduler_tick` -/
def schedulerTick (s : Scheduler) (now : ℕ) : Option Scheduler :=
  match s.current with
  | none => some s
  | some current =>
    if !s.enabled then some s
    else if !preemptible s then some s
    else do
      let m ← mlfqTick s.mlfq (some current)
      let s := { s with mlfq := m }
      if m.timeSliceRemaining current = 0 then schedulerSchedule s now else some s

/-- `1U << (sig - 1)` -/
def signalMask (sig : ℤ) : BitVec 32 := 1#32 <<< (sig - 1).toNat

/-- `send_signal_to_process` -/
def sendSignalToProcess (s : Scheduler) (proc : Option Pointer) (sig : ℤ) : ℤ × Scheduler :=
  match proc with
  | none => (-1, s)
  | some proc =>
    if sig < 1 ∨ sig ≥ nsig then (-1, s)
    else
      let s :=
        { s with
          pendingSignals := update s.pendingSignals proc
            (s.pendingSignals proc ||| signalMask sig) }
      if s.mlfq.state proc = .blocked ∧ !hasFlag (s.blockedSignals proc) (signalMask sig) then
        (0, { s with mlfq := s.mlfq.setState proc .ready })
      else (0, s)

/-! ## The calls -/

/-- What happens to the scheduler: the calls of its interface, signals, and the
running process setting its own state to `BLOCKED`. -/
inductive SchedCall
  | addProcess (proc : Option Pointer)
  | schedule (now : ℕ)
  | tick (now : ℕ)
  | sendSignal (proc : Option Pointer) (sig : ℤ)
  | block
  | preemptDisable
  | preemptEnable

/-- The call itself. -/
def schedCall (s : Scheduler) : SchedCall → Option Scheduler
  | .addProcess proc => some (schedulerAddProcess s proc)
  | .schedule now => schedulerSchedule s now
  | .tick now => schedulerTick s now
  | .sendSignal proc sig => some (sendSignalToProcess s proc sig).2
  | .block =>
    match s.current with
    | some proc => some { s with mlfq := s.mlfq.setState proc .blocked }
    | none => some s
  | .preemptDisable => some (preemptDisable s)
  | .preemptEnable => some (preemptEnable s)

/-- One call; nothing happens after a panic. -/
def schedStep (s : Scheduler) (call : SchedCall) : Option Scheduler :=
  if s.panicked then some s else schedCall s call

/-- A process is added if it is new or was blocked, the idle process never; only
the running process blocks itself. -/
def schedLegal (s : Scheduler) : SchedCall → Prop
  | .addProcess (some proc) =>
    proc ≠ s.idleProcess ∧ s.mlfq.state proc ≠ .ready ∧ s.mlfq.state proc ≠ .running
  | .block => ∃ proc, s.current = some proc ∧ s.mlfq.state proc = .running
  | _ => True

instance (s : Scheduler) : (call : SchedCall) → Decidable (schedLegal s call)
  | .addProcess (some _) => inferInstanceAs (Decidable (_ ∧ _))
  | .block => inferInstanceAs (Decidable (∃ proc ∈ s.current, _))
  | .addProcess none | .schedule _ | .tick _ | .sendSignal _ _ | .preemptDisable
  | .preemptEnable => inferInstanceAs (Decidable True)

/-! ## The invariant -/

/-- The processes on the run queues are the `READY` ones, the idle process apart.
The levels of the running and the idle process are in range, so that a tick finds
its counter. -/
structure SchedCore (m : Mlfq) (idle : Pointer) (lists : ℕ → List Pointer) : Prop where
  queued : MlfqLists m lists
  listed : ∀ i, ∀ p ∈ lists i, m.state p = .ready ∧ p ≠ idle
  ready : ∀ p, p ≠ idle → m.state p = .ready → ∃ i, p ∈ lists i
  running_level : ∀ p, m.state p = .running ∨ p = idle →
    0 ≤ m.mlfqLevel p ∧ m.mlfqLevel p < mlfqLevels

section

variable {m : Mlfq} {idle proc : Pointer} {lists : ℕ → List Pointer}

section

variable (core : SchedCore m idle lists)
include core

theorem SchedCore.off_lists (busy : m.state proc ≠ .ready) (i : ℕ) : proc ∉ lists i :=
  fun mem => busy (core.listed i proc mem).1

theorem SchedCore.idle_off_lists (i : ℕ) : idle ∉ lists i :=
  fun mem => (core.listed i idle mem).2 rfl

/-- The invariant does not look at the timing fields. -/
theorem SchedCore.congr {m' : Mlfq} (queues : m'.queues = m.queues) (count : m'.count = m.count)
    (state : m'.state = m.state) (level : m'.mlfqLevel = m.mlfqLevel) :
    SchedCore m' idle lists := by
  refine ⟨core.queued.congr queues count fun _ _ _ => by rw [level], ?_, ?_, ?_⟩
  · rw [state]
    exact core.listed
  · rw [state]
    exact core.ready
  · rw [state, level]
    exact core.running_level

/-- Giving a process that is on no list another state; only the idle process may be
`READY` there. -/
theorem SchedCore.setState {state : ProcessState}
    (off : ∀ i, proc ∉ lists i) (busy : proc = idle ∨ state ≠ .ready)
    (level : state = .running → 0 ≤ m.mlfqLevel proc ∧ m.mlfqLevel proc < mlfqLevels) :
    SchedCore (m.setState proc state) idle lists := by
  refine ⟨core.queued.congr rfl rfl fun _ _ _ => rfl, ?_, ?_, ?_⟩
  · intro i p mem
    have other : p ≠ proc := ne_of_mem_of_not_mem mem (off i)
    simpa [Mlfq.setState, other] using core.listed i p mem
  · intro p not_idle ready
    by_cases same : p = proc
    · subst same
      exact absurd (by simpa [Mlfq.setState] using ready) (busy.resolve_left not_idle)
    · exact core.ready p not_idle (by simpa [Mlfq.setState, same] using ready)
  · intro p running
    by_cases same : p = proc
    · subst same
      rcases running with running | rfl
      · exact level (by simpa [Mlfq.setState] using running)
      · exact core.running_level p (Or.inr rfl)
    · refine core.running_level p ?_
      simpa [Mlfq.setState, same] using running

theorem SchedCore.setIdle (state : ProcessState) : SchedCore (m.setState idle state) idle lists :=
  core.setState core.idle_off_lists (Or.inl rfl) fun _ => core.running_level idle (Or.inr rfl)

/-- Giving a process that is on no list another level. -/
theorem SchedCore.setLevel (off : ∀ i, proc ∉ lists i) {level : ℤ}
    (low : 0 ≤ level) (high : level < mlfqLevels) :
    SchedCore (m.setLevel proc level) idle lists := by
  refine ⟨core.queued.setLevel off level, core.listed, core.ready, ?_⟩
  intro p running
  by_cases same : p = proc
  · subst same
    rw [Mlfq.setLevel_level_self]
    exact ⟨low, high⟩
  · simpa [Mlfq.setLevel, same] using core.running_level p running

/-- Making a process `READY` and enqueueing it. -/
theorem SchedCore.enqueue (off : ∀ i, proc ∉ lists i) (not_idle : proc ≠ idle) :
    ∃ lists', SchedCore (mlfqEnqueueProc (m.setState proc .ready) proc) idle lists' ∧
      ∀ p, (∃ i, p ∈ lists i) → ∃ i, p ∈ lists' i := by
  have inv : MlfqLists (m.setState proc .ready) lists :=
    core.queued.congr rfl rfl fun _ _ _ => rfl
  refine ⟨_, ⟨mlfqEnqueueProc_lists inv off, ?_, ?_, ?_⟩, ?_⟩
  · intro i p mem
    rcases Queues.mem_update_concat.mp mem with old | ⟨_, rfl⟩
    · have other : p ≠ proc := ne_of_mem_of_not_mem old (off i)
      simpa [mlfqEnqueueProc, Mlfq.setState, other] using core.listed i p old
    · exact ⟨by simp [mlfqEnqueueProc, Mlfq.setState], not_idle⟩
  · intro p p_not_idle ready
    by_cases same : p = proc
    · exact ⟨_, Queues.mem_update_concat.mpr (Or.inr ⟨rfl, same⟩)⟩
    · have old : m.state p = .ready := by
        simpa [mlfqEnqueueProc, Mlfq.setState, same] using ready
      obtain ⟨i, mem⟩ := core.ready p p_not_idle old
      exact ⟨i, Queues.mem_update_concat.mpr (Or.inl mem)⟩
  · intro p running
    have other : p ≠ proc := by
      rintro rfl
      rcases running with running | rfl
      · simp [mlfqEnqueueProc, Mlfq.setState] at running
      · exact not_idle rfl
    have old : m.state p = .running ∨ p = idle := by
      simpa [mlfqEnqueueProc, Mlfq.setState, other] using running
    simpa [mlfqEnqueueProc, Mlfq.setState, other] using core.running_level p old
  · rintro p ⟨i, mem⟩
    exact ⟨i, Queues.mem_update_concat.mpr (Or.inl mem)⟩

/-- Taking a process off its list to run it. -/
theorem SchedCore.dispatch {i : ℕ} (mem : proc ∈ lists i) :
    ∃ lists', SchedCore ((mlfqDequeueProc m proc).startRun proc) idle lists' := by
  obtain ⟨front, back, at_proc⟩ := List.append_of_mem mem
  have removed := mlfqDequeueProc_lists core.queued at_proc
  rw [mlfqDequeueProc_eq core.queued mem] at removed ⊢
  have kept : ∀ j p, p ∈ update lists i (front ++ back) j ↔ p ∈ lists j ∧ p ≠ proc :=
    fun _ _ => core.queued.family.mem_update_remove at_proc
  have state : ∀ p, p ≠ proc → update m.state proc .running p = m.state p := fun p other =>
    update_of_ne other _ _
  refine ⟨_, removed.congr rfl rfl fun _ _ _ => rfl, fun j p inside => ?_,
    fun p not_idle ready => ?_,
    fun p running => ?_⟩
  · obtain ⟨old, other⟩ := (kept j p).mp inside
    exact (core.listed j p old).imp_left (state p other).trans
  · have other : p ≠ proc := by
      rintro rfl
      simp [Mlfq.startRun, Mlfq.resetTimeUsed, Mlfq.setState] at ready
    obtain ⟨j, old⟩ := core.ready p not_idle ((state p other).symm.trans ready)
    exact ⟨j, (kept j p).mpr ⟨old, other⟩⟩
  · by_cases same : p = proc
    · subst same
      have inside := core.queued.lt_of_mem mem
      simp only [Mlfq.startRun, Mlfq.resetTimeUsed, Mlfq.setState, core.queued.level_eq i p mem]
      omega
    · exact core.running_level p (running.imp_left (state p same).symm.trans)

/-- The boost keeps the invariant and the set of listed processes. -/
theorem SchedCore.boost (now : ℕ) :
    ∃ m' lists', mlfqBoostAll m now = some m' ∧ SchedCore m' idle lists' ∧
      m'.state = m.state ∧ ∀ p, (∃ i, p ∈ lists' i) ↔ ∃ i, p ∈ lists i := by
  obtain ⟨m', lists', result, state, level, inv, same⟩ := mlfqBoostAll_lists core.queued now
  refine ⟨m', lists', result, ⟨inv, ?_, ?_, ?_⟩, state, same⟩
  · intro i p mem
    obtain ⟨j, old⟩ := (same p).mp ⟨i, mem⟩
    rw [state]
    exact core.listed j p old
  · intro p not_idle ready
    rw [state] at ready
    exact (same p).mpr (core.ready p not_idle ready)
  · intro p running
    rw [state] at running
    have off : ∀ i, p ∉ lists i := by
      rcases running with running | rfl
      · exact core.off_lists (by simp [running])
      · exact core.idle_off_lists
    rw [level p off]
    exact core.running_level p running

/-- The choice: nothing if no process is listed, and otherwise a listed one. -/
theorem SchedCore.pick :
    ((∀ i, lists i = []) ∧ mlfqPickNext m = some none) ∨
      ∃ i p, p ∈ lists i ∧ mlfqPickNext m = some (some p) := by
  have runnable : ∀ i, ∀ p ∈ lists i, m.runnable p = true := by
    intro i p mem
    simp [Mlfq.runnable, (core.listed i p mem).1]
  rcases mlfqPickNext_cases core.queued runnable with nobody | ⟨i, p, rest, at_p, choice⟩
  · exact Or.inl nobody
  · exact Or.inr ⟨i, p, by simp [at_p], choice⟩

theorem SchedCore.putPrevious (prev : Pointer) :
    ∃ lists', SchedCore (putPrevious idle m prev) idle lists' ∧
      ∀ p, (∃ i, p ∈ lists i) → ∃ i, p ∈ lists' i := by
  unfold EduOS.putPrevious
  by_cases running : m.state prev = .running
  · rw [if_pos running]
    by_cases idles : prev = idle
    · subst idles
      rw [if_neg (by simp)]
      exact ⟨lists, (core.setIdle .ready).congr rfl rfl rfl rfl, fun _ => id⟩
    · rw [if_pos idles]
      have reset : SchedCore (m.resetTimeUsed prev) idle lists := core.congr rfl rfl rfl rfl
      exact reset.enqueue (core.off_lists (by simp [running])) idles
  · rw [if_neg running]
    exact ⟨lists, core, fun _ => id⟩

theorem SchedCore.takeNext {next : Pointer} (chosen : next = idle ∨ ∃ i, next ∈ lists i) :
    ∃ lists', SchedCore (takeNext idle m next) idle lists' := by
  unfold EduOS.takeNext
  by_cases idles : next = idle
  · subst idles
    rw [if_neg (by simp)]
    exact ⟨lists, (core.setIdle .running).congr rfl rfl rfl rfl⟩
  · rw [if_pos idles]
    obtain ⟨i, mem⟩ := chosen.resolve_left idles
    exact core.dispatch mem

theorem SchedCore.tick (proc : Pointer) :
    ∃ m', mlfqTick m (some proc) = some m' ∧ SchedCore m' idle lists := by
  unfold mlfqTick
  dsimp only
  by_cases running : m.state proc = .running
  · rw [if_pos running]
    have range := core.running_level proc (Or.inl running)
    have off : ∀ i, proc ∉ lists i := core.off_lists (by simp [running])
    obtain ⟨m', level, result, low, high, queues, count, state, levels⟩ :=
      mlfqTickProc_cases range.1 range.2
    exact ⟨m', result, (core.setLevel off low high).congr queues count state levels⟩
  · rw [if_neg running]
    exact ⟨m, rfl, core⟩

end

end

/-! ## Every sequence of calls -/

/-- The invariant of a state: its queues are in order, for some lists. -/
def SchedInv (s : Scheduler) : Prop := ∃ lists, SchedCore s.mlfq s.idleProcess lists

/-- What the scheduler promises about a state, with `lists` the lists of its five
levels. -/
structure SchedSound (s : Scheduler) (lists : ℕ → List Pointer) : Prop where
  well_formed : ∀ i < mlfqLevels, s.mlfq.queues.Holds i (lists i)
  ready : ∀ p, p ≠ s.idleProcess → s.mlfq.state p = .ready →
    ∃ i < mlfqLevels, s.mlfq.mlfqLevel p = i ∧ p ∈ lists i ∧ ∀ j < mlfqLevels, p ∈ lists j → j = i
  busy : ∀ p, s.mlfq.state p = .running ∨ s.mlfq.state p = .blocked → ∀ i < mlfqLevels, p ∉ lists i
  counts : ∀ i < mlfqLevels, s.mlfq.count i = (lists i).length

variable {s : Scheduler}

theorem SchedCore.sound {lists : ℕ → List Pointer} (core : SchedCore s.mlfq s.idleProcess lists) :
    SchedSound s lists := by
  refine ⟨fun i _ => core.queued.family.holds i, ?_, ?_, fun i _ => core.queued.count_eq i⟩
  · intro p not_idle ready
    obtain ⟨i, mem⟩ := core.ready p not_idle ready
    refine ⟨i, core.queued.lt_of_mem mem, core.queued.level_eq i p mem, mem, ?_⟩
    intro j _ there
    exact core.queued.level_unique there mem
  · rintro p (running | blocked) i _
    · exact core.off_lists (by simp [running]) i
    · exact core.off_lists (by simp [blocked]) i

/-- The call is neither a first dispatch while a process is queued, nor a signal
that wakes a blocked process. -/
def schedGood (s : Scheduler) : SchedCall → Prop
  | .schedule _ =>
    s.panicked = false → s.enabled = true → s.current = none →
      ∀ i < mlfqLevels, s.mlfq.queues.head i = none
  | .sendSignal (some proc) sig =>
    s.panicked = false → 1 ≤ sig → sig < nsig → proc ≠ s.idleProcess →
      s.mlfq.state proc = .blocked → hasFlag (s.blockedSignals proc) (signalMask sig) = true
  | _ => True

instance (s : Scheduler) : (call : SchedCall) → Decidable (schedGood s call)
  | .schedule _ => inferInstanceAs (Decidable (_ → _ → _ → ∀ i < mlfqLevels, _))
  | .sendSignal (some _) _ => inferInstanceAs (Decidable (_ → _ → _ → _ → _ → _))
  | .sendSignal none _ | .addProcess _ | .tick _ | .block | .preemptDisable
  | .preemptEnable => inferInstanceAs (Decidable True)

theorem scheduleSwitch_inv {lists : ℕ → List Pointer} {prev next : Pointer}
    (core : SchedCore s.mlfq s.idleProcess lists)
    (chosen : next = s.idleProcess ∨ ∃ i, next ∈ lists i) :
    SchedInv (scheduleSwitch s prev next) := by
  obtain ⟨lists₁, core₁, more⟩ := core.putPrevious prev
  obtain ⟨lists₂, core₂⟩ := core₁.takeNext (chosen.imp_right (more next))
  refine ⟨lists₂, ?_⟩
  unfold scheduleSwitch
  dsimp only
  split
  · split
    · exact core₂
    · exact core₂
  · exact core₂

/-- The first dispatch only changes the state of the process it starts. -/
theorem scheduleFirst_mlfq (s : Scheduler) (next : Pointer) :
    (scheduleFirst s next).mlfq = s.mlfq.startRun next ∧
      (scheduleFirst s next).idleProcess = s.idleProcess := by
  unfold scheduleFirst
  dsimp only
  split <;> exact ⟨rfl, rfl⟩

theorem schedulerSchedule_eq {now : ℕ} {m : Mlfq} {choice : Option Pointer}
    (enabled : s.enabled = true) (free : preemptible s = true)
    (boost : mlfqBoostAll s.mlfq now = some m) (pick : mlfqPickNext m = some choice) :
    schedulerSchedule s now =
      match s.current with
      | none => some (scheduleFirst { s with mlfq := m } (choice.getD s.idleProcess))
      | some prev =>
        some (scheduleSwitch { s with mlfq := m } prev (choice.getD s.idleProcess)) := by
  simp only [schedulerSchedule, enabled, free, boost, Bool.not_true, Bool.false_eq_true, if_false]
  show (mlfqPickNext m >>= _) = _
  rw [pick]
  rfl

section

variable (inv : SchedInv s)
include inv

/-- A call of `scheduler_schedule` with a current process, or with nothing
queued. -/
theorem schedulerSchedule_inv (now : ℕ)
    (good : s.enabled = true → s.current = none → ∀ i < mlfqLevels, s.mlfq.queues.head i = none) :
    ∃ s', schedulerSchedule s now = some s' ∧ SchedInv s' := by
  obtain ⟨lists, core⟩ := inv
  cases enabled : s.enabled with
  | false => exact ⟨s, by simp [schedulerSchedule, enabled], lists, core⟩
  | true =>
    cases free : preemptible s with
    | false => exact ⟨s, by simp [schedulerSchedule, free], lists, core⟩
    | true =>
      obtain ⟨m, lists', boost, core', _, same⟩ := core.boost now
      obtain ⟨choice, pick, chosen⟩ : ∃ choice, mlfqPickNext m = some choice ∧
          (choice.getD s.idleProcess = s.idleProcess ∨
            ∃ i, choice.getD s.idleProcess ∈ lists' i) := by
        rcases core'.pick with ⟨_, pick⟩ | ⟨i, p, mem, pick⟩
        · exact ⟨none, pick, Or.inl rfl⟩
        · exact ⟨some p, pick, Or.inr ⟨i, mem⟩⟩
      rw [schedulerSchedule_eq enabled free boost pick]
      cases current : s.current with
      | some prev => exact ⟨_, rfl, scheduleSwitch_inv core' chosen⟩
      | none =>
        -- nothing is queued, so the idle process is started
        have nobody : ∀ i, lists' i = [] := by
          intro i
          by_contra nonempty
          obtain ⟨p, mem⟩ := List.exists_mem_of_ne_nil _ nonempty
          obtain ⟨j, there⟩ := (same p).mp ⟨i, mem⟩
          have head := (core.queued.family.holds j).head_eq
          rw [good enabled current j (core.queued.lt_of_mem there)] at head
          rw [List.head?_eq_none_iff.mp head.symm] at there
          simp at there
        have idles : choice.getD s.idleProcess = s.idleProcess := by
          refine chosen.resolve_right ?_
          rintro ⟨i, mem⟩
          rw [nobody i] at mem
          simp at mem
        rw [idles]
        refine ⟨_, rfl, lists', ?_⟩
        rw [(scheduleFirst_mlfq _ _).1, (scheduleFirst_mlfq _ _).2]
        exact (core'.setIdle .running).congr rfl rfl rfl rfl

theorem schedulerTick_inv (now : ℕ) : ∃ s', schedulerTick s now = some s' ∧ SchedInv s' := by
  obtain ⟨lists, core⟩ := inv
  unfold schedulerTick
  cases current : s.current with
  | none => exact ⟨s, rfl, lists, core⟩
  | some proc =>
    cases enabled : s.enabled with
    | false => exact ⟨s, rfl, lists, core⟩
    | true =>
      cases free : preemptible s with
      | false => exact ⟨s, rfl, lists, core⟩
      | true =>
        obtain ⟨m, tick, core'⟩ := core.tick proc
        simp only [tick, Bool.not_true, Bool.false_eq_true, if_false, Option.bind_eq_bind,
          Option.bind_some]
        split
        · refine schedulerSchedule_inv ⟨lists, core'⟩ now ?_
          intro _ none_current
          simp at none_current
        · exact ⟨_, rfl, lists, core'⟩

theorem sendSignalToProcess_inv (proc : Option Pointer) (sig : ℤ)
    (good : ∀ p, proc = some p → 1 ≤ sig → sig < nsig → p ≠ s.idleProcess →
      s.mlfq.state p = .blocked → hasFlag (s.blockedSignals p) (signalMask sig) = true) :
    SchedInv (sendSignalToProcess s proc sig).2 := by
  obtain ⟨lists, core⟩ := inv
  cases proc with
  | none => exact ⟨lists, core⟩
  | some p =>
    unfold sendSignalToProcess
    dsimp only
    split
    · exact ⟨lists, core⟩
    split
    · rename_i wakes
      by_cases idles : p = s.idleProcess
      · subst idles
        exact ⟨lists, core.setIdle .ready⟩
      · have flag := good p rfl (by omega) (by omega) idles wakes.1
        simp [flag] at wakes
    · exact ⟨lists, core⟩

/-- **One call.**  A call that is good keeps the invariant. -/
theorem schedStep_inv {call : SchedCall} (legal : schedLegal s call)
    (good : schedGood s call) : ∃ s', schedStep s call = some s' ∧ SchedInv s' := by
  unfold schedStep
  cases panicked : s.panicked with
  | true => exact ⟨s, rfl, inv⟩
  | false =>
    simp only [Bool.false_eq_true, if_false]
    cases call with
    | addProcess proc =>
      cases proc with
      | none => exact ⟨s, rfl, inv⟩
      | some p =>
        obtain ⟨lists, core⟩ := inv
        obtain ⟨not_idle, not_ready, not_running⟩ := legal
        have off := core.off_lists not_ready
        obtain ⟨lists', core', _⟩ :=
          (core.setLevel off le_rfl (by simp [mlfqLevels])).enqueue off not_idle
        exact ⟨_, rfl, lists', core'⟩
    | schedule now => exact schedulerSchedule_inv inv now (good panicked)
    | tick now => exact schedulerTick_inv inv now
    | sendSignal proc sig =>
      refine ⟨_, rfl, sendSignalToProcess_inv inv proc sig ?_⟩
      rintro p rfl
      exact good panicked
    | block =>
      obtain ⟨lists, core⟩ := inv
      obtain ⟨p, current, running⟩ := legal
      refine ⟨_, by simp [schedCall, current]; rfl, lists, ?_⟩
      exact core.setState (core.off_lists (by simp [running])) (Or.inr (by simp)) (by simp)
    | preemptDisable =>
      obtain ⟨lists, core⟩ := inv
      refine ⟨_, rfl, lists, ?_⟩
      unfold preemptDisable
      split <;> exact core
    | preemptEnable =>
      obtain ⟨lists, core⟩ := inv
      refine ⟨_, rfl, lists, ?_⟩
      unfold preemptEnable
      split <;> exact core

/-- A first dispatch while a process is queued leaves a running process on its
list. -/
theorem schedulerSchedule_breaks {s' : Scheduler} {now : ℕ}
    (enabled : s.enabled = true) (first : s.current = none) {i : ℕ}
    (queued : s.mlfq.queues.head i ≠ none) (step : schedulerSchedule s now = some s')
    (lists : ℕ → List Pointer) : ¬SchedSound s' lists := by
  obtain ⟨lists₀, core⟩ := inv
  obtain ⟨m, lists₁, boost, core₁, _, same⟩ := core.boost now
  have free : preemptible s = true := by simp [preemptible, first]
  obtain ⟨j, next, mem, pick⟩ : ∃ j p, p ∈ lists₁ j ∧ mlfqPickNext m = some (some p) := by
    refine core₁.pick.resolve_left ?_
    rintro ⟨nobody, _⟩
    rw [(core.queued.family.holds i).head_eq, ne_eq, List.head?_eq_none_iff] at queued
    obtain ⟨p, waits⟩ := List.exists_mem_of_ne_nil _ queued
    obtain ⟨k, still⟩ := (same p).mpr ⟨i, waits⟩
    rw [nobody k] at still
    simp at still
  rw [schedulerSchedule_eq enabled free boost pick, first] at step
  cases step
  intro sound
  have inside := core₁.queued.lt_of_mem mem
  have mlfq := (scheduleFirst_mlfq { s with mlfq := m } next).1
  have holds := sound.well_formed j inside
  have running : (scheduleFirst { s with mlfq := m } next).mlfq.state next = .running := by
    rw [mlfq]
    simp [Mlfq.startRun, Mlfq.resetTimeUsed, Mlfq.setState]
  refine sound.busy next (Or.inl running) j inside ?_
  have old : (scheduleFirst { s with mlfq := m } next).mlfq.queues.Holds j (lists₁ j) := by
    rw [mlfq]
    exact core₁.queued.family.holds j
  rw [holds.unique old]
  exact mem

/-- A signal that wakes a blocked process leaves a `READY` process on no list. -/
theorem sendSignalToProcess_breaks {proc : Pointer} {sig : ℤ} (low : 1 ≤ sig)
    (high : sig < nsig) (not_idle : proc ≠ s.idleProcess) (blocked : s.mlfq.state proc = .blocked)
    (unblocked : hasFlag (s.blockedSignals proc) (signalMask sig) = false)
    (lists : ℕ → List Pointer) : ¬SchedSound (sendSignalToProcess s (some proc) sig).2 lists := by
  obtain ⟨lists₀, core⟩ := inv
  have valid : ¬(sig < 1 ∨ sig ≥ nsig) := by omega
  simp only [sendSignalToProcess, if_neg valid, blocked, unblocked, Bool.not_false, and_self,
    if_true]
  intro sound
  obtain ⟨i, inside, _, mem, _⟩ := sound.ready proc not_idle (by simp [Mlfq.setState])
  have holds := sound.well_formed i inside
  rw [holds.unique (core.queued.family.holds i)] at mem
  exact core.off_lists (by simp [blocked]) i mem

/-- A call that is not good breaks the promise at once. -/
theorem schedStep_breaks {s' : Scheduler} {call : SchedCall}
    (bad : ¬schedGood s call) (step : schedStep s call = some s') :
    ¬∃ lists, SchedSound s' lists := by
  rintro ⟨lists, sound⟩
  unfold schedStep at step
  cases call with
  | schedule now =>
    simp only [schedGood, not_forall] at bad
    obtain ⟨panicked, enabled, first, i, _, queued⟩ := bad
    simp only [panicked, Bool.false_eq_true, if_false] at step
    exact schedulerSchedule_breaks inv enabled first queued step lists sound
  | sendSignal proc sig =>
    cases proc with
    | none => exact bad trivial
    | some p =>
      simp only [schedGood, not_forall] at bad
      obtain ⟨panicked, low, high, not_idle, blocked, unblocked⟩ := bad
      simp only [panicked, Bool.false_eq_true, if_false, schedCall] at step
      cases step
      exact sendSignalToProcess_breaks inv low high not_idle blocked (by simpa using unblocked)
        lists sound
  | addProcess proc => exact bad trivial
  | tick now => exact bad trivial
  | block => exact bad trivial
  | preemptDisable => exact bad trivial
  | preemptEnable => exact bad trivial

end

theorem schedulerBoot_inv (s : Scheduler) (idle : Pointer) (enabled : Bool) (now : ℕ) :
    SchedInv (schedulerBoot s idle enabled now) := by
  refine ⟨fun _ => [], ?_, by simp, ?_, ?_⟩
  · exact (mlfqInit_lists s.mlfq now).congr rfl rfl fun _ _ mem => by simp at mem
  · intro p not_idle ready
    have other : p ≠ idle := not_idle
    simp [schedulerBoot, other] at ready
  · intro p running
    have idles : p = idle := by
      rcases running with running | same
      · by_contra other
        simp [schedulerBoot, other] at running
      · exact same
    subst idles
    simp [schedulerBoot, mlfqLevels]

/-- **When the run queues hold the `READY` processes.**  From boot, along every
sequence of calls in which only new or blocked processes are added and only the
running process blocks itself, the promise holds in every state exactly if no
first dispatch is made while a process is queued and no signal wakes a blocked
process. -/
theorem scheduler_run_sound_iff (s : Scheduler) (idle : Pointer) (enabled : Bool) (now : ℕ)
    (calls : List SchedCall)
    (legal : Allowed schedStep schedLegal (schedulerBoot s idle enabled now) calls) :
    (∀ front back, calls = front ++ back →
        ∃ s', exec schedStep (schedulerBoot s idle enabled now) front = some s' ∧
          ∃ lists, SchedSound s' lists) ↔
      Allowed schedStep schedGood (schedulerBoot s idle enabled now) calls := by
  rw [← throughout_iff_append]
  refine throughout_iff_allowed SchedInv (fun s inv => ?_) ?_ ?_ calls _
    (schedulerBoot_inv s idle enabled now) legal
  · obtain ⟨lists, core⟩ := inv
    exact ⟨lists, core.sound⟩
  · intro s call inv legal good
    exact schedStep_inv inv legal good
  · intro s call inv _ bad s' step
    exact schedStep_breaks inv bad step

/-! ### Two processes -/

def procIdle : Pointer := pagePointer 1

/-- Zeroed memory in which every process may be switched to. -/
def schedulerZero : Scheduler where
  mlfq :=
    { queues := ⟨fun _ => none, fun _ => none, fun _ => none, fun _ => none⟩
      count := fun _ => 0
      timeQuantum := fun _ => 0
      boostTime := 0
      totalCount := 0
      levelChanges := fun _ => 0
      boostCount := 0
      state := fun _ => .new
      mlfqLevel := fun _ => 0
      timeSlice := fun _ => 0
      timeSliceRemaining := fun _ => 0
      timeUsed := fun _ => 0 }
  current := none
  idleProcess := procIdle
  enabled := false
  totalSwitches := 0
  schedulerLocked := false
  preemptCount := fun _ => 0
  pendingSignals := fun _ => 0
  blockedSignals := fun _ => 0
  pid := fun _ => 1
  cr3 := fun _ => 0x5000
  panicked := false

/-- The idle process is dispatched first, a process is added, runs and blocks. -/
theorem scheduler_run_sound_idle_first :
    ∃ s', exec schedStep (schedulerBoot schedulerZero procIdle true 0)
        [.schedule 0, .addProcess (some procA), .schedule 1, .block] = some s' ∧
      ∃ lists, SchedSound s' lists := by
  exact (scheduler_run_sound_iff schedulerZero procIdle true 0 _ (by decide)).mpr (by decide) _ []
    (List.append_nil _).symm

/-- The two defects.  A process that is added before the first dispatch is
dispatched without being dequeued: it runs, and it is the head of level `0`.  A
process that blocks and is sent a signal is `READY`, and all lists are empty. -/
theorem scheduler_run_unsound :
    (∃ s', exec schedStep (schedulerBoot schedulerZero procIdle true 0)
        [.addProcess (some procA), .schedule 0] = some s' ∧ ¬∃ lists, SchedSound s' lists) ∧
      ∃ s', exec schedStep (schedulerBoot schedulerZero procIdle true 0)
        [.schedule 0, .addProcess (some procA), .schedule 1, .block,
          .sendSignal (some procA) 1] = some s' ∧ ¬∃ lists, SchedSound s' lists := by
  constructor
  · refine ⟨_, rfl, ?_⟩
    rintro ⟨lists, sound⟩
    have first := (sound.well_formed 0 (by decide)).head_eq
    have not_queued := sound.busy procA (Or.inl (by decide)) 0 (by decide)
    exact not_queued (List.mem_of_head? (first.symm.trans (by decide)))
  · refine ⟨_, rfl, ?_⟩
    rintro ⟨lists, sound⟩
    obtain ⟨i, inside, _, member, _⟩ := sound.ready procA (by decide) (by decide)
    have none_queued : ∀ i < mlfqLevels, (lists i).head? = none := by
      intro i inside
      refine (sound.well_formed i inside).head_eq.symm.trans ?_
      revert i
      decide
    rw [List.head?_eq_none_iff.mp (none_queued i inside)] at member
    simp at member

end EduOS
