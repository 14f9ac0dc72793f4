import EduOS.Library.Queue
import EduOS.Library.Run
import EduOS.Library.Word

/-!
# The multi-level feedback queue

`kernel/process/mlfq_sched.c`: five run queues threaded through the `next` and
`prev` fields of `struct process`.  A process that uses up its time slice is
moved down a level when it is enqueued next; every so often all processes are
moved back to the top.

`MlfqLists m lists` says that queue `i` is a well-formed list of the processes
`lists i`, that its counter is its length and that `mlfq_level` of every process
on it is `i`.  The lemmas about enqueueing, dequeueing and boosting give the
exact lists afterwards, `mlfqPickNext_eq` the exact choice.
-/

namespace EduOS

open Function List

/-- `process_state_t` -/
inductive ProcessState
  | new
  | ready
  | running
  | blocked
  | terminated
deriving DecidableEq, Repr

def mlfqLevels : ℕ := 5

def mlfqBaseQuantum : ℕ := 100

def mlfqBoostInterval : ℕ := 1000

/-- The static variable `mlfq` and the fields of `struct process` that its
functions use. -/
structure Mlfq where
  /-- `next` and `prev` of every process, `head` and `tail` of every level. -/
  queues : Queues ℕ Pointer
  count : ℕ → ℕ
  timeQuantum : ℕ → ℕ
  boostTime : ℕ
  totalCount : ℕ
  levelChanges : ℤ → ℕ
  boostCount : ℕ
  state : Pointer → ProcessState
  mlfqLevel : Pointer → ℤ
  timeSlice : Pointer → ℕ
  timeSliceRemaining : Pointer → ℕ
  timeUsed : Pointer → ℕ

/-- `mlfq_init`, with the timer reading it takes; the fields of the processes are
whatever they were. -/
def mlfqInit (m : Mlfq) (now : ℕ) : Mlfq :=
  { m with
    queues := m.queues.reset
    count := fun _ => 0
    timeQuantum := fun i => mlfqBaseQuantum * 2 ^ i
    boostTime := u64 now
    totalCount := 0
    levelChanges := fun _ => 0
    boostCount := 0 }

/-- `proc->mlfq_level = level` -/
def Mlfq.setLevel (m : Mlfq) (proc : Pointer) (level : ℤ) : Mlfq :=
  { m with mlfqLevel := update m.mlfqLevel proc level }

/-- The range check of `mlfq_enqueue`. -/
def clampLevel (level : ℤ) : ℕ :=
  let level := if level < 0 then 0 else level
  let level := if level ≥ mlfqLevels then (mlfqLevels : ℤ) - 1 else level
  level.toNat

/-- `mlfq_enqueue` of a process. -/
def mlfqEnqueueProc (m : Mlfq) (proc : Pointer) : Mlfq :=
  let level := clampLevel (m.mlfqLevel proc)
  { m with
    mlfqLevel := update m.mlfqLevel proc level
    timeSlice := update m.timeSlice proc (m.timeQuantum level)
    timeSliceRemaining := update m.timeSliceRemaining proc (m.timeQuantum level)
    timeUsed := update m.timeUsed proc 0
    queues := m.queues.pushBack level proc
    count := update m.count level (u32 (m.count level + 1))
    totalCount := u32 (m.totalCount + 1) }

/-- `mlfq_enqueue` -/
def mlfqEnqueue (m : Mlfq) : Option Pointer → Mlfq
  | none => m
  | some proc => mlfqEnqueueProc m proc

/-- `mlfq_dequeue` of a process. -/
def mlfqDequeueProc (m : Mlfq) (proc : Pointer) : Mlfq :=
  let level := m.mlfqLevel proc
  if level < 0 ∨ level ≥ mlfqLevels then m
  else
    let i := level.toNat
    { m with
      queues := m.queues.remove i proc
      count := update m.count i (if m.count i > 0 then m.count i - 1 else m.count i)
      totalCount := if m.totalCount > 0 then m.totalCount - 1 else m.totalCount }

/-- `mlfq_dequeue` -/
def mlfqDequeue (m : Mlfq) : Option Pointer → Mlfq
  | none => m
  | some proc => mlfqDequeueProc m proc

/-- `proc->state == PROCESS_STATE_READY || proc->state == PROCESS_STATE_RUNNING` -/
def Mlfq.runnable (m : Mlfq) (proc : Pointer) : Bool :=
  m.state proc = .ready ∨ m.state proc = .running

/-- One pass of the walk over a queue in `mlfq_pick_next`. -/
def mlfqPickPass (m : Mlfq) : Option Pointer → Option (Option Pointer ⊕ Option Pointer)
  | none => some (Sum.inr none)
  | some proc =>
    if m.runnable proc then some (Sum.inr (some proc))
    else some (Sum.inl (m.queues.next proc))

/-- The search of one level. -/
def mlfqPickLevel (m : Mlfq) (level : ℕ) : Option (Option Pointer) :=
  if m.count level > 0 ∧ m.queues.head level ≠ none then
    loop (mlfqPickPass m) (2 ^ 32) (m.queues.head level)
  else
    some none

/-- The search of `remaining` levels, starting with `level`. -/
def mlfqPickFrom (m : Mlfq) : (remaining level : ℕ) → Option (Option Pointer)
  | 0, _ => some none
  | remaining + 1, level =>
    match mlfqPickLevel m level with
    | none => none
    | some (some proc) => some (some proc)
    | some none => mlfqPickFrom m remaining (level + 1)

/-- `mlfq_pick_next` -/
def mlfqPickNext (m : Mlfq) : Option (Option Pointer) := mlfqPickFrom m mlfqLevels 0

/-- `mlfq_tick` of a running process.  `level_changes` is an array of
`MLFQ_LEVELS` entries, so a level out of range is a fault. -/
def mlfqTickProc (m : Mlfq) (proc : Pointer) : Option Mlfq :=
  let remaining := m.timeSliceRemaining proc
  let remaining := if remaining > 0 then remaining - 1 else remaining
  let m :=
    { m with
      timeUsed := update m.timeUsed proc (u32 (m.timeUsed proc + 1))
      timeSliceRemaining := update m.timeSliceRemaining proc remaining }
  if remaining = 0 then
    let oldLevel : ℤ := m.mlfqLevel proc
    let newLevel : ℤ := oldLevel + 1
    let newLevel : ℤ := if newLevel ≥ mlfqLevels then (mlfqLevels : ℤ) - 1 else newLevel
    if newLevel ≠ oldLevel then
      if oldLevel < 0 ∨ oldLevel ≥ mlfqLevels then none
      else
        some
          { m with
            mlfqLevel := update m.mlfqLevel proc newLevel
            levelChanges :=
              update m.levelChanges oldLevel (u64 (m.levelChanges oldLevel + 1)) }
    else some m
  else some m

/-- `mlfq_tick` -/
def mlfqTick (m : Mlfq) : Option Pointer → Option Mlfq
  | none => some m
  | some proc => if m.state proc = .running then mlfqTickProc m proc else some m

/-- One pass of the loop that empties a level in `mlfq_boost_all`. -/
def mlfqBoostPass (level : ℕ) (m : Mlfq) : Option (Mlfq ⊕ Mlfq) :=
  match m.queues.head level with
  | none => some (Sum.inr m)
  | some proc =>
    if m.count level > 0 then
      let m := (mlfqDequeue m (some proc)).setLevel proc 0
      some (Sum.inl (mlfqEnqueue m (some proc)))
    else
      some (Sum.inr m)

/-- `for (level = MLFQ_LEVELS - 1; level > 0; level--)` -/
def mlfqBoostLevels : ℕ → Mlfq → Option Mlfq
  | 0, m => some m
  | level + 1, m => (loop (mlfqBoostPass (level + 1)) (2 ^ 32) m).bind (mlfqBoostLevels level)

/-- `mlfq_boost_all`, with the timer reading it takes. -/
def mlfqBoostAll (m : Mlfq) (now : ℕ) : Option Mlfq :=
  let currentTime := u64 now
  if sub64 currentTime m.boostTime < mlfqBoostInterval then some m
  else
    mlfqBoostLevels (mlfqLevels - 1)
      { m with boostTime := currentTime, boostCount := u64 (m.boostCount + 1) }

/-! ## The lists -/

/-- Level `i` is a well-formed list of the processes `lists i`, whose
`mlfq_level` is `i`, and its counter is its length. -/
structure MlfqLists (m : Mlfq) (lists : ℕ → List Pointer) : Prop where
  family : m.queues.Family lists
  beyond : ∀ i, mlfqLevels ≤ i → lists i = []
  count_eq : ∀ i, m.count i = (lists i).length
  level_eq : ∀ i, ∀ p ∈ lists i, m.mlfqLevel p = i

theorem mlfqInit_lists (m : Mlfq) (now : ℕ) : MlfqLists (mlfqInit m now) fun _ => [] :=
  ⟨Queues.family_reset _, fun _ _ => rfl, fun _ => rfl, fun _ p mem => by simp at mem⟩

section

variable {m : Mlfq} {lists : ℕ → List Pointer} {proc : Pointer}

variable {i level : ℕ}

theorem MlfqLists.lt_of_mem (inv : MlfqLists m lists) (mem : proc ∈ lists i) :
    i < mlfqLevels := by
  by_contra outside
  rw [inv.beyond i (by omega)] at mem
  simp at mem

/-- A process is on at most one list. -/
theorem MlfqLists.level_unique (inv : MlfqLists m lists) {j : ℕ} (at_i : proc ∈ lists i)
    (at_j : proc ∈ lists j) : i = j := by
  have same := (inv.level_eq i proc at_i).symm.trans (inv.level_eq j proc at_j)
  exact_mod_cast same

/-- The lists only depend on the queues, the counters and the levels of the
processes on them. -/
theorem MlfqLists.congr {m' : Mlfq} (inv : MlfqLists m lists) (queues : m'.queues = m.queues)
    (count : m'.count = m.count)
    (level : ∀ i, ∀ p ∈ lists i, m'.mlfqLevel p = m.mlfqLevel p) : MlfqLists m' lists := by
  refine ⟨by rw [queues]; exact inv.family, inv.beyond, ?_, ?_⟩
  · intro i
    rw [count]
    exact inv.count_eq i
  · intro i p mem
    rw [level i p mem]
    exact inv.level_eq i p mem

theorem Mlfq.setLevel_level_self (m : Mlfq) (proc : Pointer) (level : ℤ) :
    (m.setLevel proc level).mlfqLevel proc = level := by
  simp [Mlfq.setLevel]

/-- The level of a process on no list is free. -/
theorem MlfqLists.setLevel (inv : MlfqLists m lists) (off : ∀ i, proc ∉ lists i) (level : ℤ) :
    MlfqLists (m.setLevel proc level) lists := by
  refine inv.congr rfl rfl ?_
  intro i p mem
  have other : p ≠ proc := ne_of_mem_of_not_mem mem (off i)
  exact update_of_ne other _ _

theorem clampLevel_lt (level : ℤ) : clampLevel level < mlfqLevels := by
  unfold clampLevel mlfqLevels
  dsimp only
  split <;> split <;> omega

theorem mlfqEnqueueProc_lists (inv : MlfqLists m lists) (fresh : ∀ i, proc ∉ lists i) :
    MlfqLists (mlfqEnqueueProc m proc)
      (update lists (clampLevel (m.mlfqLevel proc))
        (lists (clampLevel (m.mlfqLevel proc)) ++ [proc])) := by
  have small := clampLevel_lt (m.mlfqLevel proc)
  unfold mlfqEnqueueProc
  generalize clampLevel (m.mlfqLevel proc) = level at small ⊢
  have longer : (lists level).length + 1 < 2 ^ 32 := by
    have new := (inv.family.pushBack (i := level) fresh).holds level
    rw [update_self] at new
    simpa using Pointer.length_lt new.nodup
  refine ⟨inv.family.pushBack fresh, ?_, ?_, ?_⟩
  · intro i outside
    have other : i ≠ level := by omega
    rw [update_of_ne other]
    exact inv.beyond i outside
  · intro i
    by_cases same : i = level
    · subst same
      simp [inv.count_eq, u32_of_lt longer]
    · simp [same, inv.count_eq]
  · intro i p mem
    rcases Queues.mem_update_concat.mp mem with old | ⟨rfl, rfl⟩
    · have other : p ≠ proc := ne_of_mem_of_not_mem old (fresh i)
      simpa [other] using inv.level_eq i p old
    · simp

theorem mlfqDequeueProc_eq (inv : MlfqLists m lists) (mem : proc ∈ lists i) :
    mlfqDequeueProc m proc =
      { m with
        queues := m.queues.remove i proc
        count := update m.count i (m.count i - 1)
        totalCount := m.totalCount - 1 } := by
  have inside := inv.lt_of_mem mem
  have in_range : ¬((i : ℤ) < 0 ∨ (i : ℤ) ≥ mlfqLevels) := by omega
  have positive : 0 < m.count i := by
    rw [inv.count_eq]
    exact length_pos_of_mem mem
  simp only [mlfqDequeueProc, inv.level_eq i proc mem, if_neg in_range, Int.toNat_natCast,
    gt_iff_lt, if_pos positive]
  congr
  split <;> omega

theorem mlfqDequeueProc_lists (inv : MlfqLists m lists) {front back : List Pointer}
    (at_proc : lists i = front ++ proc :: back) :
    MlfqLists (mlfqDequeueProc m proc) (update lists i (front ++ back)) := by
  have mem : proc ∈ lists i := by simp [at_proc]
  have inside := inv.lt_of_mem mem
  rw [mlfqDequeueProc_eq inv mem]
  refine ⟨inv.family.remove at_proc, ?_, ?_, ?_⟩
  · intro j outside
    have other : j ≠ i := by omega
    rw [update_of_ne other]
    exact inv.beyond j outside
  · intro j
    by_cases same : j = i
    · subst same
      have count := inv.count_eq j
      rw [at_proc] at count
      simp
      simp only [length_append, length_cons] at count ⊢
      omega
    · simp [same, inv.count_eq]
  · intro j p inside'
    exact inv.level_eq j p ((inv.family.mem_update_remove at_proc).mp inside').1

/-! ### The choice -/

section

variable (inv : MlfqLists m lists)
include inv

/-- The walk over a queue returns the first process that can run. -/
theorem mlfqPickWalk_eq (front back : List Pointer) (n : ℕ)
    (split : lists level = front ++ back) (enough : back.length < n) :
    loop (mlfqPickPass m) n back.head? = some (back.find? m.runnable) := by
  induction back generalizing front n with
  | nil =>
    obtain ⟨n, rfl⟩ := Nat.exists_eq_succ_of_ne_zero (by omega : n ≠ 0)
    exact loop_of_leave n rfl
  | cons p back ih =>
    obtain ⟨n, rfl⟩ := Nat.exists_eq_succ_of_ne_zero (by omega : n ≠ 0)
    rw [head?_cons]
    cases runs : m.runnable p with
    | true =>
      exact loop_of_leave n (by simp [mlfqPickPass, runs])
    | false =>
      have next_eq : m.queues.next p = back.head? := by
        have holds := inv.family.holds level
        rw [split] at holds
        exact holds.next_eq
      have pass : mlfqPickPass m (some p) = some (Sum.inl back.head?) := by
        simp [mlfqPickPass, runs, next_eq]
      rw [loop_of_continue n pass, find?_cons_of_neg (by simp [runs])]
      rw [length_cons] at enough
      exact ih (front ++ [p]) n (by simp [split]) (by omega)

theorem mlfqPickLevel_eq (level : ℕ) :
    mlfqPickLevel m level = some ((lists level).find? m.runnable) := by
  have head := (inv.family.holds level).head_eq
  have small := Pointer.length_lt (inv.family.holds level).nodup
  unfold mlfqPickLevel
  split
  · rw [head]
    exact mlfqPickWalk_eq inv [] (lists level) _ rfl small
  rename_i no_head
  rw [inv.count_eq, head] at no_head
  cases empty : lists level with
  | nil => rfl
  | cons p rest => simp [empty] at no_head

/-- **The choice of `mlfq_pick_next`**: the first process that can run on the
first level that has one. -/
theorem mlfqPickFrom_eq (remaining level : ℕ) :
    mlfqPickFrom m remaining level =
      some ((List.range' level remaining).findSome? fun i => (lists i).find? m.runnable) := by
  induction remaining generalizing level with
  | zero => rfl
  | succ remaining ih =>
    rw [mlfqPickFrom, mlfqPickLevel_eq inv, List.range'_succ]
    cases found : (lists level).find? m.runnable with
    | none => simpa [found] using ih (level + 1)
    | some p => simp [found]

theorem mlfqPickNext_eq :
    mlfqPickNext m =
      some ((List.range mlfqLevels).findSome? fun i => (lists i).find? m.runnable) := by
  rw [mlfqPickNext, mlfqPickFrom_eq inv, range_eq_range']

/-- If every listed process can run, the choice is the head of the first list
that has one. -/
theorem mlfqPickNext_cases (runnable : ∀ i, ∀ p ∈ lists i, m.runnable p = true) :
    ((∀ i, lists i = []) ∧ mlfqPickNext m = some none) ∨
      ∃ i p rest, lists i = p :: rest ∧ mlfqPickNext m = some (some p) := by
  rw [mlfqPickNext_eq inv]
  cases choice : (List.range mlfqLevels).findSome? fun i => (lists i).find? m.runnable with
  | none =>
    refine Or.inl ⟨?_, rfl⟩
    intro i
    by_cases inside : i < mlfqLevels
    · have nobody := findSome?_eq_none_iff.mp choice i (by simpa using inside)
      cases empty : lists i with
      | nil => rfl
      | cons p rest =>
        have runs := runnable i p (by simp [empty])
        simp [empty, runs] at nobody
    · exact inv.beyond i (by omega)
  | some p =>
    obtain ⟨i, _, found⟩ := exists_of_findSome?_eq_some choice
    refine Or.inr ?_
    cases nonempty : lists i with
    | nil => simp [nonempty] at found
    | cons q rest =>
      have runs := runnable i q (by simp [nonempty])
      rw [nonempty, find?_cons_of_pos runs] at found
      obtain rfl := Option.some.inj found
      exact ⟨i, q, rest, nonempty, rfl⟩

end

/-! ### The boost -/

/-- The lists after moving all of level `level` behind level `0`. -/
def drained (lists : ℕ → List Pointer) (level : ℕ) : ℕ → List Pointer :=
  update (update lists level []) 0 (lists 0 ++ lists level)

/-- What moving `procs` to level `0` changes besides the lists. -/
structure Promoted (m m' : Mlfq) (procs : List Pointer) : Prop where
  state : m'.state = m.state
  timeQuantum : m'.timeQuantum = m.timeQuantum
  total : procs.length ≤ m.totalCount → m.totalCount < 2 ^ 32 → m'.totalCount = m.totalCount
  moved : ∀ p ∈ procs, m'.timeSlice p = m.timeQuantum 0 ∧ m'.timeSliceRemaining p = m.timeQuantum 0
  others : ∀ p, p ∉ procs → m'.mlfqLevel p = m.mlfqLevel p ∧ m'.timeSlice p = m.timeSlice p ∧
    m'.timeSliceRemaining p = m.timeSliceRemaining p

theorem Promoted.trans {m₁ m' : Mlfq} {first second : List Pointer} (one : Promoted m m₁ first)
    (two : Promoted m₁ m' second) : Promoted m m' (first ++ second) where
  state := two.state.trans one.state
  timeQuantum := two.timeQuantum.trans one.timeQuantum
  total enough small := by
    rw [length_append] at enough
    have same := one.total (by omega) small
    exact (two.total (by omega) (by omega)).trans same
  moved p mem := by
    by_cases later : p ∈ second
    · exact one.timeQuantum ▸ two.moved p later
    · obtain ⟨-, slice, remaining⟩ := two.others p later
      rw [slice, remaining]
      exact one.moved p ((mem_append.mp mem).resolve_right later)
  others p outside := by
    obtain ⟨not_first, not_second⟩ := not_or.mp (mt mem_append.mpr outside)
    obtain ⟨level, slice, remaining⟩ := two.others p not_second
    rw [level, slice, remaining]
    exact one.others p not_first

/-- One pass of the boost loop takes the head of the level to the end of level
`0`. -/
theorem mlfqBoostPass_cons (inv : MlfqLists m lists) (positive : 0 < level)
    {rest : List Pointer} (at_proc : lists level = proc :: rest) :
    ∃ m', mlfqBoostPass level m = some (Sum.inl m') ∧ Promoted m m' [proc] ∧
      MlfqLists m' (update (update lists level rest) 0 (lists 0 ++ [proc])) := by
  have head : m.queues.head level = some proc := by
    rw [(inv.family.holds level).head_eq, at_proc, head?_cons]
  have count : m.count level > 0 := by
    rw [inv.count_eq, at_proc]
    simp
  have at_front : lists level = [] ++ proc :: rest := at_proc
  have removed := mlfqDequeueProc_lists inv at_front
  have gone : ∀ i, proc ∉ update lists level rest i := fun i mem =>
    ((inv.family.mem_update_remove at_front).mp mem).2 rfl
  -- with its level set to zero the process is still on no list
  have lowered : MlfqLists ((mlfqDequeueProc m proc).setLevel proc 0)
      (update lists level rest) := removed.setLevel gone 0
  have zero : clampLevel (((mlfqDequeueProc m proc).setLevel proc 0).mlfqLevel proc) = 0 := by
    rw [Mlfq.setLevel_level_self]
    rfl
  have appended := mlfqEnqueueProc_lists lowered gone
  rw [zero, update_of_ne positive.ne] at appended
  refine ⟨mlfqEnqueueProc ((mlfqDequeueProc m proc).setLevel proc 0) proc, ?_, ?_, appended⟩
  · simp [mlfqBoostPass, head, if_pos count, mlfqDequeue, mlfqEnqueue]
  simp only [mlfqEnqueueProc, zero]
  rw [mlfqDequeueProc_eq inv (at_front ▸ by simp : proc ∈ lists level)]
  refine ⟨rfl, rfl, fun enough small => ?_, ?_, ?_⟩
  · show u32 (m.totalCount - 1 + 1) = m.totalCount
    rw [Nat.sub_add_cancel (show 1 ≤ m.totalCount from enough), u32_of_lt small]
  · simp [Mlfq.setLevel]
  · intro p other
    simp [Mlfq.setLevel, mem_singleton.not.mp other]

/-- The loop over one level drains it. -/
theorem mlfqBoostLoop_lists (positive : 0 < level) (waiting : List Pointer) (n : ℕ) :
    ∀ {m : Mlfq} {lists : ℕ → List Pointer}, MlfqLists m lists → lists level = waiting →
      waiting.length < n →
        ∃ m', loop (mlfqBoostPass level) n m = some m' ∧ Promoted m m' waiting ∧
          MlfqLists m' (drained lists level) := by
  induction waiting generalizing n with
  | nil =>
    intro m lists inv empty enough
    obtain ⟨n, rfl⟩ := Nat.exists_eq_succ_of_ne_zero (by omega : n ≠ 0)
    have head : m.queues.head level = none := by
      rw [(inv.family.holds level).head_eq, empty, head?_nil]
    have same : drained lists level = lists := by
      rw [drained, empty, append_nil, ← empty, update_eq_self, update_eq_self]
    refine ⟨m, loop_of_leave n (by simp [mlfqBoostPass, head]),
      ⟨rfl, rfl, fun _ _ => rfl, nofun, fun _ _ => ⟨rfl, rfl, rfl⟩⟩, ?_⟩
    rw [same]
    exact inv
  | cons proc rest ih =>
    intro m lists inv at_proc enough
    obtain ⟨n, rfl⟩ := Nat.exists_eq_succ_of_ne_zero (by omega : n ≠ 0)
    obtain ⟨m₁, pass, promoted, inv₁⟩ := mlfqBoostPass_cons inv positive at_proc
    rw [length_cons] at enough
    obtain ⟨m', run, promoted', inv'⟩ := ih n inv₁
      (by rw [update_of_ne positive.ne', update_self]) (by omega)
    refine ⟨m', by rw [loop_of_continue n pass]; exact run, promoted.trans promoted', ?_⟩
    -- the head moved first, the others behind it
    have same : drained (update (update lists level rest) 0
        (lists 0 ++ [proc])) level = drained lists level := by
      funext i
      by_cases zero : i = 0
      · subst zero
        simp [drained, positive.ne', at_proc]
      · by_cases here : i = level
        · subst here
          simp [drained, zero]
        · simp [drained, zero, here]
    rw [← same]
    exact inv'

/-- The lists after the levels `n, …, 1` have been drained, in this order. -/
def boosted : ℕ → (ℕ → List Pointer) → ℕ → List Pointer
  | 0, lists => lists
  | n + 1, lists => boosted n (drained lists (n + 1))

/-- The processes on the levels `n, …, 1`, in this order. -/
def below : ℕ → (ℕ → List Pointer) → List Pointer
  | 0, _ => []
  | n + 1, lists => lists (n + 1) ++ below n (drained lists (n + 1))

theorem mlfqBoostLevels_lists (n : ℕ) :
    ∀ {m : Mlfq} {lists : ℕ → List Pointer}, MlfqLists m lists →
      ∃ m', mlfqBoostLevels n m = some m' ∧ Promoted m m' (below n lists) ∧
        MlfqLists m' (boosted n lists) := by
  induction n with
  | zero =>
    intro m lists inv
    exact ⟨m, rfl, ⟨rfl, rfl, fun _ _ => rfl, nofun, fun _ _ => ⟨rfl, rfl, rfl⟩⟩, inv⟩
  | succ n ih =>
    intro m lists inv
    obtain ⟨m₁, run₁, promoted, inv₁⟩ := mlfqBoostLoop_lists n.succ_pos _ (2 ^ 32) inv rfl
      (Pointer.length_lt (inv.family.holds _).nodup)
    obtain ⟨m', run', promoted', inv'⟩ := ih inv₁
    exact ⟨m', by rw [mlfqBoostLevels, run₁]; exact run', promoted.trans promoted', inv'⟩

section

variable (inv : MlfqLists m lists) (now : ℕ)
include inv

/-- A boost that is due takes the processes of all levels to level `0`. -/
theorem mlfqBoostAll_due (due : ¬sub64 (u64 now) m.boostTime < mlfqBoostInterval) :
    ∃ m' lists', mlfqBoostAll m now = some m' ∧ MlfqLists m' lists' ∧
      Promoted m m' (lists 4 ++ (lists 3 ++ (lists 2 ++ lists 1))) ∧
      lists' 0 = lists 0 ++ lists 4 ++ lists 3 ++ lists 2 ++ lists 1 ∧
      ∀ i, 0 < i → lists' i = [] := by
  have stamped : MlfqLists { m with boostTime := u64 now, boostCount := u64 (m.boostCount + 1) }
      lists := inv.congr rfl rfl fun _ _ _ => rfl
  obtain ⟨m', run, promoted, inv'⟩ := mlfqBoostLevels_lists (mlfqLevels - 1) stamped
  have procs : below (mlfqLevels - 1) lists = lists 4 ++ (lists 3 ++ (lists 2 ++ lists 1)) := by
    simp [mlfqLevels, below, drained]
  rw [procs] at promoted
  refine ⟨m', _, by rw [mlfqBoostAll, if_neg due]; exact run, inv', ?_, ?_, fun i positive => ?_⟩
  · exact { promoted with }
  · simp [mlfqLevels, boosted, drained]
  by_cases inside : i < mlfqLevels
  · unfold mlfqLevels at inside
    obtain rfl | rfl | rfl | rfl : i = 1 ∨ i = 2 ∨ i = 3 ∨ i = 4 := by omega
    all_goals simp [mlfqLevels, boosted, drained]
  · exact inv'.beyond i (by omega)

/-- `mlfq_boost_all` returns; it changes the state of no process and the level of
none that is on no list, and the processes on some list stay the same. -/
theorem mlfqBoostAll_lists :
    ∃ m' lists', mlfqBoostAll m now = some m' ∧ m'.state = m.state ∧
      (∀ p, (∀ i, p ∉ lists i) → m'.mlfqLevel p = m.mlfqLevel p) ∧ MlfqLists m' lists' ∧
      ∀ p, (∃ i, p ∈ lists' i) ↔ ∃ i, p ∈ lists i := by
  by_cases due : sub64 (u64 now) m.boostTime < mlfqBoostInterval
  · exact ⟨m, lists, if_pos due, rfl, fun _ _ => rfl, inv, fun _ => Iff.rfl⟩
  obtain ⟨m', lists', run, inv', promoted, all, empty⟩ := mlfqBoostAll_due inv now due
  refine ⟨m', lists', run, promoted.state, fun p nowhere => (promoted.others p ?_).1, inv', fun p =>
    ⟨?_, ?_⟩⟩
  · simp [nowhere]
  · rintro ⟨i, mem⟩
    obtain rfl : i = 0 := Nat.eq_zero_of_not_pos fun positive => by simp [empty i positive] at mem
    simp only [all, mem_append] at mem
    rcases mem with (((old | old) | old) | old) | old <;> exact ⟨_, old⟩
  · rintro ⟨i, mem⟩
    have inside := inv.lt_of_mem mem
    unfold mlfqLevels at inside
    obtain rfl | rfl | rfl | rfl | rfl : i = 0 ∨ i = 1 ∨ i = 2 ∨ i = 3 ∨ i = 4 := by omega
    all_goals exact ⟨0, by simp [all, mem]⟩

end

/-- **The boost.**  If it is due, `mlfq_boost_all` returns with everything on level `0`:
first what was there, then the old levels from the last one up.  The processes that
moved have the quantum of level `0`, and the queues and counters are in order. -/
theorem mlfq_boost_all_order (m : Mlfq) (lists : ℕ → List Pointer) (now : ℕ)
    (inv : MlfqLists m lists)
    (total : m.totalCount = ((range mlfqLevels).map fun i => (lists i).length).sum)
    (due : mlfqBoostInterval ≤ sub64 (u64 now) m.boostTime) :
    ∃ m' lists', mlfqBoostAll m now = some m' ∧ MlfqLists m' lists' ∧
      lists' 0 = lists 0 ++ lists 4 ++ lists 3 ++ lists 2 ++ lists 1 ∧
      (∀ i, 0 < i → lists' i = []) ∧
      (∀ i, 0 < i → ∀ p ∈ lists i,
        m'.timeSlice p = m.timeQuantum 0 ∧ m'.timeSliceRemaining p = m.timeQuantum 0) ∧
      m'.totalCount = m.totalCount ∧ m'.totalCount = (lists' 0).length := by
  obtain ⟨m', lists', run, inv', promoted, all, empty⟩ :=
    mlfqBoostAll_due inv now (Nat.not_lt.mpr due)
  have sum : m.totalCount = (lists' 0).length := by
    simp [total, all, mlfqLevels, range_succ]
    omega
  have same : m'.totalCount = m.totalCount := promoted.total (by simp [sum, all])
    (sum ▸ Pointer.length_lt (inv'.family.holds 0).nodup)
  refine ⟨m', lists', run, inv', all, empty, fun i positive p member => ?_, same, same.trans sum⟩
  have inside := inv.lt_of_mem member
  unfold mlfqLevels at inside
  obtain rfl | rfl | rfl | rfl : i = 1 ∨ i = 2 ∨ i = 3 ∨ i = 4 := by omega
  all_goals exact promoted.moved p (by simp [member])

def procA : Pointer := pagePointer 0

/-- Memory in which process A has level `2` and the others level `4`. -/
def mlfqBlank : Mlfq :=
  ⟨⟨fun _ => none, fun _ => none, fun _ => none, fun _ => none⟩, fun _ => 0, fun _ => 0, 0, 0,
    fun _ => 0, 0, fun _ => .new, fun proc => if proc = procA then 2 else 4, fun _ => 0, fun _ => 0,
    fun _ => 0⟩

/-- Processes on the levels `2` and `4` are taken to level `0`, the latter one first. -/
theorem mlfq_boost_all_order_two :
    ∃ m' lists', mlfqBoostAll (mlfqEnqueueProc (mlfqEnqueueProc (mlfqInit mlfqBlank 0) procA)
        (pagePointer 1)) 1000 = some m' ∧ MlfqLists m' lists' ∧
      lists' 0 = [pagePointer 1, procA] ∧ m'.timeSlice procA = 100 ∧ m'.totalCount = 2 := by
  have first : MlfqLists (mlfqEnqueueProc (mlfqInit mlfqBlank 0) procA) _ :=
    mlfqEnqueueProc_lists (mlfqInit_lists mlfqBlank 0) (by simp)
  have fresh : ∀ i, pagePointer 1 ∉ update (fun _ => []) (clampLevel 2) ([] ++ [procA]) i := by
    intro i mem
    rcases Queues.mem_update_concat.mp mem with old | ⟨-, same⟩
    · simp at old
    · exact absurd same (by decide)
  obtain ⟨m', lists', run, queued, order, -, slices, total, -⟩ := mlfq_boost_all_order _ _ 1000
    (mlfqEnqueueProc_lists first fresh) (by decide) (by decide)
  exact ⟨m', lists', run, queued, order, (slices 2 (by decide) procA (by decide)).1, total⟩

/-- `mlfq_tick` of a process whose level is in range moves it down at most to the
last level, and touches neither queues nor states. -/
theorem mlfqTickProc_cases (low : 0 ≤ m.mlfqLevel proc) (high : m.mlfqLevel proc < mlfqLevels) :
    ∃ (m' : Mlfq) (level : ℤ), mlfqTickProc m proc = some m' ∧ 0 ≤ level ∧ level < mlfqLevels ∧
      m'.queues = m.queues ∧ m'.count = m.count ∧ m'.state = m.state ∧
      m'.mlfqLevel = update m.mlfqLevel proc level := by
  have unchanged : m.mlfqLevel = update m.mlfqLevel proc (m.mlfqLevel proc) :=
    (update_eq_self proc m.mlfqLevel).symm
  have in_range : ¬(m.mlfqLevel proc < 0 ∨ m.mlfqLevel proc ≥ mlfqLevels) := by omega
  unfold mlfqTickProc
  dsimp only
  generalize (if m.timeSliceRemaining proc > 0 then m.timeSliceRemaining proc - 1
    else m.timeSliceRemaining proc) = remaining
  by_cases used : remaining = 0
  · rw [if_pos used]
    by_cases last : m.mlfqLevel proc + 1 ≥ mlfqLevels
    · rw [if_pos last]
      by_cases down : (mlfqLevels : ℤ) - 1 ≠ m.mlfqLevel proc
      · rw [if_pos down, if_neg in_range]
        exact ⟨_, (mlfqLevels : ℤ) - 1, rfl, by simp [mlfqLevels], by simp, rfl, rfl, rfl, rfl⟩
      · rw [if_neg down]
        exact ⟨_, _, rfl, low, high, rfl, rfl, rfl, unchanged⟩
    · rw [if_neg last, if_pos (by omega), if_neg in_range]
      exact ⟨_, m.mlfqLevel proc + 1, rfl, by omega, by omega, rfl, rfl, rfl, rfl⟩
  · rw [if_neg used]
    exact ⟨_, _, rfl, low, high, rfl, rfl, rfl, unchanged⟩

end

end EduOS
