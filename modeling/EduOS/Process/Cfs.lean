import EduOS.Lib.RbtreeWalk

/-!
# The completely fair scheduler

`kernel/process/cfs_sched.c`: the runnable tasks hang in the red-black tree
`tasks_timeline`, ordered by `se.vruntime`, and `rb_leftmost` caches its first node,
which is what `cfs_pick_next_task` returns.

A task is named by the address of its `se.rb_node`.  Times are `uint64_t`; a weight
is an `int` that takes part in `uint64_t` arithmetic.

The tree is only ordered as long as the keys of its nodes stay where they are, but
`cfs_update_curr` and `cfs_task_waking` change the key of whatever task they are
called on.  `PickStable` says that the scheduler picks a task of minimal `vruntime`,
and keeps doing so while tasks leave the queue; it holds along a run exactly if
no such change moves an enqueued task past the next one (`cfs_pick_stable_iff`).
-/

namespace EduOS

open Option

open Function List

/-- `sched_prio_to_weight` -/
def schedPrioToWeight : List ℤ :=
  [88761, 71755, 56483, 46273, 36291, 29154, 23254, 18705, 14949, 11916,
    9548, 7620, 6100, 4904, 3906,
    3121, 2501, 1991, 1586, 1277,
    1024, 820, 655, 526, 423,
    335, 272, 215, 172, 137,
    110, 87, 70, 56, 45,
    36, 29, 23, 18, 15]

def niceToWeight (nice : ℤ) : ℤ :=
  let idx := nice + 20
  let idx := if idx < 0 then 0 else idx
  let idx := if 39 < idx then 39 else idx
  schedPrioToWeight.getD idx.toNat 0

/-- An `int` in `uint64_t` arithmetic. -/
def u64OfInt (n : ℤ) : ℕ := (n % 2 ^ 64).toNat

/-- The fields of `struct process` that the scheduler uses, without `se.rb_node`. -/
structure CfsTask where
  vruntime : ℕ
  sumExecRuntime : ℕ
  weight : ℤ
  nice : ℤ

/-- `g_cfs_rq` and the tasks. -/
structure CfsRq where
  /-- `tasks_timeline` and the `se.rb_node` fields. -/
  timeline : RbMemory
  rbLeftmost : Option RbNode
  nrRunning : ℕ
  minVruntime : ℕ
  execClock : ℕ
  totalWeight : ℕ
  task : RbNode → CfsTask

namespace CfsRq

def setTask (q : CfsRq) (p : RbNode) (data : CfsTask) : CfsRq :=
  { q with task := update q.task p data }

def vruntime (q : CfsRq) (p : RbNode) : ℕ := (q.task p).vruntime

end CfsRq

def cfsInit (q : CfsRq) : CfsRq :=
  { q with
    timeline := { q.timeline with root := none }
    rbLeftmost := none
    nrRunning := 0
    minVruntime := 0
    execClock := 0
    totalWeight := 0 }

def updateMinVruntime (q : CfsRq) : CfsRq :=
  let vruntime :=
    match q.rbLeftmost with
    | some leftmost => q.vruntime leftmost
    | none => q.minVruntime
  if q.minVruntime < vruntime then { q with minVruntime := vruntime } else q

/-- One pass of the search of `enqueue_entity`, with its flag `leftmost`. -/
def enqueuePass (q : CfsRq) (vruntime : ℕ) : Slot × Bool → Option ((Slot × Bool) ⊕ (Slot × Bool))
  | (link, leftmost) =>
    match readSlot q.timeline link with
    | none => some (.inr (link, leftmost))
    | some parent =>
      if vruntime < q.vruntime parent then some (.inl (.child .left parent, leftmost))
      else some (.inl (.child .right parent, false))

def enqueueEntity (proc : RbNode) (q : CfsRq) : Option CfsRq := do
  let (link, leftmost) ← loop (enqueuePass q (q.vruntime proc)) (2 ^ 32) (.root, true)
  let q := if leftmost then { q with rbLeftmost := some proc } else q
  let timeline ← rbInsertColor proc (rbLinkNode q.timeline proc link.parent link)
  some { q with timeline := timeline }

def dequeueEntity (proc : RbNode) (q : CfsRq) : Option CfsRq := do
  let q ←
    if q.rbLeftmost = some proc then do
      let next ← rbNext q.timeline proc
      some { q with rbLeftmost := next }
    else some q
  let timeline ← rbErase proc q.timeline
  some { q with timeline := rbClearNode timeline proc }

/-- The task as `cfs_enqueue_task` sets it up. -/
def initEntity (proc : RbNode) (q : CfsRq) : CfsRq :=
  let task := q.task proc
  q.setTask proc
    { task with
      vruntime := if task.vruntime = 0 then q.minVruntime else task.vruntime
      weight := if task.weight = 0 then niceToWeight task.nice else task.weight }

def cfsEnqueueTask (proc : Option RbNode) (q : CfsRq) : Option CfsRq :=
  match proc with
  | none => some q
  | some p => do
      let q ← enqueueEntity p (initEntity p q)
      some { q with
        nrRunning := u32 (q.nrRunning + 1)
        totalWeight := u64 (q.totalWeight + u64OfInt (q.task p).weight) }

def cfsDequeueTask (proc : Option RbNode) (q : CfsRq) : Option CfsRq :=
  match proc with
  | none => some q
  | some p => do
      let q ← dequeueEntity p q
      let weight := u64OfInt (q.task p).weight
      some (updateMinVruntime { q with
        nrRunning := if 0 < q.nrRunning then q.nrRunning - 1 else q.nrRunning
        totalWeight := if weight ≤ q.totalWeight then q.totalWeight - weight else q.totalWeight })

def cfsPickNextTask (q : CfsRq) : Option RbNode := q.rbLeftmost

/-- A weight of 0 is a division by zero. -/
def cfsCalcDeltaFair (delta : ℕ) (task : CfsTask) : Option ℕ :=
  if task.weight = 1024 then some delta
  else if u64OfInt task.weight = 0 then none
  else some (u64 (delta * 1024) / u64OfInt task.weight)

def cfsUpdateCurr (curr : Option RbNode) (q : CfsRq) : Option CfsRq :=
  match curr with
  | none => some q
  | some p => do
      let deltaFair ← cfsCalcDeltaFair 1000000 (q.task p)
      let task := q.task p
      let q := { q.setTask p
          { task with
            sumExecRuntime := u64 (task.sumExecRuntime + 1000000)
            vruntime := u64 (task.vruntime + deltaFair) } with
        execClock := u64 (q.execClock + 1000000) }
      some (updateMinVruntime q)

def cfsTaskWaking (proc : Option RbNode) (q : CfsRq) : CfsRq :=
  match proc with
  | none => q
  | some p =>
    if q.vruntime p < q.minVruntime then q.setTask p { q.task p with vruntime := q.minVruntime }
    else q

/-! ## Calls -/

/-- The calls of the scheduling class. -/
inductive CfsCall
  | enqueue (proc : Option RbNode)
  | dequeue (proc : Option RbNode)
  | updateCurr (curr : Option RbNode)
  | taskWaking (proc : Option RbNode)
  | pickNext

/-- One call; picking changes nothing. -/
def cfsStep (q : CfsRq) : CfsCall → Option CfsRq
  | .enqueue proc => cfsEnqueueTask proc q
  | .dequeue proc => cfsDequeueTask proc q
  | .updateCurr curr => cfsUpdateCurr curr q
  | .taskWaking proc => some (cfsTaskWaking proc q)
  | .pickNext => some q

/-- An enqueued task: a node of the tree. -/
def Enqueued (q : CfsRq) (p : RbNode) : Prop := ∃ t, Holds q.timeline t ∧ p ∈ t.toList

/-- Enqueued tasks are dequeued, and other tasks enqueued. -/
def cfsLegal (q : CfsRq) : CfsCall → Prop
  | .enqueue proc => ∀ p, proc = some p → ¬Enqueued q p
  | .dequeue proc => ∀ p, proc = some p → Enqueued q p
  | .updateCurr _ | .taskWaking _ | .pickNext => True

/-- `cfs_pick_next_task` returns `NULL` exactly if no task is enqueued, and otherwise
an enqueued task of minimal `vruntime`. -/
def CfsPickLaw (q : CfsRq) : Prop :=
  (cfsPickNextTask q = none ↔ ∀ p, ¬Enqueued q p) ∧
    ∀ p, cfsPickNextTask q = some p →
      Enqueued q p ∧ ∀ other, Enqueued q other → q.vruntime p ≤ q.vruntime other

/-- The pick law holds, and keeps holding while tasks are dequeued. -/
def PickStable (q : CfsRq) : Prop :=
  ∀ tasks : List RbNode, Allowed cfsStep cfsLegal q (tasks.map fun p => .dequeue (some p)) →
    Throughout cfsStep CfsPickLaw q (tasks.map fun p => .dequeue (some p))

/-- The key of `p` may become `vruntime`: if `p` is enqueued, its neighbours in the
tree stay on their sides of it. -/
def KeepsPlace (q : CfsRq) (p : RbNode) (vruntime : ℕ) : Prop :=
  ∀ t front back, Holds q.timeline t → t.toList = front ++ p :: back →
    (∀ x, front.getLast? = some x → q.vruntime x ≤ vruntime) ∧
      ∀ x, back.head? = some x → vruntime ≤ q.vruntime x

/-- The calls that keep the tree ordered: a task with a weight of 0 does not run, and
the time that a running or waking task is charged does not take an enqueued task past
its neighbours. -/
def cfsOrderly (q : CfsRq) : CfsCall → Prop
  | .updateCurr (some p) =>
    ∃ deltaFair, cfsCalcDeltaFair 1000000 (q.task p) = some deltaFair ∧
      KeepsPlace q p (u64 (q.vruntime p + deltaFair))
  | .taskWaking (some p) => KeepsPlace q p (max (q.vruntime p) q.minVruntime)
  | _ => True

/-! ## The shape of the queue -/

/-- The tree holds the tasks `order`, and `rb_leftmost` is the first of them. -/
structure CfsShape (q : CfsRq) (order : List RbNode) : Prop where
  tree : ∃ t, Holds q.timeline t ∧ t.Valid ∧ t.toList = order
  leftmost : q.rbLeftmost = order.head?

/-- The tasks stand in the order of their keys. -/
def CfsSorted (q : CfsRq) (order : List RbNode) : Prop :=
  order.Pairwise fun x y => q.vruntime x ≤ q.vruntime y

variable {p : RbNode} {q q' : CfsRq} {order : List RbNode}

section

section

variable (shape : CfsShape q order)
include shape

theorem CfsShape.nodup : order.Nodup := by
  obtain ⟨t, holds, -, rfl⟩ := shape.tree
  exact holds.nodup

theorem CfsShape.toList_eq {t : Tree RbNode} (holds : Holds q.timeline t) : t.toList = order := by
  obtain ⟨t', holds', -, rfl⟩ := shape.tree
  rw [holds.unique holds']

theorem CfsShape.enqueued_iff : Enqueued q p ↔ p ∈ order := by
  constructor
  · rintro ⟨t, holds, mem⟩
    exact shape.toList_eq holds ▸ mem
  · intro mem
    obtain ⟨t, holds, -, rfl⟩ := shape.tree
    exact ⟨t, holds, mem⟩

/-- Calls that leave the tree and `rb_leftmost` alone. -/
theorem CfsShape.of_eq (timeline : q'.timeline = q.timeline)
    (leftmost : q'.rbLeftmost = q.rbLeftmost) : CfsShape q' order :=
  ⟨timeline ▸ shape.tree, leftmost.trans shape.leftmost⟩

theorem cfsPickLaw_iff :
    CfsPickLaw q ↔ ∀ x, order.head? = some x → ∀ y ∈ order, q.vruntime x ≤ q.vruntime y := by
  unfold CfsPickLaw cfsPickNextTask
  simp only [shape.leftmost, shape.enqueued_iff]
  constructor
  · rintro ⟨-, minimal⟩ x head
    exact (minimal x head).2
  · intro minimal
    refine ⟨?_, fun x head => ⟨mem_of_head? head, minimal x head⟩⟩
    rw [head?_eq_none_iff, eq_nil_iff_forall_not_mem]

end

@[simp] theorem updateMinVruntime_timeline (q : CfsRq) :
    (updateMinVruntime q).timeline = q.timeline := by
  dsimp only [updateMinVruntime]
  split_ifs <;> rfl

@[simp] theorem updateMinVruntime_rbLeftmost (q : CfsRq) :
    (updateMinVruntime q).rbLeftmost = q.rbLeftmost := by
  dsimp only [updateMinVruntime]
  split_ifs <;> rfl

@[simp] theorem updateMinVruntime_task (q : CfsRq) : (updateMinVruntime q).task = q.task := by
  dsimp only [updateMinVruntime]
  split_ifs <;> rfl

/-! ## Dequeueing -/

variable {front back : List RbNode}

theorem dequeueEntity_spec (shape : CfsShape q (front ++ p :: back)) :
    ∃ q', dequeueEntity p q = some q' ∧ CfsShape q' (front ++ back) ∧ q'.task = q.task := by
  obtain ⟨t, holds, valid, order⟩ := shape.tree
  have nodup := shape.nodup
  obtain ⟨timeline', t', erased, valid', held⟩ := rbErase_spec holds valid
    (show p ∈ t.toList by simp [order])
  rw [order, erase_middle nodup] at held
  have apart : p ∉ t'.toList := by
    rw [held.order]
    exact (nodup_cons.mp (perm_middle.nodup_iff.mp nodup)).1
  have cleared : Holds (rbClearNode timeline' p) t' := held.holds.frame rfl fun x mem =>
    sameAt_setWord fun same => apart (same ▸ mem)
  cases front with
  | nil =>
    have first : q.rbLeftmost = some p := shape.leftmost
    have next := rbNext_spec holds order
    refine ⟨{ q with rbLeftmost := back.head?, timeline := rbClearNode timeline' p }, ?_,
      ⟨⟨t', cleared, valid', held.order⟩, rfl⟩, rfl⟩
    simp [dequeueEntity, if_pos first, next, erased]
  | cons x front =>
    have first : q.rbLeftmost = some x := shape.leftmost
    have other : ¬q.rbLeftmost = some p := by
      rw [first]
      rintro same
      cases same
      simp at nodup
    refine ⟨{ q with timeline := rbClearNode timeline' p }, ?_,
      ⟨⟨t', cleared, valid', held.order⟩, first⟩, rfl⟩
    simp [dequeueEntity, if_neg other, erased]

theorem cfsDequeueTask_spec (shape : CfsShape q order) (mem : p ∈ order) :
    ∃ q', cfsDequeueTask (some p) q = some q' ∧ CfsShape q' (order.erase p) ∧ q'.task = q.task := by
  obtain ⟨front, back, rfl⟩ := append_of_mem mem
  rw [erase_middle shape.nodup]
  obtain ⟨q₁, dequeued, shape₁, tasks⟩ := dequeueEntity_spec shape
  simp only [cfsDequeueTask, dequeued, bind_eq_bind, bind_some]
  refine ⟨_, rfl, shape₁.of_eq ?_ ?_, ?_⟩
  · rw [updateMinVruntime_timeline]
  · rw [updateMinVruntime_rbLeftmost]
  · rw [updateMinVruntime_task]
    exact tasks

theorem CfsSorted.of_task (sorted : CfsSorted q order) (tasks : q'.task = q.task) :
    CfsSorted q' order := by
  unfold CfsSorted CfsRq.vruntime at sorted ⊢
  rwa [tasks]

theorem CfsSorted.pickLaw (sorted : CfsSorted q order) (shape : CfsShape q order) :
    CfsPickLaw q := by
  refine (cfsPickLaw_iff shape).mpr fun x head y mem => ?_
  cases order with
  | nil => exact absurd mem not_mem_nil
  | cons first rest =>
    cases head
    rcases mem_cons.mp mem with rfl | mem
    · exact Nat.le_refl _
    · exact (pairwise_cons.mp sorted).1 y mem

/-- **What it takes to keep picking right**: the whole queue has to be sorted. -/
theorem pickStable_iff (shape : CfsShape q order) : PickStable q ↔ CfsSorted q order := by
  constructor
  · intro stable
    induction order generalizing q with
    | nil => exact List.Pairwise.nil
    | cons x rest ih =>
      have minimal := (cfsPickLaw_iff shape).mp (stable [] trivial) x rfl
      obtain ⟨q', dequeued, shape', tasks⟩ := cfsDequeueTask_spec shape mem_cons_self
      rw [erase_cons_head] at shape'
      have legal : cfsLegal q (.dequeue (some x)) := by
        rintro p same
        cases same
        exact shape.enqueued_iff.mpr mem_cons_self
      have stable' : PickStable q' := by
        intro others allowed
        obtain ⟨-, q'', dequeued', later⟩ := stable (x :: others) ⟨legal, fun q'' dequeued' => by
          obtain rfl := mem_unique dequeued dequeued'
          exact allowed⟩
        obtain rfl := mem_unique dequeued dequeued'
        exact later
      have tail : CfsSorted q rest := (ih shape' stable').of_task tasks.symm
      exact pairwise_cons.mpr ⟨fun y mem => minimal y (mem_cons_of_mem x mem), tail⟩
  · intro sorted tasks
    induction tasks generalizing q order with
    | nil => exact fun _ => sorted.pickLaw shape
    | cons p tasks ih =>
      rintro ⟨legal, later⟩
      have mem : p ∈ order := shape.enqueued_iff.mp (legal p rfl)
      obtain ⟨q', dequeued, shape', same⟩ := cfsDequeueTask_spec shape mem
      have sorted' : CfsSorted q (order.erase p) := sorted.sublist erase_sublist
      exact ⟨sorted.pickLaw shape, q', dequeued,
        ih shape' (sorted'.of_task same) (later q' dequeued)⟩

/-! ## Enqueueing -/

/-- The turn that `enqueue_entity` takes at a task. -/
def enqueueTurn (q : CfsRq) (vruntime : ℕ) (p : RbNode) : Side :=
  if vruntime < q.vruntime p then .left else .right

/-- The search of `enqueue_entity` ends at the place of the key, and its flag tells
whether that is the first place. -/
theorem enqueueSearch_spec (shape : CfsShape q order) (sorted : CfsSorted q order) (vruntime : ℕ) :
    ∃ context leftmost, loop (enqueuePass q vruntime) (2 ^ 32) (.root, true) =
        some (slotOf context, leftmost) ∧
      Holds q.timeline (plug context .nil) ∧ (plug context .nil).Valid ∧
      order = before context ++ after context ∧ (leftmost = true ↔ before context = []) ∧
      (∀ x ∈ before context, q.vruntime x ≤ vruntime) ∧
      ∀ x ∈ after context, vruntime < q.vruntime x := by
  obtain ⟨t, holds, valid, order_eq⟩ := shape.tree
  obtain ⟨⟨_, leftmost⟩, looped, context, eq, rfl, frames, flag⟩ := loop_ranked
    (enqueuePass q vruntime)
    (fun k s => ∃ context t', t = plug context t' ∧ s.1 = slotOf context ∧
      t'.toList.length = k ∧ (∀ f ∈ context, enqueueTurn q vruntime f.label = f.side) ∧
      (s.2 = true ↔ ∀ f ∈ context, f.side = .left))
    (fun s => ∃ context, t = plug context .nil ∧ s.1 = slotOf context ∧
      (∀ f ∈ context, enqueueTurn q vruntime f.label = f.side) ∧
      (s.2 = true ↔ ∀ f ∈ context, f.side = .left))
    (by
      rintro _ ⟨link, leftmost⟩ ⟨context, t', rfl, rfl, rfl, frames, flag⟩
      have read := readSlot_slotOf holds
      cases root : t'.root with
      | none =>
        obtain rfl := Tree.eq_nil_of_root root
        exact Or.inr ⟨(slotOf context, leftmost), by simp [enqueuePass, read, root], context,
          rfl, rfl, frames, flag⟩
      | some x =>
        obtain ⟨near, far, eq, smaller⟩ := exists_descent (enqueueTurn q vruntime x) context root
        refine Or.inl ⟨(.child (enqueueTurn q vruntime x) x,
          leftmost && decide (enqueueTurn q vruntime x = .left)), near.toList.length, ?_, smaller,
          ⟨enqueueTurn q vruntime x, t'.colour, x, far⟩ :: context, near, eq, rfl, rfl, ?_, ?_⟩
        · simp only [enqueuePass, read, root, enqueueTurn]
          split_ifs <;> simp
        · exact forall_mem_cons.mpr ⟨rfl, frames⟩
        · simp only [Bool.and_eq_true, decide_eq_true_eq, flag, forall_mem_cons]
          exact and_comm)
    (2 ^ 32) t.toList.length (.root, true) ⟨[], t, rfl, rfl, rfl, nofun, by simp⟩
    (rbNode_length_lt holds.nodup)
  subst eq
  have guided : (plug context Tree.nil).toList.Pairwise
      (Guided fun x => some (enqueueTurn q vruntime x)) := by
    rw [order_eq]
    refine sorted.imp fun {x y} le => ?_
    simp only [Guided, Option.some.injEq, enqueueTurn]
    split_ifs <;> simp
    omega
  have turns : ∀ f ∈ context, some (enqueueTurn q vruntime f.label) = some f.side :=
    fun f mem => congrArg some (frames f mem)
  obtain ⟨on_left, on_right⟩ := guided_sides turns guided
  refine ⟨context, leftmost, looped, holds, valid, ?_, flag.trans before_eq_nil_iff.symm,
    fun x mem => ?_, fun x mem => ?_⟩
  · rw [← order_eq, toList_plug]
    simp [Tree.toList]
  · have turn := Option.some.inj (on_left x mem)
    by_contra above
    simp [enqueueTurn, Nat.lt_of_not_le above] at turn
  · have turn := Option.some.inj (on_right x mem)
    by_contra below
    simp [enqueueTurn, below] at turn

theorem enqueueEntity_spec (shape : CfsShape q order) (sorted : CfsSorted q order)
    (fresh : p ∉ order) :
    ∃ q' front back, enqueueEntity p q = some q' ∧ order = front ++ back ∧
      CfsShape q' (front ++ p :: back) ∧ CfsSorted q' (front ++ p :: back) ∧ q'.task = q.task ∧
      q'.minVruntime = q.minVruntime ∧ ∀ x ∈ back, q.vruntime p < q.vruntime x := by
  obtain ⟨context, leftmost, looped, holds, valid, rfl, flag, below, above⟩ :=
    enqueueSearch_spec shape sorted (q.vruntime p)
  have fresh' : p ∉ (plug context Tree.nil).toList := by
    rw [shape.toList_eq holds]
    exact fresh
  obtain ⟨timeline', t', inserted, valid', held⟩ := rbInsert_spec holds valid fresh'
  refine ⟨{ (if leftmost then { q with rbLeftmost := some p } else q) with timeline := timeline' },
    before context, after context, ?_, rfl, ⟨⟨t', held.holds, valid', held.order⟩, ?_⟩, ?_,
    ?_, ?_, above⟩
  · simp only [enqueueEntity, looped, bind_eq_bind, bind_some]
    cases leftmost with
    | true => simp [inserted]
    | false => simp [inserted]
  · cases leftmost with
    | true =>
      rw [flag.mp rfl]
      rfl
    | false =>
      have some_before : before context ≠ [] := fun empty => absurd (flag.mpr empty) nofun
      obtain ⟨x, rest, eq⟩ := exists_cons_of_ne_nil some_before
      have first := shape.leftmost
      rw [eq] at first ⊢
      exact first
  · have unchanged : ∀ x, CfsRq.vruntime
        { (if leftmost then { q with rbLeftmost := some p } else q) with timeline := timeline' } x =
          q.vruntime x := by
      intro x
      cases leftmost <;> rfl
    unfold CfsSorted at sorted ⊢
    simp only [unchanged]
    rw [pairwise_append] at sorted ⊢
    obtain ⟨front_sorted, back_sorted, across⟩ := sorted
    refine ⟨front_sorted, pairwise_cons.mpr ⟨fun y mem => (above y mem).le, back_sorted⟩,
      fun x x_mem y y_mem => ?_⟩
    rcases mem_cons.mp y_mem with rfl | y_mem
    · exact below x x_mem
    · exact across x x_mem y y_mem
  · cases leftmost <;> rfl
  · cases leftmost <;> rfl

@[simp] theorem initEntity_task_self (p : RbNode) (q : CfsRq) :
    (initEntity p q).task p =
      { q.task p with
        vruntime := if (q.task p).vruntime = 0 then q.minVruntime else (q.task p).vruntime
        weight := if (q.task p).weight = 0 then niceToWeight (q.task p).nice
          else (q.task p).weight } := by
  simp [initEntity, CfsRq.setTask]

@[simp] theorem initEntity_task_of_ne {x : RbNode} (ne : x ≠ p) (q : CfsRq) :
    (initEntity p q).task x = q.task x := by
  simp [initEntity, CfsRq.setTask, ne]

theorem cfsEnqueueTask_spec (shape : CfsShape q order) (sorted : CfsSorted q order)
    (fresh : p ∉ order) :
    ∃ q' front back, cfsEnqueueTask (some p) q = some q' ∧ order = front ++ back ∧
      CfsShape q' (front ++ p :: back) ∧ CfsSorted q' (front ++ p :: back) ∧
      q'.task = (initEntity p q).task ∧ q'.minVruntime = q.minVruntime ∧
      ∀ x ∈ back, q'.vruntime p < q'.vruntime x := by
  have shape₁ : CfsShape (initEntity p q) order := shape.of_eq rfl rfl
  have sorted₁ : CfsSorted (initEntity p q) order := by
    refine sorted.imp_of_mem fun {x y} x_mem y_mem le => ?_
    have other : ∀ z ∈ order, (initEntity p q).vruntime z = q.vruntime z := by
      intro z mem
      have ne : z ≠ p := ne_of_mem_of_not_mem mem fresh
      simp [CfsRq.vruntime, ne]
    rwa [other x x_mem, other y y_mem]
  obtain ⟨q₂, front, back, enqueued, rfl, shape₂, sorted₂, tasks, clock, above⟩ :=
    enqueueEntity_spec shape₁ sorted₁ fresh
  simp only [cfsEnqueueTask, enqueued, bind_eq_bind, bind_some]
  refine ⟨_, front, back, rfl, rfl, shape₂.of_eq rfl rfl, sorted₂.of_task rfl, tasks, clock, ?_⟩
  intro x mem
  rw [tasks]
  exact above x mem

/-! ## Keys that change in place -/

variable {f : RbNode → ℕ} {n vruntime : ℕ}

theorem le_of_getLast? (sorted : front.Pairwise fun x y => f x ≤ f y)
    (last : ∀ x, front.getLast? = some x → f x ≤ n) : ∀ x ∈ front, f x ≤ n := by
  rcases eq_nil_or_concat' front with rfl | ⟨init, y, rfl⟩
  · exact nofun
  intro x mem
  have bound : f y ≤ n := last y getLast?_concat
  rcases mem_append.mp mem with mem | mem
  · exact ((pairwise_append.mp sorted).2.2 x mem y (by simp)).trans bound
  · rwa [mem_singleton.mp mem]

theorem le_of_head? (sorted : back.Pairwise fun x y => f x ≤ f y)
    (head : ∀ x, back.head? = some x → n ≤ f x) : ∀ x ∈ back, n ≤ f x := by
  cases back with
  | nil => exact nofun
  | cons y back =>
    intro x mem
    have bound : n ≤ f y := head y rfl
    rcases mem_cons.mp mem with rfl | mem
    · exact bound
    · exact bound.trans ((pairwise_cons.mp sorted).1 x mem)

theorem CfsShape.keepsPlace_iff (shape : CfsShape q (front ++ p :: back))
    (sorted : CfsSorted q (front ++ p :: back)) :
    KeepsPlace q p vruntime ↔
      (∀ x ∈ front, q.vruntime x ≤ vruntime) ∧ ∀ x ∈ back, vruntime ≤ q.vruntime x := by
  obtain ⟨front_sorted, tail_sorted, -⟩ := pairwise_append.mp sorted
  have back_sorted := (pairwise_cons.mp tail_sorted).2
  constructor
  · intro keeps
    obtain ⟨t, holds, -, order⟩ := shape.tree
    obtain ⟨last, head⟩ := keeps t front back holds order
    exact ⟨le_of_getLast? front_sorted last, le_of_head? back_sorted head⟩
  rintro ⟨below, above⟩ t front' back' holds order
  rw [shape.toList_eq holds] at order
  have nodup := shape.nodup
  have not_front : p ∉ front := fun mem =>
    (nodup_append'.mp nodup).2.2 mem mem_cons_self
  have not_back : p ∉ back :=
    (nodup_cons.mp (nodup_append'.mp nodup).2.1).1
  obtain ⟨rfl, -, rfl⟩ := (append_cons_inj_of_notMem not_front not_back).mp order
  exact ⟨fun x last => below x (mem_of_getLast? last),
    fun x head => above x (mem_of_head? head)⟩

/-- A change of one key keeps the queue sorted exactly if the task keeps its place. -/
theorem sorted_iff_keepsPlace (shape : CfsShape q order) (sorted : CfsSorted q order)
    (changed : q'.vruntime = update q.vruntime p vruntime) :
    CfsSorted q' order ↔ KeepsPlace q p vruntime := by
  have other : ∀ x, x ≠ p → q'.vruntime x = q.vruntime x := fun x ne => by
    rw [changed, update_of_ne ne]
  have at_p : q'.vruntime p = vruntime := by rw [changed, update_self]
  have elsewhere : ∀ nodes : List RbNode, p ∉ nodes → CfsSorted q nodes → CfsSorted q' nodes := by
    intro nodes notMem
    refine List.Pairwise.imp_of_mem fun {x y} x_mem y_mem le => ?_
    rwa [other x fun same => notMem (same ▸ x_mem), other y fun same => notMem (same ▸ y_mem)]
  by_cases mem : p ∈ order
  · obtain ⟨front, back, rfl⟩ := append_of_mem mem
    obtain ⟨front_nodup, tail_nodup, apart⟩ := nodup_append'.mp shape.nodup
    have not_front : ∀ x ∈ front, x ≠ p := fun x x_mem same =>
      apart x_mem (same ▸ mem_cons_self)
    have not_back : ∀ x ∈ back, x ≠ p := fun x x_mem same =>
      (nodup_cons.mp tail_nodup).1 (same ▸ x_mem)
    rw [shape.keepsPlace_iff sorted]
    obtain ⟨front_sorted, tail_sorted, across⟩ := pairwise_append.mp sorted
    constructor
    · intro sorted'
      obtain ⟨-, tail_sorted', across'⟩ := pairwise_append.mp sorted'
      refine ⟨fun x x_mem => ?_, fun x x_mem => ?_⟩
      · have le := across' x x_mem p mem_cons_self
        rwa [at_p, other x (not_front x x_mem)] at le
      · have le := (pairwise_cons.mp tail_sorted').1 x x_mem
        rwa [at_p, other x (not_back x x_mem)] at le
    · rintro ⟨below, above⟩
      refine pairwise_append.mpr ⟨elsewhere front (fun p_mem => not_front p p_mem rfl)
        front_sorted, pairwise_cons.mpr ⟨fun x x_mem => ?_, elsewhere back
          (fun p_mem => not_back p p_mem rfl) (pairwise_cons.mp tail_sorted).2⟩,
        fun x x_mem y y_mem => ?_⟩
      · rw [at_p, other x (not_back x x_mem)]
        exact above x x_mem
      rw [other x (not_front x x_mem)]
      rcases mem_cons.mp y_mem with rfl | y_mem
      · rw [at_p]
        exact below x x_mem
      · rw [other y (not_back y y_mem)]
        exact across x x_mem y (mem_cons_of_mem p y_mem)
  · refine iff_of_true (elsewhere order mem sorted) fun t front back holds order_eq => ?_
    rw [shape.toList_eq holds] at order_eq
    exact absurd (order_eq ▸ (by simp : p ∈ front ++ p :: back)) mem

end

/-! ## Whole runs -/

theorem cfsInit_shape (q : CfsRq) : CfsShape (cfsInit q) [] :=
  ⟨⟨.nil, ⟨rfl, trivial, nodup_nil⟩, ⟨rfl, 0, rfl⟩, rfl⟩, rfl⟩

theorem cfsUpdateCurr_spec {deltaFair : ℕ} (shape : CfsShape q order)
    (delta : cfsCalcDeltaFair 1000000 (q.task p) = some deltaFair)
    (updated : cfsUpdateCurr (some p) q = some q') :
    CfsShape q' order ∧ q'.vruntime = update q.vruntime p (u64 (q.vruntime p + deltaFair)) := by
  simp only [cfsUpdateCurr, delta, bind_eq_bind, bind_some, Option.some.injEq] at updated
  subst updated
  refine ⟨shape.of_eq (by rw [updateMinVruntime_timeline]; rfl)
    (by rw [updateMinVruntime_rbLeftmost]; rfl), funext fun x => ?_⟩
  unfold CfsRq.vruntime
  by_cases same : x = p
  · simp [CfsRq.setTask, same]
  · simp [CfsRq.setTask, same]

theorem cfsTaskWaking_vruntime (q : CfsRq) (p : RbNode) :
    (cfsTaskWaking (some p) q).vruntime =
      update q.vruntime p (max (q.vruntime p) q.minVruntime) := by
  funext x
  unfold cfsTaskWaking
  dsimp only
  split_ifs with early
  · by_cases same : x = p
    · rw [same, update_self, max_eq_right early.le]
      simp [CfsRq.setTask, CfsRq.vruntime]
    · simp [CfsRq.setTask, CfsRq.vruntime, same]
  · rw [max_eq_left (Nat.le_of_not_lt early), update_eq_self]

theorem cfsTaskWaking_shape (shape : CfsShape q order) (proc : Option RbNode) :
    CfsShape (cfsTaskWaking proc q) order := by
  unfold cfsTaskWaking
  split
  · exact shape
  · split_ifs
    · exact shape.of_eq rfl rfl
    · exact shape

theorem cfsStep_keeps {call : CfsCall} (shape : CfsShape q order) (sorted : CfsSorted q order)
    (legal : cfsLegal q call) (orderly : cfsOrderly q call) :
    ∃ q', cfsStep q call = some q' ∧ ∃ order', CfsShape q' order' ∧ CfsSorted q' order' := by
  cases call with
  | enqueue proc =>
    cases proc with
    | none => exact ⟨q, rfl, order, shape, sorted⟩
    | some p =>
      have fresh : p ∉ order := fun mem => legal p rfl (shape.enqueued_iff.mpr mem)
      obtain ⟨q', front, back, enqueued, -, shape', sorted', -⟩ :=
        cfsEnqueueTask_spec shape sorted fresh
      exact ⟨q', enqueued, _, shape', sorted'⟩
  | dequeue proc =>
    cases proc with
    | none => exact ⟨q, rfl, order, shape, sorted⟩
    | some p =>
      obtain ⟨q', dequeued, shape', tasks⟩ :=
        cfsDequeueTask_spec shape (shape.enqueued_iff.mp (legal p rfl))
      have sorted' : CfsSorted q (order.erase p) := sorted.sublist erase_sublist
      exact ⟨q', dequeued, _, shape', sorted'.of_task tasks⟩
  | updateCurr curr =>
    cases curr with
    | none => exact ⟨q, rfl, order, shape, sorted⟩
    | some p =>
      obtain ⟨deltaFair, delta, keeps⟩ := orderly
      obtain ⟨q', updated⟩ : ∃ q', cfsUpdateCurr (some p) q = some q' := by
        simp only [cfsUpdateCurr, delta, bind_eq_bind, bind_some]
        exact ⟨_, rfl⟩
      obtain ⟨shape', changed⟩ := cfsUpdateCurr_spec shape delta updated
      exact ⟨q', updated, order, shape', (sorted_iff_keepsPlace shape sorted changed).mpr keeps⟩
  | taskWaking proc =>
    refine ⟨_, rfl, order, cfsTaskWaking_shape shape proc, ?_⟩
    cases proc with
    | none => exact sorted
    | some p =>
      exact (sorted_iff_keepsPlace shape sorted (cfsTaskWaking_vruntime q p)).mpr orderly
  | pickNext => exact ⟨q, rfl, order, shape, sorted⟩

theorem cfsStep_breaks {call : CfsCall} (shape : CfsShape q order) (sorted : CfsSorted q order)
    (bad : ¬cfsOrderly q call) (stepped : cfsStep q call = some q') : ¬PickStable q' := by
  cases call with
  | updateCurr curr =>
    cases curr with
    | none => exact absurd trivial bad
    | some p =>
      have updated : cfsUpdateCurr (some p) q = some q' := stepped
      cases delta : cfsCalcDeltaFair 1000000 (q.task p) with
      | none =>
        simp only [cfsUpdateCurr, delta, bind_eq_bind, bind_none] at updated
        cases updated
      | some deltaFair =>
        obtain ⟨shape', changed⟩ := cfsUpdateCurr_spec shape delta updated
        rw [pickStable_iff shape', sorted_iff_keepsPlace shape sorted changed]
        exact fun keeps => bad ⟨deltaFair, delta, keeps⟩
  | taskWaking proc =>
    cases proc with
    | none => exact absurd trivial bad
    | some p =>
      obtain rfl : cfsTaskWaking (some p) q = q' := Option.some.inj stepped
      rw [pickStable_iff (cfsTaskWaking_shape shape _),
        sorted_iff_keepsPlace shape sorted (cfsTaskWaking_vruntime q p)]
      exact bad
  | _ => exact absurd trivial bad

/-- **The pick law**: in every state of a run the scheduler picks a task of minimal
`vruntime`, if no `cfs_update_curr` or `cfs_task_waking` of the run divides by zero or
moves an enqueued task past its neighbours.  This is also necessary for it to go on
doing so while tasks are dequeued. -/
theorem cfs_pick_stable_iff (q₀ : CfsRq) (calls : List CfsCall)
    (allowed : Allowed cfsStep cfsLegal (cfsInit q₀) calls) :
    (Throughout cfsStep PickStable (cfsInit q₀) calls ↔
        Allowed cfsStep cfsOrderly (cfsInit q₀) calls) ∧
      (Allowed cfsStep cfsOrderly (cfsInit q₀) calls →
        Throughout cfsStep CfsPickLaw (cfsInit q₀) calls) := by
  have stable_iff : Throughout cfsStep PickStable (cfsInit q₀) calls ↔
      Allowed cfsStep cfsOrderly (cfsInit q₀) calls := ?_
  · exact ⟨stable_iff, fun orderly => (stable_iff.mpr orderly).imp fun _ stable =>
      stable [] trivial⟩
  refine throughout_iff_allowed (fun q => ∃ order, CfsShape q order ∧ CfsSorted q order) ?_ ?_ ?_
    calls _ ⟨[], cfsInit_shape q₀, List.Pairwise.nil⟩ allowed
  · rintro q ⟨order, shape, sorted⟩
    exact (pickStable_iff shape).mpr sorted
  · rintro q call ⟨order, shape, sorted⟩ legal orderly
    exact cfsStep_keeps shape sorted legal orderly
  · rintro q call ⟨order, shape, sorted⟩ - bad q' stepped
    exact cfsStep_breaks shape sorted bad stepped

def cfsBoot : CfsRq where
  timeline := ⟨fun _ => 0#32, fun _ _ => none, none⟩
  rbLeftmost := none
  nrRunning := 0
  minVruntime := 0
  execClock := 0
  totalWeight := 0
  task _ := ⟨0, 0, 0, 0⟩

/-- Two new tasks are enqueued, and the second finds its place behind the first. -/
theorem cfsBoot_two :
    ∃ q₁ q₂, cfsEnqueueTask (some (rbNodeAt 3)) (cfsInit cfsBoot) = some q₁ ∧
      cfsEnqueueTask (some (rbNodeAt 7)) q₁ = some q₂ ∧
      CfsShape q₁ [rbNodeAt 3] ∧
      CfsShape q₂ [rbNodeAt 3, rbNodeAt 7] ∧
      q₂.task (rbNodeAt 3) = ⟨0, 0, 1024, 0⟩ ∧
      q₂.task (rbNodeAt 7) = ⟨0, 0, 1024, 0⟩ := by
  obtain ⟨q₁, front, back, first, empty, shape₁, sorted₁, tasks₁, clock₁, -⟩ :=
    cfsEnqueueTask_spec (p := rbNodeAt 3) (cfsInit_shape cfsBoot) List.Pairwise.nil
      not_mem_nil
  obtain ⟨rfl, rfl⟩ := append_eq_nil_iff.mp empty.symm
  obtain ⟨q₂, front, back, second, one, shape₂, -, tasks₂, -, above⟩ :=
    cfsEnqueueTask_spec (p := rbNodeAt 7) shape₁ sorted₁ (by decide)
  have clock : q₁.minVruntime = 0 := clock₁
  have started : ∀ p, (cfsInit cfsBoot).task p = ⟨0, 0, 0, 0⟩ := fun _ => rfl
  have task_first : q₂.task (rbNodeAt 3) = ⟨0, 0, 1024, 0⟩ := by
    rw [tasks₂, initEntity_task_of_ne (by decide), tasks₁, initEntity_task_self, started]
    rfl
  have task_second : q₂.task (rbNodeAt 7) = ⟨0, 0, 1024, 0⟩ := by
    rw [tasks₂, initEntity_task_self, tasks₁, initEntity_task_of_ne (by decide), started, clock]
    rfl
  refine ⟨q₁, q₂, first, second, shape₁, ?_, task_first, task_second⟩
  cases back with
  | nil =>
    rw [append_nil] at one
    rw [← one] at shape₂
    exact shape₂
  | cons x back =>
    have x_mem : x ∈ front ++ x :: back := by simp
    rw [← one] at x_mem
    have late := above x mem_cons_self
    rw [mem_singleton.mp x_mem] at late
    simp [CfsRq.vruntime, task_first, task_second] at late

/-- The tasks at `0x10` and `0x20` are enqueued, and one of them is charged a tick. -/
def cfsTick (curr : RbNode) : List CfsCall :=
  [.enqueue (some (rbNodeAt 3)), .enqueue (some (rbNodeAt 7)), .updateCurr (some curr)]

theorem cfsTick_allowed (curr : RbNode) :
    Allowed cfsStep cfsLegal (cfsInit cfsBoot) (cfsTick curr) := by
  obtain ⟨q₁, q₂, first, -, shape₁, -⟩ := cfsBoot_two
  refine ⟨?_, fun q first' => ⟨?_, fun q' _ => ⟨trivial, fun _ _ => trivial⟩⟩⟩
  · rintro p same enqueued
    exact absurd ((cfsInit_shape cfsBoot).enqueued_iff.mp enqueued) not_mem_nil
  · obtain rfl := mem_unique first first'
    rintro p same enqueued
    cases same
    exact absurd (shape₁.enqueued_iff.mp enqueued) (by decide)

theorem cfs_pick_stable_second :
    Throughout cfsStep PickStable (cfsInit cfsBoot) (cfsTick (rbNodeAt 7)) := by
  obtain ⟨q₁, q₂, first, second, -, shape₂, task_first, task_second⟩ := cfsBoot_two
  refine (cfs_pick_stable_iff cfsBoot _ (cfsTick_allowed _)).1.mpr
    ⟨trivial, fun q first' => ⟨trivial, fun q' second' => ⟨?_, fun _ _ => trivial⟩⟩⟩
  obtain rfl := mem_unique first first'
  obtain rfl := mem_unique second second'
  have split : CfsShape q₂ ([rbNodeAt 3] ++ rbNodeAt 7 :: []) := shape₂
  have sorted : CfsSorted q₂ ([rbNodeAt 3] ++ rbNodeAt 7 :: []) := by
    simp [CfsSorted, CfsRq.vruntime, task_first, task_second]
  refine ⟨1000000, by rw [task_second]; rfl, (split.keepsPlace_iff sorted).mpr ⟨?_, nofun⟩⟩
  simp [CfsRq.vruntime, task_first]

/-- The first of two tasks with equal `vruntime` runs for a tick and is picked again,
although the other one is now behind. -/
theorem cfs_pick_not_minimal :
    Allowed cfsStep cfsLegal (cfsInit cfsBoot) (cfsTick (rbNodeAt 3)) ∧
      ∃ q, exec cfsStep (cfsInit cfsBoot) (cfsTick (rbNodeAt 3)) = some q ∧
        cfsPickNextTask q = some (rbNodeAt 3) ∧ q.vruntime (rbNodeAt 3) = 1000000 ∧
        Enqueued q (rbNodeAt 7) ∧ q.vruntime (rbNodeAt 7) = 0 := by
  obtain ⟨q₁, q₂, first, second, -, shape₂, task_first, task_second⟩ := cfsBoot_two
  have delta : cfsCalcDeltaFair 1000000 (q₂.task (rbNodeAt 3)) = some 1000000 := by
    rw [task_first]
    rfl
  obtain ⟨q₃, updated⟩ : ∃ q₃, cfsUpdateCurr (some (rbNodeAt 3)) q₂ = some q₃ := by
    simp only [cfsUpdateCurr, delta, bind_eq_bind, bind_some]
    exact ⟨_, rfl⟩
  obtain ⟨shape₃, changed⟩ := cfsUpdateCurr_spec shape₂ delta updated
  refine ⟨cfsTick_allowed _, q₃, ?_, shape₃.leftmost, ?_, ?_, ?_⟩
  · simp [cfsTick, exec_cons, cfsStep, first, second, updated, exec_nil]
  · rw [changed]
    simp [CfsRq.vruntime, task_first, u64]
  · exact shape₃.enqueued_iff.mpr (by decide)
  · have other : rbNodeAt 7 ≠ rbNodeAt 3 := by decide
    rw [changed]
    simp [CfsRq.vruntime, task_second, other]

end EduOS
