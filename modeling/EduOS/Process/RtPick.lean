import EduOS.Process.RtSched

/-!
# The order in which real-time tasks are picked

`process/rt_sched.c` again, for tasks that are enqueued and dequeued while nobody changes a
priority.  What the run queue should do is said by the list of the queued tasks in the
order of their arrival: the task to pick is the one of the highest priority, and among
those the one that came first, which is `List.argmax` of that list.

`rt_sched_init` prints that a higher number is a better priority.  The search goes the
other way: `find_first_bit` finds the queue with the smallest number, and
`rt_enqueue_task` lowers `highest_prio` to the number of the new task.  So the task picked
is `List.argmin` of the arrivals (`Arrived.pick`), which is the right one only if all
queued tasks have one priority.
-/

namespace EduOS

open Function (update update_self update_of_ne update_eq_self)
open List

/-- The call enqueues or dequeues. -/
def RtCall.Moves : RtCall → Prop
  | .enqueue _ | .dequeue _ => True
  | .setPriority _ _ | .tick _ => False

instance : (call : RtCall) → Decidable call.Moves
  | .enqueue _ | .dequeue _ => isTrue trivial
  | .setPriority _ _ | .tick _ => isFalse id

/-- The queued tasks in the order of their arrival, after one more call.  A task whose
priority is not valid does not arrive. -/
def arrive (prio : Pointer → ℕ) (order : List Pointer) : RtCall → List Pointer
  | .enqueue proc => if prio proc < maxRtPrio then order ++ [proc] else order
  | .dequeue proc => order.erase proc
  | .setPriority _ _ | .tick _ => order

/-- The queued tasks after a sequence of calls. -/
def arrivals (prio : Pointer → ℕ) (calls : List RtCall) : List Pointer :=
  calls.foldl (arrive prio) []

/-- The task to pick: the first one of the highest priority. -/
def PicksHighest (prio : Pointer → ℕ) (order : List Pointer) (picked : Option RtNode) : Prop :=
  picked = (order.argmax prio).map .member

instance (prio : Pointer → ℕ) (order : List Pointer) (picked : Option RtNode) :
    Decidable (PicksHighest prio order picked) :=
  inferInstanceAs (Decidable (_ = _))

/-! ## First elements -/

section

variable {α : Type*} [DecidableEq α] {f : α → ℕ} {l : List α}

/-- The first element of the smallest value starts the part of the list that has its
value. -/
theorem filter_of_mem_argmin {a : α} (first : a ∈ l.argmin f) :
    ∃ rest, l.filter (fun b => f b = f a) = a :: rest := by
  obtain ⟨mem, least, earliest⟩ := mem_argmin_iff.mp first
  obtain ⟨front, back, split, absent⟩ := eq_append_cons_of_mem mem
  have before : front.filter (fun b => f b = f a) = [] := by
    rw [filter_eq_nil_iff]
    intro b in_front same
    have same : f b = f a := of_decide_eq_true same
    have late := earliest b (split ▸ mem_append_left _ in_front) same.le
    rw [split, idxOf_append_of_notMem absent, idxOf_append_of_mem in_front] at late
    have := idxOf_lt_length_of_mem in_front
    omega
  refine ⟨back.filter fun b => f b = f a, ?_⟩
  rw [split, filter_append, before, nil_append, filter_cons_of_pos (by simp)]

/-- The first element of the smallest value is the first one of the greatest value only if
there is one value. -/
theorem argmin_eq_argmax_iff : l.argmin f = l.argmax f ↔ ∀ a ∈ l, ∀ b ∈ l, f a = f b := by
  cases found : l.argmin f with
  | none =>
    rw [argmin_eq_none] at found
    simp [found]
  | some a =>
    obtain ⟨mem, least, earliest⟩ := mem_argmin_iff.mp found
    constructor
    · intro both
      obtain ⟨_, greatest, _⟩ := mem_argmax_iff.mp both.symm
      have same : ∀ b ∈ l, f b = f a := fun b in_l => le_antisymm (greatest b in_l) (least b in_l)
      intro b in_l c in_l'
      rw [same b in_l, same c in_l']
    · intro same
      have all_le : ∀ b ∈ l, f b ≤ f a := fun b in_l => (same b in_l a mem).le
      exact (mem_argmax_iff.mpr ⟨mem, all_le, fun b in_l _ => earliest b in_l (all_le b in_l)⟩).symm

end

/-! ## The run queue and the arrivals -/

/-- The arrivals of each priority. -/
def byPriority (prio : Pointer → ℕ) (order : List Pointer) (i : Fin maxRtPrio) : List Pointer :=
  order.filter fun proc => prio proc = i

/-- The queues hold the arrivals, each sorted out by its priority. -/
structure Arrived (prio : Pointer → ℕ) (s : RtRun) (order : List Pointer) : Prop where
  priorities : s.rq.rtPriority = prio
  lists : ∃ all, RtLists s (byPriority prio order) all
  right : BitsRight s
  distinct : order.Nodup
  valid : ∀ proc ∈ order, prio proc < maxRtPrio

namespace Arrived

variable {prio : Pointer → ℕ} {s : RtRun} {order : List Pointer} {proc : Pointer}

theorem start (r : RtRq) : Arrived r.rtPriority (rtStart r) [] where
  priorities := rfl
  lists := ⟨[], RtLists.start r⟩
  right := BitsRight.start r
  distinct := nodup_nil
  valid := fun _ mem => absurd mem not_mem_nil

section

variable (arrived : Arrived prio s order)
include arrived

theorem queueOf (proc : Pointer) :
    s.rq.queueOf proc =
      if valid : prio proc < maxRtPrio then some ⟨prio proc, valid⟩ else none := by
  rw [RtRq.queueOf, arrived.priorities]

/-- A task is on the queue of its priority, if it is among the arrivals. -/
theorem queued_iff {i : Fin maxRtPrio} : s.queued proc = some i ↔ proc ∈ order ∧ prio proc = i := by
  obtain ⟨all, inv⟩ := arrived.lists
  rw [← inv.listed i proc]
  simp [byPriority]

theorem mem_of_queued (on : s.queued proc ≠ none) :
    ∃ valid : prio proc < maxRtPrio, proc ∈ order ∧ s.queued proc = some ⟨prio proc, valid⟩ := by
  obtain ⟨i, at_i⟩ := Option.ne_none_iff_exists'.mp on
  obtain ⟨mem, same⟩ := arrived.queued_iff.mp at_i
  have valid := arrived.valid proc mem
  refine ⟨valid, mem, at_i.trans (congrArg some (Fin.ext ?_))⟩
  exact same.symm

theorem not_mem (off : s.queued proc = none) : proc ∉ order := by
  intro mem
  have on := arrived.queued_iff.mpr
    (show proc ∈ order ∧ prio proc = (⟨prio proc, arrived.valid proc mem⟩ : Fin maxRtPrio) from
      ⟨mem, rfl⟩)
  rw [off] at on
  exact absurd on (by simp)

/-- One more task arrives. -/
theorem enqueue (off : s.queued proc = none) :
    ∃ s', rtStep s (.enqueue proc) = some s' ∧
      Arrived prio s' (arrive prio order (.enqueue proc)) := by
  obtain ⟨all, inv⟩ := arrived.lists
  by_cases valid : prio proc < maxRtPrio
  · have at_p : s.rq.queueOf proc = some ⟨prio proc, valid⟩ := by
      rw [arrived.queueOf, dif_pos valid]
    obtain ⟨s', result, inv', queued, bitmap, highest, kept⟩ := inv.enqueue off at_p
    refine ⟨s', result, ?_⟩
    simp only [arrive, if_pos valid]
    have sorted : update (byPriority prio order) ⟨prio proc, valid⟩
        (byPriority prio order ⟨prio proc, valid⟩ ++ [proc]) =
        byPriority prio (order ++ [proc]) := by
      funext i
      by_cases here : i = ⟨prio proc, valid⟩
      · subst here
        simp [byPriority]
      · have apart : prio proc ≠ i := fun same => here (Fin.ext same.symm)
        simp [byPriority, update_of_ne here, apart]
    refine ⟨kept.trans arrived.priorities, ⟨proc :: all, sorted ▸ inv'⟩,
      arrived.right.enqueue off queued bitmap highest, ?_, ?_⟩
    · exact arrived.distinct.append (nodup_singleton proc)
        (disjoint_singleton.mpr (arrived.not_mem off))
    · exact forall_mem_append.mpr ⟨arrived.valid, forall_mem_singleton.mpr valid⟩
  · -- a priority that is not valid: nothing happens
    have nowhere : s.rq.queueOf proc = none := by rw [arrived.queueOf, dif_neg valid]
    refine ⟨s, ?_, by simpa only [arrive, if_neg valid] using arrived⟩
    simp only [rtStep, rtEnqueueTask, nowhere, Option.map_some]
    rw [← off, update_eq_self]

/-- A queued task leaves. -/
theorem dequeue (on : s.queued proc ≠ none) :
    ∃ s', rtStep s (.dequeue proc) = some s' ∧
      Arrived prio s' (arrive prio order (.dequeue proc)) := by
  obtain ⟨all, inv⟩ := arrived.lists
  obtain ⟨valid, mem, at_q⟩ := arrived.mem_of_queued on
  have at_p : s.rq.queueOf proc = some ⟨prio proc, valid⟩ := by
    rw [arrived.queueOf, dif_pos valid]
  obtain ⟨s', result, inv', queued, kept, cleared, highest, same⟩ := inv.dequeue at_q at_p
  have sorted : update (byPriority prio order) ⟨prio proc, valid⟩
      ((byPriority prio order ⟨prio proc, valid⟩).erase proc) =
      byPriority prio (order.erase proc) := by
    funext i
    unfold byPriority
    rw [arrived.distinct.erase_eq_filter, filter_filter]
    by_cases here : i = ⟨prio proc, valid⟩
    · subst here
      rw [update_self, (arrived.distinct.filter _).erase_eq_filter, filter_filter]
      exact filter_congr fun other _ => Bool.and_comm _ _
    rw [update_of_ne here]
    refine filter_congr fun other _ => ?_
    by_cases left : other = proc
    · have apart : prio proc ≠ i := fun same => here (Fin.ext same.symm)
      simp [left, apart]
    · simp [left]
  refine ⟨s', result, same.trans arrived.priorities, ⟨all.erase proc, sorted ▸ inv'⟩,
    arrived.right.dequeue at_q queued kept cleared highest (Or.inl rfl),
    arrived.distinct.erase proc, fun other mem => arrived.valid other (mem_of_mem_erase mem)⟩

/-- **The task picked is the first one of the smallest priority number.** -/
theorem pick : rtPickNextTask s.rq = (order.argmin prio).map .member := by
  obtain ⟨all, inv⟩ := arrived.lists
  cases found : order.argmin prio with
  | none =>
    rw [argmin_eq_none] at found
    refine ((inv.consistent arrived.right).pick.mpr fun proc => ?_)
    by_contra on
    obtain ⟨_, mem, _⟩ := arrived.mem_of_queued on
    rw [found] at mem
    exact absurd mem not_mem_nil
  | some proc =>
    obtain ⟨mem, least, _⟩ := mem_argmin_iff.mp found
    obtain ⟨rest, starts⟩ := filter_of_mem_argmin found
    refine inv.pick_first arrived.right
      (show byPriority prio order ⟨prio proc, arrived.valid proc mem⟩ = proc :: rest from starts) ?_
    intro j below
    rw [byPriority, filter_eq_nil_iff]
    intro other in_order same
    have small := least other in_order
    rw [of_decide_eq_true same] at small
    exact absurd below (not_lt.mpr small)

end

end Arrived

/-- Moving calls keep the queues and the arrivals together. -/
theorem rtStep_arrived {prio : Pointer → ℕ} {s : RtRun} {order : List Pointer} {call : RtCall}
    (arrived : Arrived prio s order) (legal : RtLegal s call) (moves : call.Moves) :
    ∃ s', rtStep s call = some s' ∧ Arrived prio s' (arrive prio order call) := by
  cases call with
  | enqueue proc => exact arrived.enqueue legal
  | dequeue proc => exact arrived.dequeue legal
  | setPriority proc rtPrio => exact moves.elim
  | tick proc => exact moves.elim

theorem exec_arrived {prio : Pointer → ℕ} {calls : List RtCall} {s : RtRun} {order : List Pointer}
    (arrived : Arrived prio s order) (legal : Allowed rtStep RtLegal s calls)
    (moves : ∀ call ∈ calls, call.Moves) :
    ∃ s', exec rtStep s calls = some s' ∧ Arrived prio s' (calls.foldl (arrive prio) order) :=
  exec_simulates (arrive prio) (Arrived prio)
    (fun s _ call arrived (both : RtLegal s call ∧ call.Moves) =>
      rtStep_arrived arrived both.1 both.2)
    calls s order arrived (allowed_and.mpr ⟨legal, allowed_of_forall_mem moves s⟩)

/-- **Real-time priority order.**  After any sequence of legal enqueues and dequeues,
`rt_pick_next_task` returns the task that has been queued longest among those of the
highest `rt_priority` exactly if all queued tasks have the same one. -/
theorem rt_pick_highest_iff (r : RtRq) (calls : List RtCall)
    (legal : Allowed rtStep RtLegal (rtStart r) calls) (moves : ∀ call ∈ calls, call.Moves) :
    ∃ s, exec rtStep (rtStart r) calls = some s ∧
      (PicksHighest r.rtPriority (arrivals r.rtPriority calls) (rtPickNextTask s.rq) ↔
        ∀ proc ∈ arrivals r.rtPriority calls, ∀ other ∈ arrivals r.rtPriority calls,
          r.rtPriority proc = r.rtPriority other) := by
  obtain ⟨s, ran, arrived⟩ := exec_arrived (Arrived.start r) legal moves
  refine ⟨s, ran, ?_⟩
  rw [← argmin_eq_argmax_iff, PicksHighest, arrived.pick]
  exact (Option.map_injective fun _ _ => FamilyNode.member.inj).eq_iff

/-! ### Two tasks -/

/-- Task A has priority 10, task B priority 20. -/
def rtUnequal : RtRq := { rtZero with rtPriority := fun proc => if proc = rtTaskA then 10 else 20 }

/-- Of two tasks with one priority the first one is picked. -/
theorem rt_pick_highest_equal :
    ∃ s, exec rtStep (rtStart rtZero) [.enqueue rtTaskA, .enqueue rtTaskB] = some s ∧
      PicksHighest rtZero.rtPriority [rtTaskA, rtTaskB] (rtPickNextTask s.rq) := by
  obtain ⟨s, ran, right⟩ := rt_pick_highest_iff rtZero [.enqueue rtTaskA, .enqueue rtTaskB]
    (by decide +kernel) (by decide)
  exact ⟨s, ran, right.mpr fun _ _ _ _ => rfl⟩

/-- Task A is picked although task B has the higher priority. -/
theorem rt_pick_lowest :
    Allowed rtStep RtLegal (rtStart rtUnequal) [.enqueue rtTaskA, .enqueue rtTaskB] ∧
      arrivals rtUnequal.rtPriority [.enqueue rtTaskA, .enqueue rtTaskB] = [rtTaskA, rtTaskB] ∧
      rtUnequal.rtPriority rtTaskA < rtUnequal.rtPriority rtTaskB ∧
      ∀ s, exec rtStep (rtStart rtUnequal) [.enqueue rtTaskA, .enqueue rtTaskB] = some s →
        rtPickNextTask s.rq = some (.member rtTaskA) ∧
        ¬PicksHighest rtUnequal.rtPriority [rtTaskA, rtTaskB] (rtPickNextTask s.rq) := by
  refine ⟨by decide +kernel, by decide +kernel, by decide +kernel, fun s ran => ?_⟩
  cases ran
  decide +kernel

end EduOS
