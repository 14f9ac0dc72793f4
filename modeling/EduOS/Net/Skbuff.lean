import EduOS.Library.Ring
import EduOS.Library.Run
import EduOS.Library.Word

/-!
# Socket-buffer queues

The queue operations of `include/net/skbuff.h`.  A `struct sk_buff_head` embeds a
`struct list_head` (`list`) and has, besides it, two pointers of its own, `next`
and `prev`, that are meant to be copies of `list.next` and `list.prev`.
`skb_queue_empty`, `skb_peek` and `skb_dequeue` only look at the copy `next`.

`skb_queue_tail` writes the successor of the last node through `list.prev->next`.
When the queue is empty that node is `list` itself: `list.next` is set, the copy
`next` is not, and the buffer can never be dequeued.  On a queue that is not
empty the operation is correct, and so are `skb_queue_head` and `skb_dequeue`
everywhere.  `skb_run_law_iff` makes that exact: along every sequence of calls
the queue is the double-ended queue it is meant to be precisely as long as no
`skb_queue_tail` is made on an empty queue.
-/

namespace EduOS

open Function List

/-- The addresses of `struct list_head`s: null, the head's own `list`, and the
`list` fields of the buffers. -/
inductive SkbNode
  | null
  | list
  | buffer (skb : Pointer)
deriving DecidableEq

/-- `struct sk_buff_head`, with the memory of all `struct list_head`s; `list` is
among them. -/
structure SkbQueue where
  links : Links SkbNode
  next : SkbNode
  prev : SkbNode
  qlen : ℕ

/-- `skb_queue_head_init` -/
def skbQueueHeadInit (links : Links SkbNode) : SkbQueue where
  links :=
    { next := update links.next .list .list
      prev := update links.prev .list .list }
  next := .list
  prev := .list
  qlen := 0

/-- `skb_queue_head` -/
def skbQueueHead (q : SkbQueue) (skb : Pointer) : Option SkbQueue :=
  if q.links.next .list = .null then none
  else
    let prev := update q.links.prev (q.links.next .list) (.buffer skb)
    some
      { q with
        links :=
          { next := update (update q.links.next (.buffer skb) q.next) .list (.buffer skb)
            prev := update prev (.buffer skb) .list }
        next := .buffer skb
        qlen := u32 (q.qlen + 1) }

/-- `skb_queue_tail` -/
def skbQueueTail (q : SkbQueue) (skb : Pointer) : Option SkbQueue :=
  if q.links.prev .list = .null then none
  else
    let next := update q.links.next (q.links.prev .list) (.buffer skb)
    some
      { q with
        links :=
          { next := update next (.buffer skb) .list
            prev := update (update q.links.prev (.buffer skb) q.prev) .list (.buffer skb) }
        prev := .buffer skb
        qlen := u32 (q.qlen + 1) }

/-- `skb_dequeue`: the buffer, or `none` for `NULL`. -/
def skbDequeue (q : SkbQueue) : Option (Option Pointer × SkbQueue) :=
  match q.next with
  | .list => some (none, q)
  | .null => none
  | .buffer skb =>
    let after := q.links.next (.buffer skb)
    if after = .null then none
    else
      some (some skb,
        { q with
          links :=
            { next := update q.links.next .list after
              prev := update q.links.prev after .list }
          next := after
          qlen := sub32 q.qlen 1 })

/-- `skb_queue_empty` -/
def skbQueueEmpty (q : SkbQueue) : Bool := q.next = .list

/-- `skb_queue_len` -/
def skbQueueLen (q : SkbQueue) : ℕ := q.qlen

/-! ## The buffers on a queue -/

/-- Following `next` from `x` meets the nodes `between` and then `y`. -/
def NextPath (next : SkbNode → SkbNode) : SkbNode → List SkbNode → SkbNode → Prop
  | x, [], y => next x = y
  | x, z :: rest, y => next x = z ∧ NextPath next z rest y

variable {next next' : SkbNode → SkbNode} {between : List SkbNode}

theorem nextPath_concat {x y z : SkbNode} :
    NextPath next x (between ++ [z]) y ↔ NextPath next x between z ∧ next z = y := by
  induction between generalizing x with
  | nil => rfl
  | cons w rest ih => simp [NextPath, ih, and_assoc]

/-- A path is not affected by stores to nodes it does not leave from. -/
theorem NextPath.congr {x y : SkbNode} (path : NextPath next x between y)
    (agree : ∀ z ∈ x :: between, next' z = next z) : NextPath next' x between y := by
  induction between generalizing x with
  | nil => exact (agree x (by simp)).trans path
  | cons w rest ih =>
    refine ⟨(agree x (by simp)).trans path.1, ih path.2 ?_⟩
    intro z mem
    exact agree z (mem_cons_of_mem _ mem)

/-- A path may start at another node with the same successor. -/
theorem NextPath.restart {x x' y : SkbNode}
    (path : NextPath next x between y) (start : next' x' = next x)
    (agree : ∀ z ∈ between, next' z = next z) : NextPath next' x' between y := by
  cases between with
  | nil => exact start.trans path
  | cons w rest => exact ⟨start.trans path.1, path.2.congr agree⟩

/-- The queue holds the buffers `waiting`, the next one to be dequeued first.  The
back links of the buffers do not matter, and are in fact not kept. -/
structure SkbRepresents (q : SkbQueue) (waiting : List Pointer) : Prop where
  nodup : waiting.Nodup
  next_copy : q.next = q.links.next .list
  path : NextPath q.links.next .list (waiting.map .buffer) .list
  last : q.links.prev .list = (waiting.map SkbNode.buffer).getLastD .list
  qlen : q.qlen = waiting.length

theorem skbQueueHeadInit_represents (links : Links SkbNode) :
    SkbRepresents (skbQueueHeadInit links) [] := by
  refine ⟨by simp, ?_, ?_, ?_, rfl⟩ <;> simp [skbQueueHeadInit, NextPath]

section

variable {q : SkbQueue} {waiting : List Pointer} {skb : Pointer}

section

variable (rep : SkbRepresents q waiting)
include rep

theorem SkbRepresents.next_eq : q.next = (waiting.map SkbNode.buffer).headD .list := by
  rw [rep.next_copy]
  cases waiting with
  | nil => exact rep.path
  | cons first rest => exact rep.path.1

theorem SkbRepresents.queueEmpty_iff : skbQueueEmpty q = true ↔ waiting = [] := by
  rw [skbQueueEmpty, rep.next_eq]
  cases waiting <;> simp

theorem skbQueueHead_represents (fresh : skb ∉ waiting) :
    ∃ q', skbQueueHead q skb = some q' ∧ SkbRepresents q' (skb :: waiting) := by
  have nodup : (skb :: waiting).Nodup := nodup_cons.mpr ⟨fresh, rep.nodup⟩
  have first := rep.next_eq
  rw [rep.next_copy] at first
  have nonnull : q.links.next .list ≠ .null := by
    rw [first]
    cases waiting <;> simp
  refine ⟨_, if_neg nonnull, nodup, by simp, ⟨by simp, ?_⟩, ?_, ?_⟩
  · refine rep.path.restart (by simp [rep.next_copy]) ?_
    intro z mem
    obtain ⟨p, waits, rfl⟩ := mem_map.mp mem
    have other : p ≠ skb := ne_of_mem_of_not_mem waits fresh
    simp [other]
  · rw [first]
    cases waiting with
    | nil => simp
    | cons p rest => simpa using rep.last
  · have small := Pointer.length_lt nodup
    rw [length_cons] at small
    show u32 (q.qlen + 1) = (skb :: waiting).length
    rw [rep.qlen, u32_of_lt small, length_cons]

/-- `skb_queue_tail` is right on a queue that is not empty. -/
theorem skbQueueTail_represents (fresh : skb ∉ waiting) (nonempty : waiting ≠ []) :
    ∃ q', skbQueueTail q skb = some q' ∧ SkbRepresents q' (waiting ++ [skb]) := by
  obtain ⟨front, p, rfl⟩ := (eq_nil_or_concat' waiting).resolve_left nonempty
  have nodup : (front ++ [p] ++ [skb]).Nodup := by
    rw [nodup_append_comm]
    exact nodup_cons.mpr ⟨fresh, rep.nodup⟩
  have last : q.links.prev .list = .buffer p := by simpa using rep.last
  have other : p ≠ skb := ne_of_mem_of_not_mem (by simp) fresh
  have path := rep.path
  rw [map_append, map_singleton, nextPath_concat] at path
  refine ⟨_, if_neg (by simp [last]), nodup, by simp [last, rep.next_copy], ?_, by simp, ?_⟩
  · simp only [map_append, map_singleton, nextPath_concat, last]
    refine ⟨⟨path.1.congr ?_, by simp [other]⟩, by simp⟩
    intro z mem
    rcases mem_cons.mp mem with rfl | mem
    · simp
    obtain ⟨w, waits, rfl⟩ := mem_map.mp mem
    have not_skb : w ≠ skb := ne_of_mem_of_not_mem (by simp [waits]) fresh
    have not_p : w ≠ p := by
      rintro rfl
      exact (nodup_append.mp rep.nodup).2.2 w waits w (by simp) rfl
    simp [not_skb, not_p]
  · have small := Pointer.length_lt nodup
    rw [length_append, length_singleton] at small
    show u32 (q.qlen + 1) = (front ++ [p] ++ [skb]).length
    rw [rep.qlen, u32_of_lt small]
    simp

theorem skbDequeue_represents :
    ∃ q', skbDequeue q = some (waiting.head?, q') ∧ SkbRepresents q' waiting.tail := by
  cases waiting with
  | nil =>
    have empty : q.next = .list := rep.next_eq
    exact ⟨q, by simp [skbDequeue, empty], rep⟩
  | cons skb rest =>
    have first : q.next = .buffer skb := rep.next_eq
    have after : q.links.next (.buffer skb) = (rest.map SkbNode.buffer).headD .list := by
      cases rest with
      | nil => exact rep.path.2
      | cons p rest => exact rep.path.2.1
    have nonnull : q.links.next (.buffer skb) ≠ .null := by
      rw [after]
      cases rest <;> simp
    refine ⟨_, by simp only [skbDequeue, first, if_neg nonnull]; rfl,
      (nodup_cons.mp rep.nodup).2, by simp, ?_, ?_, ?_⟩
    · refine rep.path.2.restart (by simp) ?_
      intro z mem
      obtain ⟨p, _, rfl⟩ := mem_map.mp mem
      simp
    · rw [after]
      cases rest with
      | nil =>
        rw [map_nil, headD_nil]
        simp
      | cons p rest => simpa using rep.last
    · have small := Pointer.length_lt rep.nodup
      have qlen := rep.qlen
      rw [length_cons] at small qlen
      show sub32 q.qlen 1 = rest.length
      rw [sub32_of_le (by omega) (by omega), qlen]
      omega

end

end

/-! ## Every sequence of calls -/

/-- The calls on a queue. -/
inductive SkbCall
  | queueHead (skb : Pointer)
  | queueTail (skb : Pointer)
  | dequeue

/-- A queue together with the buffers that were queued and not yet dequeued, in
the order in which they are due. -/
structure SkbRun where
  queue : SkbQueue
  waiting : List Pointer

def skbRunInit (links : Links SkbNode) : SkbRun := ⟨skbQueueHeadInit links, []⟩

/-- One call, and what it does to the buffers that wait. -/
def skbStep (r : SkbRun) : SkbCall → Option SkbRun
  | .queueHead skb => (skbQueueHead r.queue skb).map fun q => ⟨q, skb :: r.waiting⟩
  | .queueTail skb => (skbQueueTail r.queue skb).map fun q => ⟨q, r.waiting ++ [skb]⟩
  | .dequeue =>
    (skbDequeue r.queue).map fun result =>
      match result with
      | (some skb, q) => ⟨q, r.waiting.erase skb⟩
      | (none, q) => ⟨q, r.waiting⟩

/-- Only buffers that are in no queue are queued. -/
def skbLegal (r : SkbRun) : SkbCall → Prop
  | .queueHead skb => skb ∉ r.waiting
  | .queueTail skb => skb ∉ r.waiting
  | .dequeue => True

instance (r : SkbRun) : (call : SkbCall) → Decidable (skbLegal r call)
  | .queueHead skb => inferInstanceAs (Decidable (skb ∉ r.waiting))
  | .queueTail skb => inferInstanceAs (Decidable (skb ∉ r.waiting))
  | .dequeue => isTrue trivial

/-- What a queue promises: it is empty, has length zero and gives nothing exactly
if no buffer is waiting, and otherwise gives the buffer that is due. -/
structure SkbLaw (r : SkbRun) : Prop where
  empty : skbQueueEmpty r.queue = true ↔ r.waiting = []
  length : skbQueueLen r.queue = r.waiting.length
  dequeue : ∃ q, skbDequeue r.queue = some (r.waiting.head?, q)

/-- The call is not a `skb_queue_tail` on an empty queue. -/
def tailNonempty (r : SkbRun) : SkbCall → Prop
  | .queueTail _ => r.waiting ≠ []
  | _ => True

instance (r : SkbRun) : (call : SkbCall) → Decidable (tailNonempty r call)
  | .queueTail _ => inferInstanceAs (Decidable (r.waiting ≠ []))
  | .queueHead _ => isTrue trivial
  | .dequeue => isTrue trivial

variable {r : SkbRun} {call : SkbCall}

theorem SkbRepresents.law (rep : SkbRepresents r.queue r.waiting) : SkbLaw r := by
  obtain ⟨q, result, _⟩ := skbDequeue_represents rep
  exact ⟨rep.queueEmpty_iff, rep.qlen, q, result⟩

theorem skbStep_represents (rep : SkbRepresents r.queue r.waiting)
    (legal : skbLegal r call) (good : tailNonempty r call) :
    ∃ r', skbStep r call = some r' ∧ SkbRepresents r'.queue r'.waiting := by
  cases call with
  | queueHead skb =>
    obtain ⟨q, result, rep'⟩ := skbQueueHead_represents rep legal
    exact ⟨⟨q, skb :: r.waiting⟩, by simp [skbStep, result], rep'⟩
  | queueTail skb =>
    obtain ⟨q, result, rep'⟩ := skbQueueTail_represents rep legal good
    exact ⟨⟨q, r.waiting ++ [skb]⟩, by simp [skbStep, result], rep'⟩
  | dequeue =>
    obtain ⟨q, result, rep'⟩ := skbDequeue_represents rep
    refine ⟨⟨q, r.waiting.tail⟩, ?_, rep'⟩
    cases waits : r.waiting with
    | nil => simp [skbStep, result, waits]
    | cons skb rest => simp [skbStep, result, waits]

/-- `skb_queue_tail` on an empty queue leaves a queue that looks empty. -/
theorem skbStep_breaks {r' : SkbRun} (rep : SkbRepresents r.queue r.waiting)
    (bad : ¬tailNonempty r call) (step : skbStep r call = some r') : ¬SkbLaw r' := by
  cases call with
  | queueHead skb => exact absurd trivial bad
  | dequeue => exact absurd trivial bad
  | queueTail skb =>
    have none_waits : r.waiting = [] := not_not.mp bad
    have empty := rep.queueEmpty_iff.mpr none_waits
    obtain ⟨q, tail_eq, rfl⟩ := Option.map_eq_some_iff.mp step
    intro law
    have still_empty : skbQueueEmpty q = true := by
      unfold skbQueueTail at tail_eq
      split at tail_eq
      · simp at tail_eq
      · cases tail_eq
        exact empty
    simpa using law.empty.mp still_empty

/-- **When a socket-buffer queue is a queue.**  Along every sequence of calls that
queues only buffers in no queue, the queue keeps its promise in every state
exactly if no `skb_queue_tail` is made while the queue is empty. -/
theorem skb_run_law_iff (links : Links SkbNode) (calls : List SkbCall)
    (legal : Allowed skbStep skbLegal (skbRunInit links) calls) :
    (∀ front back, calls = front ++ back →
        ∃ r, exec skbStep (skbRunInit links) front = some r ∧ SkbLaw r) ↔
      Allowed skbStep tailNonempty (skbRunInit links) calls := by
  rw [← throughout_iff_append]
  refine throughout_iff_allowed (fun r => SkbRepresents r.queue r.waiting)
    (fun _ rep => rep.law) ?_ ?_ calls _ (skbQueueHeadInit_represents links) legal
  · intro r call rep legal good
    exact skbStep_represents rep legal good
  · intro r call rep _ bad r' step
    exact skbStep_breaks rep bad step

/-- Two buffers for the runs below. -/
def skbA : Pointer := pagePointer 0

def skbB : Pointer := pagePointer 1

/-- A buffer queued in front of an empty queue, and one behind it: neither is
lost. -/
theorem skb_run_law_head_tail :
    ∃ r, exec skbStep (skbRunInit ⟨id, id⟩)
        [.queueHead skbA, .queueTail skbB, .dequeue, .dequeue, .dequeue] = some r ∧
      SkbLaw r :=
  (skb_run_law_iff ⟨id, id⟩ _ (by decide)).mpr (by decide) _ [] (append_nil _).symm

/-- A buffer queued at the tail of an empty queue: one buffer is waiting, `qlen`
is one, the queue looks empty and `skb_dequeue` returns `NULL`. -/
theorem skb_queue_tail_lost :
    ∃ r, exec skbStep (skbRunInit ⟨id, id⟩) [.queueTail skbA] = some r ∧
      r.waiting = [skbA] ∧ skbQueueLen r.queue = 1 ∧ skbQueueEmpty r.queue = true ∧
      (skbDequeue r.queue).map Prod.fst = some none := by
  refine ⟨_, rfl, rfl, ?_, ?_, ?_⟩ <;> decide

end EduOS
