import EduOS.Include.Bitmap
import EduOS.Include.ListFamily
import EduOS.Library.Word

/-!
# The real-time run queue

`process/rt_sched.c`: a hundred lists of tasks, a bitmap that records which of them are
non-empty, and the index of the first of those.

Which list a task is on is decided when it is put there; which bit is cleared when it
leaves is decided by its `rt_priority` at that moment.  `rt_set_priority` changes the
field of a task on a list, so the two may differ.  A task that leaves list `q` under
another priority leaves the bit of `q` set, which is wrong if it was the last one there;
a task whose time slice ends is moved to the list of its new priority, whose bit nobody
sets.

The lists themselves stay well formed whatever happens (`RtLists`).  The run theorem says
that the bitmap is right exactly as long as a task that leaves its list does so under the
priority it was put there with, or leaves company behind (and, on a tick, finds some where
it goes).
-/

namespace EduOS

open Function (update update_self update_of_ne update_eq_self update_idem)
open List Words

/-! ## The source -/

def maxRtPrio : ℕ := 100

def rrTimeslice : ℕ := 100

/-- `sched_policy_t` -/
inductive SchedPolicy where
  | normal
  | fifo
  | rr
  | batch
  | idle
deriving DecidableEq

/-- The list heads of the queues and the `next` and `prev` of tasks, taken together as a
`struct list_head`. -/
abbrev RtNode := FamilyNode (Fin maxRtPrio) Pointer

/-- `g_rt_rq` and the fields of `struct process` it is used with. -/
structure RtRq where
  links : Links RtNode
  bitmap : Words
  nrRunning : ℕ
  rtNrRunning : ℕ
  highestPrio : ℕ
  rtPriority : Pointer → ℕ
  policy : Pointer → SchedPolicy
  timeSliceRemaining : Pointer → ℕ

/-- The inner loop of `find_first_bit`. -/
def findBitInWord (addr : Words) (i : ℕ) : Unit ⊕ ℕ :=
  scan (fun j _ => if addr i &&& (1#32 <<< j) ≠ 0#32 then Sum.inr (i * 32 + j) else Sum.inl ())
    0 32 ()

/-- `find_first_bit` -/
def findFirstBit (addr : Words) (size : ℕ) : ℕ :=
  match scan (fun i _ => if addr i ≠ 0#32 then findBitInWord addr i else Sum.inl ())
      0 ((size + 31) / 32) () with
  | Sum.inr r => r
  | Sum.inl () => size

/-- `rt_sched_init` -/
def rtSchedInit (r : RtRq) : RtRq :=
  { r with
    links := (List.finRange maxRtPrio).foldl (fun L i => initListHead L (.head i)) r.links
    bitmap := Words.zero
    nrRunning := 0
    rtNrRunning := 0
    highestPrio := maxRtPrio }

/-- `rt_find_highest_prio` -/
def rtFindHighestPrio (bitmap : Words) : ℕ :=
  let idx := findFirstBit bitmap maxRtPrio
  if idx < maxRtPrio then idx else maxRtPrio

/-- The queue that the priority of a task names, if the priority passes
`rt_prio_valid`. -/
def RtRq.queueOf (r : RtRq) (proc : Pointer) : Option (Fin maxRtPrio) :=
  if valid : r.rtPriority proc < maxRtPrio then some ⟨r.rtPriority proc, valid⟩ else none

/-- `rt_enqueue_task` -/
def rtEnqueueTask (r : RtRq) (proc : Pointer) : Option RtRq :=
  match r.queueOf proc with
  | none => some r
  | some prio =>
    (listAddTail .null r.links (.member proc) (.head prio)).map fun links =>
      { r with
        links := links
        bitmap := r.bitmap.set prio
        nrRunning := u32 (r.nrRunning + 1)
        rtNrRunning := u32 (r.rtNrRunning + 1)
        highestPrio := if prio < r.highestPrio then prio else r.highestPrio }

/-- `rt_dequeue_task` -/
def rtDequeueTask (r : RtRq) (proc : Pointer) : Option RtRq :=
  match r.queueOf proc with
  | none => some r
  | some prio =>
    (listDel .null r.links (.member proc)).map fun links =>
      let bitmap := if listEmpty links (.head prio) then r.bitmap.clear prio else r.bitmap
      { r with
        links := links
        bitmap := bitmap
        nrRunning := if r.nrRunning > 0 then r.nrRunning - 1 else r.nrRunning
        rtNrRunning := if r.rtNrRunning > 0 then r.rtNrRunning - 1 else r.rtNrRunning
        highestPrio := rtFindHighestPrio bitmap }

/-- `rt_pick_next_task`; the process is the one that the returned node is part of. -/
def rtPickNextTask (r : RtRq) : Option RtNode :=
  if r.rtNrRunning = 0 then none
  else if valid : r.highestPrio < maxRtPrio then
    if listEmpty r.links (.head ⟨r.highestPrio, valid⟩) then none
    else some (r.links.next (.head ⟨r.highestPrio, valid⟩))
  else none

/-- The end of a time slice: the task is taken off its list and put at the end of the list
its priority names; a priority outside the array is a fault. -/
def rtRotate (r : RtRq) (curr : Pointer) : Option RtRq :=
  match r.queueOf curr with
  | none => none
  | some prio =>
    (listDel .null r.links (.member curr)).bind fun links =>
      (listAddTail .null links (.member curr) (.head prio)).map fun links =>
        { r with
          links := links
          timeSliceRemaining := update r.timeSliceRemaining curr rrTimeslice }

/-- `rt_scheduler_tick` -/
def rtSchedulerTick (r : RtRq) (curr : Pointer) : Option RtRq :=
  if r.policy curr ≠ .rr then some r
  else
    let left := r.timeSliceRemaining curr
    let r :=
      { r with
        timeSliceRemaining :=
          update r.timeSliceRemaining curr (if left > 0 then left - 1 else left) }
    if r.timeSliceRemaining curr = 0 then rtRotate r curr else some r

/-- `rt_set_priority` -/
def rtSetPriority (r : RtRq) (proc : Pointer) (rtPrio : ℤ) : ℤ × RtRq :=
  if 0 ≤ rtPrio ∧ rtPrio < maxRtPrio then
    (0, { r with rtPriority := update r.rtPriority proc rtPrio.toNat })
  else
    (-1, r)

/-! ## Runs -/

/-- The run queue, and for each task the queue it has been put on and not taken off
since. -/
structure RtRun where
  rq : RtRq
  queued : Pointer → Option (Fin maxRtPrio)

/-- After `rt_sched_init`. -/
def rtStart (r : RtRq) : RtRun := ⟨rtSchedInit r, fun _ => none⟩

/-- The calls on tasks. -/
inductive RtCall where
  | enqueue (proc : Pointer)
  | dequeue (proc : Pointer)
  | setPriority (proc : Pointer) (rtPrio : ℤ)
  | tick (proc : Pointer)

/-- A tick moves the task: it is the last one of the slice of a round-robin task. -/
def RtRq.Expires (r : RtRq) (proc : Pointer) : Prop :=
  r.policy proc = .rr ∧ r.timeSliceRemaining proc ≤ 1

instance (r : RtRq) (proc : Pointer) : Decidable (r.Expires proc) :=
  inferInstanceAs (Decidable (_ ∧ _))

/-- One call, and the queue that the task is in after it. -/
def rtStep (s : RtRun) : RtCall → Option RtRun
  | .enqueue proc =>
    (rtEnqueueTask s.rq proc).map fun rq =>
      ⟨rq, update s.queued proc (s.rq.queueOf proc)⟩
  | .dequeue proc =>
    (rtDequeueTask s.rq proc).map fun rq =>
      ⟨rq, if s.rq.queueOf proc = none then s.queued else update s.queued proc none⟩
  | .setPriority proc rtPrio => some ⟨(rtSetPriority s.rq proc rtPrio).2, s.queued⟩
  | .tick proc =>
    (rtSchedulerTick s.rq proc).map fun rq =>
      ⟨rq, if s.rq.Expires proc then update s.queued proc (s.rq.queueOf proc) else s.queued⟩

/-- Tasks are enqueued when they are not queued, and dequeued and ticked when they are. -/
def RtLegal (s : RtRun) : RtCall → Prop
  | .enqueue proc => s.queued proc = none
  | .dequeue proc | .tick proc => s.queued proc ≠ none
  | .setPriority _ rtPrio => 0 ≤ rtPrio ∧ rtPrio < maxRtPrio

instance (s : RtRun) : (call : RtCall) → Decidable (RtLegal s call)
  | .enqueue _ => inferInstanceAs (Decidable (_ = _))
  | .dequeue _ | .tick _ => inferInstanceAs (Decidable (_ ≠ _))
  | .setPriority _ _ => inferInstanceAs (Decidable (_ ∧ _))

/-- `h` is the first set bit below `size`, or `size` if there is none. -/
def FirstSet (addr : Words) (size h : ℕ) : Prop :=
  (h < size ∧ addr.test h = true ∨ h = size) ∧ ∀ j, j < h → addr.test j = false

/-- The bitmap shows the non-empty queues, `highest_prio` the first of them, and a task is
picked exactly if one is queued. -/
structure RtConsistent (s : RtRun) : Prop where
  bits : ∀ p : Fin maxRtPrio, s.rq.bitmap.test p = true ↔ listEmpty s.rq.links (.head p) = false
  highest : FirstSet s.rq.bitmap maxRtPrio s.rq.highestPrio
  pick : rtPickNextTask s.rq = none ↔ ∀ proc, s.queued proc = none

/-- Another task is on the queue of `proc`. -/
def RtRun.Company (s : RtRun) (proc : Pointer) : Prop :=
  ∃ other, other ≠ proc ∧ s.queued other = s.queued proc

/-- A task that leaves its queue has the priority of that queue, or leaves company there
and, if it is moved, joins some. -/
def RtGood (s : RtRun) : RtCall → Prop
  | .enqueue _ | .setPriority _ _ => True
  | .dequeue proc => s.queued proc = s.rq.queueOf proc ∨ s.Company proc
  | .tick proc =>
    s.rq.Expires proc → s.queued proc = s.rq.queueOf proc ∨
      s.Company proc ∧ ∃ other, s.queued other = s.rq.queueOf proc

/-- The simple case: a task leaves its queue with the priority of that queue. -/
def RtSteady (s : RtRun) : RtCall → Prop
  | .enqueue _ | .setPriority _ _ => True
  | .dequeue proc => s.queued proc = s.rq.queueOf proc
  | .tick proc => s.rq.Expires proc → s.queued proc = s.rq.queueOf proc

instance (s : RtRun) : (call : RtCall) → Decidable (RtSteady s call)
  | .enqueue _ | .setPriority _ _ => inferInstanceAs (Decidable True)
  | .dequeue _ => inferInstanceAs (Decidable (_ = _))
  | .tick _ => inferInstanceAs (Decidable (_ → _))

variable {s : RtRun} {lists : Fin maxRtPrio → List Pointer} {proc : Pointer} {q p : Fin maxRtPrio}
    {all : List Pointer}

theorem RtSteady.good {call : RtCall} (steady : RtSteady s call) : RtGood s call := by
  cases call with
  | enqueue _ => trivial
  | setPriority _ _ => trivial
  | dequeue _ => exact Or.inl steady
  | tick _ => exact fun expires => Or.inl (steady expires)

/-! ## The bitmap -/

section

variable {addr : Words} {size h i : ℕ}

/-- What a search has established before it looks at bit `i`. -/
def ClearBelow (addr : Words) (i : ℕ) : Prop := ∀ j, j < i → addr.test j = false

theorem findBitInWord_cases (below : ClearBelow addr (i * 32)) :
    (findBitInWord addr i = Sum.inl () ∧ ClearBelow addr ((i + 1) * 32)) ∨
      ∃ r, findBitInWord addr i = Sum.inr r ∧ r < (i + 1) * 32 ∧ addr.test r = true ∧
        ClearBelow addr r := by
  rw [Nat.succ_mul]
  refine scan_first_each _ (fun r => r) addr.test true (i * 32) rfl below fun j small => ?_
  simp only [ne_eq, and_shift_eq_zero small, Bool.not_eq_false]

/-- A word that is 0 has no set bit. -/
theorem clearBelow_of_zero (below : ClearBelow addr (i * 32)) (zero : addr i = 0#32) :
    ClearBelow addr ((i + 1) * 32) := by
  intro j lt
  by_cases earlier : j < i * 32
  · exact below j earlier
  · have word : j / 32 = i := by omega
    rw [test_eq_getLsbD, word, zero, BitVec.getLsbD_zero]

/-- `find_first_bit` finds the first set bit, if the bits from `size` on are clear. -/
theorem findFirstBit_firstSet (addr : Words) (size : ℕ)
    (beyond : ∀ j, size ≤ j → addr.test j = false) :
    FirstSet addr size (findFirstBit addr size) := by
  have found := scan_first
    (fun i _ => if addr i ≠ 0#32 then findBitInWord addr i else Sum.inl ()) (fun r => r) addr.test
    true (· * 32) (Nat.zero_add ((size + 31) / 32)) (fun j lt => by omega) ?pass
  case pass =>
    intro i below clear
    by_cases zero : addr i = 0#32
    · exact Or.inl ⟨if_neg (not_not.mpr zero), clearBelow_of_zero clear zero⟩
    · rw [if_pos zero]
      rcases findBitInWord_cases clear with next | ⟨r, result, inside, first⟩
      · exact Or.inl next
      · exact Or.inr ⟨r, result, by omega, first⟩
  unfold findFirstBit
  rcases found with ⟨result, clear⟩ | ⟨r, result, _, set, clear⟩
  · simp only [result]
    exact ⟨Or.inr rfl, fun j lt => clear j (by omega)⟩
  simp only [result]
  refine ⟨Or.inl ⟨?_, set⟩, clear⟩
  by_contra outside
  rw [beyond r (by omega)] at set
  exact absurd set (by decide)

theorem rtFindHighestPrio_firstSet (beyond : ∀ j, maxRtPrio ≤ j → addr.test j = false) :
    FirstSet addr maxRtPrio (rtFindHighestPrio addr) := by
  have first := findFirstBit_firstSet addr maxRtPrio beyond
  unfold rtFindHighestPrio
  by_cases inside : findFirstBit addr maxRtPrio < maxRtPrio
  · simpa only [if_pos inside] using first
  have none_set : findFirstBit addr maxRtPrio = maxRtPrio := by
    rcases first.1 with ⟨below, _⟩ | same
    · exact absurd below inside
    · exact same
  simp only [if_neg inside]
  rwa [none_set] at first

/-- Setting a bit moves the first set bit there, or not at all. -/
theorem FirstSet.set (first : FirstSet addr size h) {p : ℕ} (below : p < size) :
    FirstSet (addr.set p) size (if p < h then p else h) := by
  obtain ⟨found, clear⟩ := first
  by_cases before : p < h
  · rw [if_pos before]
    refine ⟨Or.inl ⟨below, test_set_self addr p⟩, fun j lt => ?_⟩
    rw [test_set_of_ne addr (by omega)]
    exact clear j (by omega)
  rw [if_neg before]
  constructor
  · rcases found with ⟨inside, set⟩ | rfl
    · refine Or.inl ⟨inside, ?_⟩
      by_cases same : p = h
      · rw [same, test_set_self]
      · rw [test_set_of_ne addr same, set]
    · exact absurd below before
  · intro j lt
    rw [test_set_of_ne addr (by omega)]
    exact clear j lt

end

/-! ## The lists -/

/-- The lists hold the tasks where the record says. -/
def Listed (lists : Fin maxRtPrio → List Pointer) (queued : Pointer → Option (Fin maxRtPrio)) :
    Prop :=
  ∀ i proc, proc ∈ lists i ↔ queued proc = some i

section

variable {queued : Pointer → Option (Fin maxRtPrio)}

theorem Listed.add (listed : Listed lists queued) (off : queued proc = none) (p : Fin maxRtPrio) :
    Listed (update lists p (lists p ++ [proc])) (update queued proc (some p)) := by
  intro i u
  have before := listed i u
  by_cases same : u = proc
  · subst same
    by_cases here : i = p
    · simp [here]
    · rw [update_of_ne here, before, off]
      simp [Ne.symm here]
  · rw [update_of_ne same, ← before]
    by_cases here : i = p
    · subst here
      simp [same]
    · rw [update_of_ne here]

theorem Listed.del (listed : Listed lists queued) (distinct : (lists q).Nodup)
    (on : queued proc = some q) :
    Listed (update lists q ((lists q).erase proc)) (update queued proc none) := by
  intro i u
  have before := listed i u
  by_cases same : u = proc
  · subst same
    by_cases here : i = q
    · subst here
      simp [distinct.mem_erase_iff]
    · rw [update_of_ne here, before, on]
      simp [Ne.symm here]
  · rw [update_of_ne same, ← before]
    by_cases here : i = q
    · subst here
      rw [update_self, mem_erase_of_ne same]
    · rw [update_of_ne here]

end

/-- What every legal call keeps: the lists are lists, hold the queued tasks and are
counted right.  `all` are the queued tasks in some order. -/
structure RtLists (s : RtRun) (lists : Fin maxRtPrio → List Pointer) (all : List Pointer) :
    Prop where
  family : ListFamily s.rq.links lists
  listed : Listed lists s.queued
  valid : ∀ proc, s.queued proc ≠ none → s.rq.queueOf proc ≠ none
  distinct : all.Nodup
  members : ∀ proc, proc ∈ all ↔ s.queued proc ≠ none
  counted : s.rq.rtNrRunning = all.length

/-- What only good calls keep. -/
structure BitsRight (s : RtRun) : Prop where
  bits : ∀ i : Fin maxRtPrio, s.rq.bitmap.test i = true ↔ ∃ proc, s.queued proc = some i
  beyond : ∀ j, maxRtPrio ≤ j → s.rq.bitmap.test j = false
  highest : FirstSet s.rq.bitmap maxRtPrio s.rq.highestPrio

namespace RtLists

theorem start (r : RtRq) : RtLists (rtStart r) (fun _ => []) [] where
  family := by
    have rings : ∀ (heads : List (Fin maxRtPrio)) (L : Links RtNode) (i : Fin maxRtPrio),
        (i ∈ heads ∨ L.Ring (.head i) []) →
        (heads.foldl (fun L i => initListHead L (.head i)) L).Ring (.head i) [] := by
      intro heads
      induction heads with
      | nil => rintro L i (mem | ring); exacts [absurd mem not_mem_nil, ring]
      | cons head heads ih =>
        intro L i given
        refine ih _ i ?_
        by_cases same : i = head
        · exact Or.inr (same ▸ initListHead_ring L _)
        rcases given with mem | ring
        · exact Or.inl ((mem_cons.mp mem).resolve_left same)
        · refine Or.inr (ring.of_sameLinks fun x mem => ?_)
          obtain rfl : x = .head i := by simpa using mem
          exact initListHead_sameLinks (by simpa using same)
    exact ⟨fun i => rings _ _ i (Or.inl (mem_finRange i)), fun mem => absurd mem (by simp)⟩
  listed := fun i proc => by simp [rtStart]
  valid := fun proc on => absurd rfl on
  distinct := nodup_nil
  members := fun proc => by simp [rtStart]
  counted := rfl

section

variable (inv : RtLists s lists all)
include inv

theorem off_lists (off : s.queued proc = none) (i : Fin maxRtPrio) : proc ∉ lists i := by
  rw [inv.listed i proc, off]
  simp

theorem nonempty_iff (i : Fin maxRtPrio) :
    listEmpty s.rq.links (.head i) = false ↔ ∃ proc, s.queued proc = some i := by
  rw [← Bool.not_eq_true, inv.family.listEmpty_iff, eq_nil_iff_forall_not_mem]
  simp [inv.listed i, not_forall]

/-- A task that is put on a queue, or taken off, has a valid priority. -/
theorem valid_update {target : Option (Fin maxRtPrio)}
    (valid : target ≠ none → s.rq.queueOf proc ≠ none) (other : Pointer)
    (on : update s.queued proc target other ≠ none) : s.rq.queueOf other ≠ none := by
  by_cases same : other = proc
  · subst same
    exact valid (by simpa using on)
  · exact inv.valid other (by simpa [update_of_ne same] using on)

/-- Putting a task on the list of its priority. -/
theorem enqueue (off : s.queued proc = none) (at_p : s.rq.queueOf proc = some p) :
    ∃ s', rtStep s (.enqueue proc) = some s' ∧
      RtLists s' (update lists p (lists p ++ [proc])) (proc :: all) ∧
      s'.queued = update s.queued proc (some p) ∧
      s'.rq.bitmap = s.rq.bitmap.set p ∧
      s'.rq.highestPrio = (if p < s.rq.highestPrio then p.val else s.rq.highestPrio) ∧
      s'.rq.rtPriority = s.rq.rtPriority := by
  obtain ⟨links, added, family⟩ := inv.family.addTail (inv.off_lists off) p
  have distinct : (proc :: all).Nodup :=
    nodup_cons.mpr ⟨fun mem => (inv.members proc).mp mem off, inv.distinct⟩
  have result : rtStep s (.enqueue proc) = some
      ⟨{ s.rq with
          links := links
          bitmap := s.rq.bitmap.set p
          nrRunning := u32 (s.rq.nrRunning + 1)
          rtNrRunning := u32 (s.rq.rtNrRunning + 1)
          highestPrio := if p < s.rq.highestPrio then p.val else s.rq.highestPrio },
        update s.queued proc (some p)⟩ := by
    simp [rtStep, rtEnqueueTask, at_p, added]
  refine ⟨_, result, ⟨family, inv.listed.add off p, inv.valid_update fun _ => by simp [at_p],
    distinct, ?_, ?_⟩, rfl, rfl, rfl, rfl⟩
  · intro other
    by_cases same : other = proc
    · simp [same]
    · simp [same, inv.members other]
  · show u32 (s.rq.rtNrRunning + 1) = all.length + 1
    rw [inv.counted]
    exact u32_of_lt (Pointer.length_lt distinct)

/-- Taking a task off its list. -/
theorem dequeue (on : s.queued proc = some q) (at_p : s.rq.queueOf proc = some p) :
    ∃ s', rtStep s (.dequeue proc) = some s' ∧
      RtLists s' (update lists q ((lists q).erase proc)) (all.erase proc) ∧
      s'.queued = update s.queued proc none ∧
      ((∃ other, s'.queued other = some p) → s'.rq.bitmap = s.rq.bitmap) ∧
      ((¬∃ other, s'.queued other = some p) → s'.rq.bitmap = s.rq.bitmap.clear p) ∧
      s'.rq.highestPrio = rtFindHighestPrio s'.rq.bitmap ∧
      s'.rq.rtPriority = s.rq.rtPriority := by
  obtain ⟨links, removed, family⟩ := inv.family.del ((inv.listed q proc).mpr on)
  have listed := inv.listed.del (inv.family.nodup q) on
  have mem : proc ∈ all := (inv.members proc).mpr (by rw [on]; simp)
  -- the emptiness test of the source looks at the new lists
  have empty : listEmpty links (.head p) = true ↔
      ¬∃ other, update s.queued proc none other = some p := by
    rw [family.listEmpty_iff, eq_nil_iff_forall_not_mem, not_exists]
    exact forall_congr' fun other => not_congr (listed p other)
  have result : rtStep s (.dequeue proc) = some
      ⟨{ s.rq with
          links := links
          bitmap := if listEmpty links (.head p) then s.rq.bitmap.clear p else s.rq.bitmap
          nrRunning := if s.rq.nrRunning > 0 then s.rq.nrRunning - 1 else s.rq.nrRunning
          rtNrRunning :=
            if s.rq.rtNrRunning > 0 then s.rq.rtNrRunning - 1 else s.rq.rtNrRunning
          highestPrio := rtFindHighestPrio
            (if listEmpty links (.head p) then s.rq.bitmap.clear p else s.rq.bitmap) },
        update s.queued proc none⟩ := by
    simp [rtStep, rtDequeueTask, at_p, removed]
  refine ⟨_, result, ⟨family, listed, inv.valid_update fun absurd_on => absurd rfl absurd_on,
    inv.distinct.erase proc, ?_, ?_⟩, rfl, ?_, ?_, rfl, rfl⟩
  · intro other
    rw [inv.distinct.mem_erase_iff, inv.members other]
    by_cases same : other = proc
    · simp [same]
    · simp [same]
  · show (if s.rq.rtNrRunning > 0 then s.rq.rtNrRunning - 1 else s.rq.rtNrRunning) = _
    have positive := length_pos_of_mem mem
    rw [inv.counted, if_pos positive, length_erase_of_mem mem]
  · intro company
    exact if_neg fun alone => empty.mp alone company
  · intro alone
    exact if_pos (empty.mpr alone)

/-- The end of a time slice. -/
theorem expire (on : s.queued proc = some q)
    (at_p : s.rq.queueOf proc = some p) (expires : s.rq.Expires proc) :
    ∃ s' lists', rtStep s (.tick proc) = some s' ∧ RtLists s' lists' all ∧
      s'.queued = update s.queued proc (some p) ∧
      s'.rq.bitmap = s.rq.bitmap ∧ s'.rq.highestPrio = s.rq.highestPrio := by
  obtain ⟨links, removed, family⟩ := inv.family.del ((inv.listed q proc).mpr on)
  have listed := inv.listed.del (inv.family.nodup q) on
  have off : ∀ i, proc ∉ update lists q ((lists q).erase proc) i := by
    intro i
    rw [listed i proc, update_self]
    simp
  obtain ⟨links', added, family'⟩ := family.addTail off p
  have listed' := listed.add (by rw [update_self]) p
  rw [update_idem] at listed'
  have last : (if s.rq.timeSliceRemaining proc > 0 then s.rq.timeSliceRemaining proc - 1
      else s.rq.timeSliceRemaining proc) = 0 := by
    have short := expires.2
    split <;> omega
  have at_p' : ∀ slices, ({ s.rq with timeSliceRemaining := slices } : RtRq).queueOf proc =
      some p := fun _ => at_p
  have result : rtStep s (.tick proc) = some
      ⟨{ s.rq with
          links := links'
          timeSliceRemaining := update
            (update s.rq.timeSliceRemaining proc
              (if s.rq.timeSliceRemaining proc > 0 then s.rq.timeSliceRemaining proc - 1
                else s.rq.timeSliceRemaining proc)) proc rrTimeslice },
        update s.queued proc (some p)⟩ := by
    simp [rtStep, rtSchedulerTick, expires.1, last, rtRotate, at_p', removed, added, if_pos expires]
  refine ⟨_, _, result, ⟨family', listed', inv.valid_update fun _ => by simp [at_p],
    inv.distinct, ?_, inv.counted⟩, rfl, rfl, rfl⟩
  intro other
  by_cases same : other = proc
  · simp [same, inv.members proc, on]
  · simp [same, inv.members other]

/-- Any other tick leaves the lists alone. -/
theorem tick (stays : ¬s.rq.Expires proc) :
    ∃ s', rtStep s (.tick proc) = some s' ∧ RtLists s' lists all ∧ s'.queued = s.queued ∧
      s'.rq.bitmap = s.rq.bitmap ∧ s'.rq.highestPrio = s.rq.highestPrio := by
  by_cases rr : s.rq.policy proc = .rr
  · have more : (if s.rq.timeSliceRemaining proc > 0 then s.rq.timeSliceRemaining proc - 1
        else s.rq.timeSliceRemaining proc) ≠ 0 := by
      have long : ¬s.rq.timeSliceRemaining proc ≤ 1 := fun short => stays ⟨rr, short⟩
      rw [if_pos (by omega)]
      omega
    have result : rtStep s (.tick proc) = some
        ⟨{ s.rq with
            timeSliceRemaining := update s.rq.timeSliceRemaining proc
              (if s.rq.timeSliceRemaining proc > 0 then s.rq.timeSliceRemaining proc - 1
                else s.rq.timeSliceRemaining proc) }, s.queued⟩ := by
      simp [rtStep, rtSchedulerTick, rr, if_neg more, if_neg stays]
    exact ⟨_, result, { inv with }, rfl, rfl, rfl⟩
  · refine ⟨s, ?_, inv, rfl, rfl, rfl⟩
    simp [rtStep, rtSchedulerTick, rr, if_neg stays]

/-- A priority is changed. -/
theorem setPriority {rtPrio : ℤ} (range : 0 ≤ rtPrio ∧ rtPrio < maxRtPrio) :
    ∃ s', rtStep s (.setPriority proc rtPrio) = some s' ∧ RtLists s' lists all ∧
      s'.queued = s.queued ∧ s'.rq.bitmap = s.rq.bitmap ∧
      s'.rq.highestPrio = s.rq.highestPrio := by
  refine ⟨⟨{ s.rq with rtPriority := update s.rq.rtPriority proc rtPrio.toNat },
    s.queued⟩, ?_, ⟨inv.family, inv.listed, ?_, inv.distinct, inv.members, inv.counted⟩,
    rfl, rfl, rfl⟩
  · simp [rtStep, rtSetPriority, if_pos range]
  intro other on
  have before := inv.valid other on
  by_cases same : other = proc
  · have small : rtPrio.toNat < maxRtPrio := by omega
    simp [RtRq.queueOf, same, small]
  · simpa [RtRq.queueOf, update_of_ne same] using before

end

/-! ## What the bitmap has to do with it -/

/-- With the right bits the run queue is consistent. -/
theorem consistent (inv : RtLists s lists all) (right : BitsRight s) : RtConsistent s where
  bits := fun p => (right.bits p).trans (inv.nonempty_iff p).symm
  highest := right.highest
  pick := by
    constructor
    · intro none_picked proc
      by_contra on
      obtain ⟨i, at_i⟩ := Option.ne_none_iff_exists'.mp on
      have counted : s.rq.rtNrRunning ≠ 0 := by
        have := length_pos_of_mem ((inv.members proc).mpr on)
        rw [inv.counted]
        omega
      -- the first set bit is that of a queue with a task
      have set := (right.bits i).mpr ⟨proc, at_i⟩
      obtain ⟨found, clear⟩ := right.highest
      have below : s.rq.highestPrio < maxRtPrio ∧ s.rq.bitmap.test s.rq.highestPrio = true := by
        rcases found with found | none_set
        · exact found
        · rw [clear i (by rw [none_set]; exact i.2)] at set
          exact absurd set (by decide)
      have busy := (inv.nonempty_iff ⟨s.rq.highestPrio, below.1⟩).mpr
        ((right.bits ⟨s.rq.highestPrio, below.1⟩).mp below.2)
      simp [rtPickNextTask, counted, below.1, busy] at none_picked
    · intro nobody
      have empty : all = [] := eq_nil_iff_forall_not_mem.mpr fun proc mem =>
        (inv.members proc).mp mem (nobody proc)
      exact if_pos (by rw [inv.counted, empty]; rfl)

/-- The task picked is the first one of the first non-empty queue. -/
theorem pick_first (inv : RtLists s lists all) (right : BitsRight s) {i : Fin maxRtPrio}
    {rest : List Pointer} (starts : lists i = proc :: rest)
    (first : ∀ j, j < i → lists j = []) : rtPickNextTask s.rq = some (.member proc) := by
  have on : s.queued proc = some i := (inv.listed i proc).mp (by simp [starts])
  have counted : s.rq.rtNrRunning ≠ 0 := by
    have := length_pos_of_mem ((inv.members proc).mpr (by rw [on]; simp))
    rw [inv.counted]
    omega
  have set := (right.bits i).mpr ⟨proc, on⟩
  obtain ⟨found, clear⟩ := right.highest
  have highest : s.rq.highestPrio = i := by
    rcases Nat.lt_trichotomy s.rq.highestPrio i with before | same | after
    · have inside : s.rq.highestPrio < maxRtPrio := by omega
      rcases found with ⟨_, set'⟩ | outside
      · obtain ⟨other, at_h⟩ := (right.bits ⟨s.rq.highestPrio, inside⟩).mp set'
        have mem := (inv.listed _ other).mpr at_h
        rw [first ⟨s.rq.highestPrio, inside⟩ before] at mem
        exact absurd mem not_mem_nil
      · omega
    · exact same
    · rw [clear i after] at set
      exact absurd set (by decide)
  have busy := (inv.nonempty_iff i).mpr ⟨proc, on⟩
  simp [rtPickNextTask, counted, highest, i.2, busy, inv.family.next_head starts]

/-- Consistency forces the bits to be right. -/
theorem bits_of_consistent (inv : RtLists s lists all) (consistent : RtConsistent s)
    (i : Fin maxRtPrio) : s.rq.bitmap.test i = true ↔ ∃ proc, s.queued proc = some i :=
  (consistent.bits i).trans (inv.nonempty_iff i)

end RtLists

namespace BitsRight

variable {s' : RtRun}

theorem start (r : RtRq) : BitsRight (rtStart r) where
  bits := fun i => by simp [rtStart, rtSchedInit]
  beyond := fun j _ => test_zero j
  highest := ⟨Or.inr rfl, fun j _ => test_zero j⟩

theorem congr (right : BitsRight s) (queued : s'.queued = s.queued)
    (bitmap : s'.rq.bitmap = s.rq.bitmap) (highest : s'.rq.highestPrio = s.rq.highestPrio) :
    BitsRight s' where
  bits := by rw [queued, bitmap]; exact right.bits
  beyond := by rw [bitmap]; exact right.beyond
  highest := by rw [bitmap, highest]; exact right.highest

theorem enqueue (right : BitsRight s) (off : s.queued proc = none)
    (queued : s'.queued = update s.queued proc (some p)) (bitmap : s'.rq.bitmap = s.rq.bitmap.set p)
    (highest : s'.rq.highestPrio = if p < s.rq.highestPrio then p.val else s.rq.highestPrio) :
    BitsRight s' where
  bits := by
    intro i
    rw [queued, bitmap]
    by_cases same : p = i
    · subst same
      exact iff_of_true (test_set_self _ _) ⟨proc, update_self ..⟩
    rw [test_set_of_ne _ (Fin.val_ne_of_ne same), right.bits i]
    constructor
    · rintro ⟨other, at_i⟩
      have apart : other ≠ proc := by
        rintro rfl
        rw [off] at at_i
        exact absurd at_i (by simp)
      exact ⟨other, by rw [update_of_ne apart, at_i]⟩
    · rintro ⟨other, at_i⟩
      by_cases here : other = proc
      · subst here
        rw [update_self] at at_i
        exact absurd (Option.some.inj at_i) same
      · exact ⟨other, by rwa [update_of_ne here] at at_i⟩
  beyond := by
    intro j outside
    rw [bitmap, test_set_of_ne _ (by have := p.2; omega)]
    exact right.beyond j outside
  highest := by
    rw [bitmap, highest]
    exact right.highest.set p.2

/-- The bit of the queue left is cleared if it is the queue of the priority; otherwise
somebody must still be there. -/
theorem dequeue (right : BitsRight s) (on : s.queued proc = some q)
    (queued : s'.queued = update s.queued proc none)
    (kept : (∃ other, s'.queued other = some p) → s'.rq.bitmap = s.rq.bitmap)
    (cleared : (¬∃ other, s'.queued other = some p) → s'.rq.bitmap = s.rq.bitmap.clear p)
    (highest : s'.rq.highestPrio = rtFindHighestPrio s'.rq.bitmap)
    (good : q = p ∨ s.Company proc) : BitsRight s' := by
  have elsewhere : ∀ i, i ≠ q →
      ((∃ other, s'.queued other = some i) ↔ ∃ other, s.queued other = some i) := by
    intro i other_queue
    refine exists_congr fun other => ?_
    by_cases here : other = proc
    · subst here
      rw [queued, update_self, on]
      simp [Ne.symm other_queue]
    · rw [queued, update_of_ne here]
  have left_behind : s.Company proc → ∃ other, s'.queued other = some q := by
    rintro ⟨other, apart, same⟩
    exact ⟨other, by rw [queued, update_of_ne apart, same, on]⟩
  have test : ∀ j, s'.rq.bitmap.test j = true ↔
      s.rq.bitmap.test j = true ∧ (j = p.val → ∃ other, s'.queued other = some p) := by
    intro j
    by_cases busy : ∃ other, s'.queued other = some p
    · rw [kept busy]
      exact ⟨fun set => ⟨set, fun _ => busy⟩, And.left⟩
    rw [cleared busy]
    by_cases here : p.val = j
    · simp [← here, busy]
    · rw [test_clear_of_ne _ here]
      exact ⟨fun set => ⟨set, fun same => absurd same.symm here⟩, And.left⟩
  have beyond : ∀ j, maxRtPrio ≤ j → s'.rq.bitmap.test j = false := by
    intro j outside
    rw [← Bool.not_eq_true, test j, right.beyond j outside]
    simp
  refine ⟨fun i => ?_, beyond, by rw [highest]; exact rtFindHighestPrio_firstSet beyond⟩
  rw [test i, right.bits i]
  by_cases left : i = q
  · subst left
    have was_set : ∃ other, s.queued other = some i := ⟨proc, on⟩
    rcases good with same | company
    · subst same
      exact ⟨fun both => both.2 rfl, fun busy => ⟨was_set, fun _ => busy⟩⟩
    · refine iff_of_true ⟨was_set, fun same => ?_⟩ (left_behind company)
      rw [← Fin.ext same]
      exact left_behind company
  · rw [elsewhere i left]
    refine ⟨And.left, fun busy => ⟨busy, fun same => ?_⟩⟩
    rw [← Fin.ext same]
    exact (elsewhere i left).mpr busy

theorem expire (right : BitsRight s) (on : s.queued proc = some q)
    (queued : s'.queued = update s.queued proc (some p))
    (bitmap : s'.rq.bitmap = s.rq.bitmap) (highest : s'.rq.highestPrio = s.rq.highestPrio)
    (good : q = p ∨ s.Company proc ∧ ∃ other, s.queued other = some p) : BitsRight s' := by
  refine ⟨fun i => ?_, by rw [bitmap]; exact right.beyond, by
    rw [bitmap, highest]; exact right.highest⟩
  rw [bitmap, right.bits i]
  rcases good with same | ⟨⟨other, apart, same⟩, newcomer, at_p⟩
  · -- the task stays on its queue
    have unmoved : s'.queued = s.queued := by
      rw [queued, ← same, ← on]
      exact update_eq_self proc s.queued
    rw [unmoved]
  · constructor
    · rintro ⟨u, at_i⟩
      by_cases here : u = proc
      · subst here
        exact ⟨other, by rw [queued, update_of_ne apart, same, at_i]⟩
      · exact ⟨u, by rw [queued, update_of_ne here, at_i]⟩
    · rintro ⟨u, at_i⟩
      by_cases here : u = proc
      · subst here
        rw [queued, update_self] at at_i
        exact ⟨newcomer, at_p.trans at_i⟩
      · exact ⟨u, by rwa [queued, update_of_ne here] at at_i⟩

end BitsRight

/-! ## Runs -/

/-- The invariant of good runs. -/
def RtInv (s : RtRun) : Prop := ∃ lists all, RtLists s lists all ∧ BitsRight s

/-- A queued task is on a queue and has a valid priority. -/
theorem RtLists.queues (inv : RtLists s lists all) (on : s.queued proc ≠ none) :
    ∃ q p, s.queued proc = some q ∧ s.rq.queueOf proc = some p := by
  obtain ⟨q, at_q⟩ := Option.ne_none_iff_exists'.mp on
  obtain ⟨p, at_p⟩ := Option.ne_none_iff_exists'.mp (inv.valid proc on)
  exact ⟨q, p, at_q, at_p⟩

/-- Good calls return and keep the invariant. -/
theorem rtStep_keeps (s : RtRun) (call : RtCall) (inv : RtInv s) (legal : RtLegal s call)
    (good : RtGood s call) : ∃ s', rtStep s call = some s' ∧ RtInv s' := by
  obtain ⟨lists, all, inv, right⟩ := inv
  cases call with
  | enqueue proc =>
    have off : s.queued proc = none := legal
    cases at_p : s.rq.queueOf proc with
    | none =>
      -- an invalid priority: nothing happens
      refine ⟨s, ?_, lists, all, inv, right⟩
      simp only [rtStep, rtEnqueueTask, at_p, Option.map_some]
      rw [← off, update_eq_self]
    | some p =>
      obtain ⟨s', result, inv', queued, bitmap, highest, _⟩ := inv.enqueue off at_p
      exact ⟨s', result, _, _, inv', right.enqueue off queued bitmap highest⟩
  | dequeue proc =>
    obtain ⟨q, p, on, at_p⟩ := inv.queues legal
    obtain ⟨s', result, inv', queued, kept, cleared, highest, _⟩ := inv.dequeue on at_p
    refine ⟨s', result, _, _, inv', right.dequeue on queued kept cleared highest ?_⟩
    exact good.imp_left fun same => Option.some.inj (on.symm.trans (same.trans at_p))
  | setPriority proc rtPrio =>
    obtain ⟨s', result, inv', queued, bitmap, highest⟩ := inv.setPriority legal
    exact ⟨s', result, lists, all, inv', right.congr queued bitmap highest⟩
  | tick proc =>
    by_cases expires : s.rq.Expires proc
    · obtain ⟨q, p, on, at_p⟩ := inv.queues legal
      obtain ⟨s', lists', result, inv', queued, bitmap, highest⟩ := inv.expire on at_p expires
      refine ⟨s', result, lists', all, inv', right.expire on queued bitmap highest ?_⟩
      have good := good expires
      rw [on, at_p] at good
      exact good.imp_left Option.some.inj
    · obtain ⟨s', result, inv', queued, bitmap, highest⟩ := inv.tick expires
      exact ⟨s', result, lists, all, inv', right.congr queued bitmap highest⟩

/-- A call that is not good leaves a bit that is wrong. -/
theorem rtStep_breaks (s : RtRun) (call : RtCall) (inv : RtInv s) (legal : RtLegal s call)
    (bad : ¬RtGood s call) (s' : RtRun) (stepped : rtStep s call = some s') :
    ¬RtConsistent s' := by
  obtain ⟨lists, all, inv, right⟩ := inv
  intro consistent
  cases call with
  | enqueue proc => exact bad trivial
  | setPriority proc rtPrio => exact bad trivial
  | dequeue proc =>
    obtain ⟨q, p, on, at_p⟩ := inv.queues legal
    obtain ⟨t, result, inv', queued, kept, cleared, _⟩ := inv.dequeue on at_p
    obtain rfl : t = s' := Option.mem_unique result stepped
    have apart : p.val ≠ q.val := by
      intro same
      exact bad (Or.inl (by rw [on, at_p, Fin.ext same]))
    -- the bit of the queue left is still set, so somebody is still there
    have set : t.rq.bitmap.test q = true := by
      have before := (right.bits q).mpr ⟨proc, on⟩
      by_cases busy : ∃ other, t.queued other = some p
      · rw [kept busy, before]
      · rw [cleared busy, test_clear_of_ne _ apart, before]
    obtain ⟨other, at_q⟩ := (inv'.bits_of_consistent consistent q).mp set
    have different : other ≠ proc := by
      rintro rfl
      rw [queued, update_self] at at_q
      exact absurd at_q (by simp)
    rw [queued, update_of_ne different] at at_q
    exact bad (Or.inr ⟨other, different, at_q.trans on.symm⟩)
  | tick proc =>
    have expires : s.rq.Expires proc := by
      by_contra stays
      exact bad fun expires => absurd expires stays
    obtain ⟨q, p, on, at_p⟩ := inv.queues legal
    obtain ⟨t, lists', result, inv', queued, bitmap, _⟩ := inv.expire on at_p expires
    obtain rfl : t = s' := Option.mem_unique result stepped
    have apart : p ≠ q := by
      rintro rfl
      exact bad fun _ => Or.inl (on.trans at_p.symm)
    -- both bits are as before, so both queues must have been in use by others
    have bits := inv'.bits_of_consistent consistent
    rw [bitmap] at bits
    obtain ⟨other, at_q⟩ := (bits q).mp ((right.bits q).mpr ⟨proc, on⟩)
    obtain ⟨newcomer, at_p'⟩ := (right.bits p).mp ((bits p).mpr ⟨proc, by rw [queued, update_self]⟩)
    have different : other ≠ proc := by
      rintro rfl
      rw [queued, update_self] at at_q
      exact apart (Option.some.inj at_q)
    rw [queued, update_of_ne different] at at_q
    exact bad fun _ => Or.inr ⟨⟨other, different, at_q.trans on.symm⟩, newcomer,
      at_p'.trans at_p.symm⟩

/-- **Real-time run queue consistency.**  After `rt_sched_init`, a legal sequence of calls
keeps the run queue consistent after every call exactly if no task leaves a queue under
another priority than the queue's without leaving company there, nor is moved by a tick to
a queue that was empty. -/
theorem rt_consistent_iff (r : RtRq) (calls : List RtCall)
    (legal : Allowed rtStep RtLegal (rtStart r) calls) :
    Throughout rtStep RtConsistent (rtStart r) calls ↔ Allowed rtStep RtGood (rtStart r) calls :=
  throughout_iff_allowed RtInv
    (fun _ ⟨_, _, inv, right⟩ => inv.consistent right) rtStep_keeps rtStep_breaks calls (rtStart r)
    ⟨_, _, RtLists.start r, BitsRight.start r⟩ legal

/-! ### Two tasks -/

def rtTaskA : Pointer := pagePointer 0

def rtTaskB : Pointer := pagePointer 1

/-- Round-robin tasks of priority 5 with one tick left. -/
def rtZero : RtRq where
  links := ⟨fun _ => .null, fun _ => .null⟩
  bitmap := Words.zero
  nrRunning := 0
  rtNrRunning := 0
  highestPrio := 0
  rtPriority := fun _ => 5
  policy := fun _ => .rr
  timeSliceRemaining := fun _ => 1

/-- A task gets another priority before it is enqueued, one is moved by a tick, one
leaves. -/
theorem rt_consistent_steady :
    Throughout rtStep RtConsistent (rtStart rtZero)
      [.setPriority rtTaskB 7, .enqueue rtTaskA, .enqueue rtTaskB, .tick rtTaskA,
        .dequeue rtTaskA] := by
  refine (rt_consistent_iff rtZero _ (by decide +kernel)).mpr ?_
  refine allowed_imp (fun _ => True) (fun _ _ _ steady => RtSteady.good steady)
    (fun _ _ _ _ _ _ => trivial) _ _ trivial ?_
  decide +kernel

/-- The priority of a queued task is changed; when it leaves, the bit of its queue stays
set. -/
theorem rt_stale_bit :
    Allowed rtStep RtLegal (rtStart rtZero)
        [.enqueue rtTaskA, .setPriority rtTaskA 7, .dequeue rtTaskA] ∧
      ¬Throughout rtStep RtConsistent (rtStart rtZero)
        [.enqueue rtTaskA, .setPriority rtTaskA 7, .dequeue rtTaskA] := by
  refine ⟨by decide +kernel, fun holds => ?_⟩
  obtain ⟨s, ran, consistent⟩ := throughout_iff_append.mp holds _ [] (append_nil _).symm
  cases ran
  have busy := (consistent.bits ⟨5, by decide⟩).mp (by decide +kernel)
  exact absurd busy (by decide +kernel)

end EduOS
