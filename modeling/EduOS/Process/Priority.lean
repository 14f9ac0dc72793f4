import EduOS.Library.Run
import EduOS.Library.Word
import EduOS.Library.Bitmap
import EduOS.Library.Queue

/-!
# The priority scheduler

`kernel/process/priority_sched.c`: 32 run queues threaded through the `next` and
`prev` fields of `struct process`, a 32-bit word that records which of them are
non-empty, and an aging pass that moves processes that have waited too long to a
queue two levels up.

Three things have to stay in step: the lists, the counters and the bitmap.
`Consistent s lists` says that they are, with `lists i` the processes of queue
`i`; `priorityEnqueue_consistent` and `priorityDequeue_consistent` are what the
two primitive operations do to it, and everything else is made of these.  The
aging pass edits the very queue it walks, so its invariant cuts that queue into
the part already visited and the part ahead (`agingWalk_consistent`).

The order of service is observed through two ghost fields.  `arrivals` counts
the insertions made so far and `arrival p` is its value when `p` was last put
into a queue; the code reads neither.
-/

namespace EduOS

open Function List

def maxPriorities : ℕ := 32

def agingInterval : ℕ := 100

def agingThreshold : ℕ := 200

def agingBoost : ℕ := 2

/-- `__builtin_ffs`: one plus the index of the lowest set bit, `0` for `0`. -/
def builtinFfs (x : BitVec 32) : ℕ :=
  match (List.range 32).find? fun i => x.getLsbD i with
  | some i => i + 1
  | none => 0

/-- `priority_sched` and the fields of `struct process` that it uses.  The timer
is a stream of readings, of which `reads` have been taken. -/
structure PrioritySched where
  /-- `next` and `prev` of every process, `head` and `tail` of every queue. -/
  queues : Queues ℕ Pointer
  count : ℕ → ℕ
  bitmap : BitVec 32
  totalCount : ℕ
  lastAgingTime : ℕ
  totalEnqueues : ℕ
  totalDequeues : ℕ
  agingCount : ℕ
  priority : Pointer → BitVec 32
  waitTime : Pointer → ℕ
  boostCount : Pointer → ℕ
  timer : ℕ → ℕ
  reads : ℕ
  /-- Ghost: insertions so far. -/
  arrivals : ℕ
  /-- Ghost: `arrivals` at the last insertion of the process. -/
  arrival : Pointer → ℕ

namespace PrioritySched

/-- `timer_get_ticks()` -/
def ticks (s : PrioritySched) : ℕ := s.timer s.reads % 2 ^ 64

end PrioritySched

/-- `priority_scheduler_init`; the fields of the processes are whatever they
were. -/
def prioritySchedulerInit (s : PrioritySched) : PrioritySched :=
  { s with
    queues := s.queues.reset
    count := fun _ => 0
    bitmap := 0#32
    totalCount := 0
    lastAgingTime := s.ticks
    totalEnqueues := 0
    totalDequeues := 0
    agingCount := 0
    reads := s.reads + 1
    arrivals := 0 }

/-- The range check of `priority_enqueue`, on `int pri = proc->priority`. -/
def clampPriority (pri : ℤ) : ℕ :=
  let pri := if pri < 0 then 0 else pri
  let pri := if pri ≥ maxPriorities then (maxPriorities : ℤ) - 1 else pri
  pri.toNat

/-- `priority_enqueue` of a process. -/
def priorityEnqueueProc (s : PrioritySched) (proc : Pointer) : PrioritySched :=
  let pri := clampPriority (s.priority proc).toInt
  { s with
    priority := update s.priority proc (BitVec.ofNat 32 pri)
    queues := s.queues.pushBack pri proc
    count := update s.count pri (u32 (s.count pri + 1))
    totalCount := u32 (s.totalCount + 1)
    totalEnqueues := u64 (s.totalEnqueues + 1)
    bitmap := s.bitmap ||| (1#32 <<< pri)
    waitTime := update s.waitTime proc s.ticks
    reads := s.reads + 1
    arrivals := s.arrivals + 1
    arrival := update s.arrival proc s.arrivals }

/-- `priority_enqueue` -/
def priorityEnqueue (s : PrioritySched) : Option Pointer → PrioritySched
  | none => s
  | some proc => priorityEnqueueProc s proc

/-- `priority_dequeue` of a process. -/
def priorityDequeueProc (s : PrioritySched) (proc : Pointer) : PrioritySched :=
  let pri := (s.priority proc).toInt
  if pri < 0 ∨ pri ≥ maxPriorities then s
  else
    let i := pri.toNat
    let left := if s.count i > 0 then s.count i - 1 else s.count i
    { s with
      queues := s.queues.remove i proc
      count := update s.count i left
      totalCount := if s.totalCount > 0 then s.totalCount - 1 else s.totalCount
      totalDequeues := u64 (s.totalDequeues + 1)
      bitmap := if left = 0 then s.bitmap &&& ~~~(1#32 <<< i) else s.bitmap }

/-- `priority_dequeue` -/
def priorityDequeue (s : PrioritySched) : Option Pointer → PrioritySched
  | none => s
  | some proc => priorityDequeueProc s proc

/-- `priority_pick_next`.  A set bit over an empty queue is cleared and the
search starts again; `retries` bounds how often. -/
def priorityPickNextWith : ℕ → PrioritySched → Option (Option Pointer × PrioritySched)
  | 0, _ => none
  | retries + 1, s =>
    if s.bitmap = 0#32 then some (none, s)
    else
      let highest : ℤ := (builtinFfs s.bitmap : ℤ) - 1
      if highest < 0 ∨ highest ≥ maxPriorities then some (none, s)
      else
        match s.queues.head highest.toNat with
        | none =>
          priorityPickNextWith retries { s with bitmap := s.bitmap &&& ~~~(1#32 <<< highest.toNat) }
        | some next => some (some next, priorityDequeue s (some next))

/-- `priority_pick_next`; every retry clears one of 32 bits. -/
def priorityPickNext (s : PrioritySched) : Option (Option Pointer × PrioritySched) :=
  priorityPickNextWith (maxPriorities + 1) s

/-- What `priority_aging` does with one process of queue `pri`. -/
def agingVisit (currentTime pri : ℕ) (s : PrioritySched) (proc : Pointer) : PrioritySched :=
  if sub64 currentTime (s.waitTime proc) > agingThreshold then
    let newPri : ℤ := (pri : ℤ) - agingBoost
    let newPri := if newPri < 0 then 0 else newPri
    if newPri ≠ pri then
      let s := priorityDequeue s (some proc)
      let s :=
        { s with
          priority := update s.priority proc (BitVec.ofInt 32 newPri)
          boostCount := update s.boostCount proc (u32 (s.boostCount proc + 1)) }
      let s := priorityEnqueue s (some proc)
      { s with agingCount := u64 (s.agingCount + 1) }
    else s
  else s

/-- One pass of `while (proc)`; the next pointer is read before the visit. -/
def agingPass (currentTime pri : ℕ) :
    Option Pointer × PrioritySched → Option ((Option Pointer × PrioritySched) ⊕ PrioritySched)
  | (none, s) => some (Sum.inr s)
  | (some proc, s) => some (Sum.inl (s.queues.next proc, agingVisit currentTime pri s proc))

/-- The walk over queue `pri`. -/
def agingWalk (currentTime pri : ℕ) (s : PrioritySched) : Option PrioritySched :=
  if s.count pri = 0 then some s
  else loop (agingPass currentTime pri) (2 ^ 32) (s.queues.head pri, s)

/-- `for (pri = MAX_PRIORITIES - 1; pri > 0; pri--)` -/
def agingLevels (currentTime : ℕ) : ℕ → PrioritySched → Option PrioritySched
  | 0, s => some s
  | pri + 1, s => (agingWalk currentTime (pri + 1) s).bind (agingLevels currentTime pri)

/-- `priority_aging` -/
def priorityAging (s : PrioritySched) : Option PrioritySched :=
  let currentTime := s.ticks
  let s := { s with reads := s.reads + 1 }
  if sub64 currentTime s.lastAgingTime < agingInterval then some s
  else agingLevels currentTime (maxPriorities - 1) { s with lastAgingTime := currentTime }

/-! ## The bitmap word -/

variable {i pri : ℕ} {proc : Pointer} {front back : List Pointer} {s : PrioritySched}
    {lists : ℕ → List Pointer}

theorem getLsbD_one_shiftLeft (small : i < 32) (k : ℕ) :
    (1#32 <<< i).getLsbD k = decide (k = i) := by
  have := Words.getLsbD_mask i k
  rwa [Words.mask, Nat.mod_eq_of_lt small] at this

/-- `__builtin_ffs` of a non-zero word is one more than its lowest set bit. -/
theorem builtinFfs_spec {x : BitVec 32} (nonzero : x ≠ 0#32) :
    ∃ i, i < 32 ∧ builtinFfs x = i + 1 ∧ x.getLsbD i = true ∧ ∀ j, j < i → x.getLsbD j = false := by
  unfold builtinFfs
  cases search : (List.range 32).find? fun i => x.getLsbD i with
  | none =>
    refine absurd (BitVec.eq_of_getLsbD_eq fun i below => ?_) nonzero
    simpa using find?_range_eq_none.mp search i below
  | some i =>
    obtain ⟨bit, inside, before⟩ := find?_range_eq_some.mp search
    exact ⟨i, mem_range.mp inside, rfl, bit, fun j lt => by simpa using before j lt⟩

/-! ## Consistency of lists, counters and bitmap -/

/-- Queue `i` holds the processes `lists i`, all of priority `i` and in order of
arrival, and the counters and the bitmap say so. -/
structure Consistent (s : PrioritySched) (lists : ℕ → List Pointer) : Prop where
  family : s.queues.Family lists
  beyond : ∀ i, maxPriorities ≤ i → lists i = []
  count_eq : ∀ i, s.count i = (lists i).length
  bit_iff : ∀ i, i < maxPriorities → (s.bitmap.getLsbD i = true ↔ lists i ≠ [])
  priority_eq : ∀ i, ∀ p ∈ lists i, s.priority p = BitVec.ofNat 32 i
  total_eq : s.totalCount = ∑ i ∈ Finset.range maxPriorities, s.count i
  sorted : ∀ i, (lists i).Pairwise fun p q => s.arrival p < s.arrival q
  arrived : ∀ i, ∀ p ∈ lists i, s.arrival p < s.arrivals

namespace Consistent

theorem lt_of_mem (inv : Consistent s lists) {p : Pointer} (mem : p ∈ lists i) :
    i < maxPriorities := by
  by_contra outside
  rw [inv.beyond i (by omega)] at mem
  simp at mem

theorem toInt_priority (inv : Consistent s lists) {p : Pointer} (mem : p ∈ lists i) :
    (s.priority p).toInt = i := by
  have small := inv.lt_of_mem mem
  have plain : (BitVec.ofNat 32 i).toNat = i := by
    simp only [maxPriorities] at small
    rw [BitVec.toNat_ofNat]
    omega
  rw [inv.priority_eq i p mem, BitVec.toInt_eq_toNat_of_lt, plain]
  simp only [maxPriorities] at small
  omega

end Consistent

theorem clampPriority_lt (pri : ℤ) : clampPriority pri < maxPriorities := by
  unfold clampPriority maxPriorities
  dsimp only
  split <;> split <;> omega

/-- Changing one summand. -/
theorem sum_update_add {n : ℕ} (below : i < n) (f : ℕ → ℕ) (value : ℕ) :
    ∑ j ∈ Finset.range n, update f i value j + f i = ∑ j ∈ Finset.range n, f j + value := by
  have mem : i ∈ Finset.range n := Finset.mem_range.mpr below
  rw [Finset.sum_update_of_mem mem, ← Finset.add_sum_erase _ f mem,
    Finset.sdiff_singleton_eq_erase]
  omega

/-- The queues have no process in common, so they have less than `2 ^ 32` together. -/
theorem Queues.Family.total_lt {Q : Queues ℕ Pointer} (family : Q.Family lists) (n : ℕ) :
    ∑ i ∈ Finset.range n, (lists i).length < 2 ^ 32 := by
  have nodup : ((List.range n).flatMap lists).Nodup :=
    nodup_flatMap.mpr ⟨fun i _ => (family.holds i).nodup,
      nodup_range.imp fun apart p at_i at_j => family.disjoint _ _ apart p at_i at_j⟩
  have bound := Pointer.length_lt nodup
  rw [length_flatMap] at bound
  exact bound

/-- `priority_enqueue` appends a process that is in no queue to the queue of its
clamped priority. -/
theorem priorityEnqueue_consistent (inv : Consistent s lists) (fresh : ∀ i, proc ∉ lists i) :
    Consistent (priorityEnqueueProc s proc)
      (update lists (clampPriority (s.priority proc).toInt)
        (lists (clampPriority (s.priority proc).toInt) ++ [proc])) := by
  have small := clampPriority_lt (s.priority proc).toInt
  unfold priorityEnqueueProc
  generalize clampPriority (s.priority proc).toInt = pri at small ⊢
  have not_proc : ∀ i, ∀ p ∈ lists i, p ≠ proc := by
    rintro i p mem rfl
    exact fresh i mem
  have counts : ∀ i, update s.count pri (s.count pri + 1) i =
      (update lists pri (lists pri ++ [proc]) i).length := by
    intro i
    by_cases same : i = pri
    · subst same
      simp [inv.count_eq]
    · simp [same, inv.count_eq]
  have total : ∑ i ∈ Finset.range maxPriorities, update s.count pri (s.count pri + 1) i =
      s.totalCount + 1 := by
    have changed := sum_update_add small s.count (s.count pri + 1)
    rw [inv.total_eq]
    omega
  have total_lt : s.totalCount + 1 < 2 ^ 32 := by
    rw [← total, Finset.sum_congr rfl fun i _ => counts i]
    exact (inv.family.pushBack fresh).total_lt maxPriorities
  have count_le := Finset.single_le_sum (f := update s.count pri (s.count pri + 1))
    (fun j _ => Nat.zero_le _) (Finset.mem_range.mpr small)
  rw [total, update_self] at count_le
  dsimp only
  rw [u32_of_lt total_lt, u32_of_lt (count_le.trans_lt total_lt)]
  refine ⟨inv.family.pushBack fresh, ?_, ?_, ?_, ?_, ?_, ?_, ?_⟩
  · intro i outside
    have : i ≠ pri := by omega
    rw [update_of_ne this]
    exact inv.beyond i outside
  · exact counts
  · intro i below
    rw [BitVec.getLsbD_or, getLsbD_one_shiftLeft small]
    by_cases same : i = pri
    · subst same
      simp
    · simpa [same] using inv.bit_iff i below
  · intro i p mem
    dsimp only
    rcases Queues.mem_update_concat.mp mem with old | ⟨rfl, rfl⟩
    · rw [update_of_ne (not_proc i p old)]
      exact inv.priority_eq i p old
    · exact update_self ..
  · exact total.symm
  · -- the newcomer has the largest stamp
    have kept : ∀ i, (lists i).Pairwise fun p q =>
        update s.arrival proc s.arrivals p < update s.arrival proc s.arrivals q := by
      intro i
      refine (inv.sorted i).imp_of_mem ?_
      intro p q p_mem q_mem lt
      rwa [update_of_ne (not_proc i p p_mem), update_of_ne (not_proc i q q_mem)]
    intro i
    dsimp only
    by_cases same : i = pri
    · subst same
      rw [update_self, pairwise_append]
      refine ⟨kept i, pairwise_singleton _ _, ?_⟩
      intro p mem q new
      rw [mem_singleton.mp new, update_self, update_of_ne (not_proc i p mem)]
      exact inv.arrived i p mem
    · rw [update_of_ne same]
      exact kept i
  · intro i p mem
    dsimp only
    rcases Queues.mem_update_concat.mp mem with old | ⟨-, rfl⟩
    · rw [update_of_ne (not_proc i p old)]
      exact Nat.lt_succ_of_lt (inv.arrived i p old)
    · simp

/-- `priority_dequeue` takes a queued process out of its queue. -/
theorem priorityDequeue_consistent (inv : Consistent s lists)
    (at_proc : lists i = front ++ proc :: back) :
    Consistent (priorityDequeueProc s proc) (update lists i (front ++ back)) := by
  have mem : proc ∈ lists i := by rw [at_proc]; simp
  have small := inv.lt_of_mem mem
  have pri_eq := inv.toInt_priority mem
  have in_range : ¬((i : ℤ) < 0 ∨ (i : ℤ) ≥ maxPriorities) := by
    omega
  have count_eq : s.count i = (front ++ back).length + 1 := by
    rw [inv.count_eq, at_proc]
    simp
    omega
  have positive : s.count i > 0 := by omega
  have total_pos : s.totalCount > 0 := by
    have := Finset.single_le_sum (f := s.count) (fun j _ => Nat.zero_le _)
      (Finset.mem_range.mpr small)
    rw [inv.total_eq]
    omega
  have kept : ∀ j, ∀ p ∈ update lists i (front ++ back) j, p ∈ lists j := fun j p inside =>
    ((inv.family.mem_update_remove at_proc).mp inside).1
  unfold priorityDequeueProc
  simp only [pri_eq, in_range, if_false, Int.toNat_natCast, positive, total_pos, if_true]
  refine ⟨inv.family.remove at_proc, ?_, ?_, ?_, ?_, ?_, ?_, ?_⟩
  · intro j outside
    have : j ≠ i := by omega
    rw [update_of_ne this]
    exact inv.beyond j outside
  · intro j
    by_cases same : j = i
    · subst same
      simp only [update_self]
      omega
    · simp [same, inv.count_eq]
  · intro j below
    by_cases emptied : s.count i - 1 = 0
    · have nil : front ++ back = [] := eq_nil_of_length_eq_zero (by omega)
      simp only [emptied, if_true]
      rw [BitVec.getLsbD_and, BitVec.getLsbD_not, getLsbD_one_shiftLeft small]
      simp only [maxPriorities] at below
      by_cases same : j = i
      · subst same
        simp [nil]
      · simpa [same, below] using inv.bit_iff j below
    · simp [emptied]
      rw [inv.bit_iff j below]
      by_cases same : j = i
      · subst same
        have : front ++ back ≠ [] := by
          intro nil
          rw [nil] at count_eq
          simp at count_eq
          omega
        simp [at_proc]
        simpa using this
      · rw [update_of_ne same]
  · intro j p inside
    exact inv.priority_eq j p (kept j p inside)
  · have changed := sum_update_add small s.count (s.count i - 1)
    dsimp only
    rw [inv.total_eq]
    omega
  · intro j
    by_cases same : j = i
    · subst same
      rw [update_self]
      refine List.Pairwise.sublist ?_ (inv.sorted j)
      rw [at_proc]
      exact List.Sublist.append_left (sublist_cons_self _ _) _
    · rw [update_of_ne same]
      exact inv.sorted j
  · intro j p inside
    exact inv.arrived j p (kept j p inside)

/-- Consistency does not read the other fields, nor the priority of a process
that is in no queue. -/
theorem Consistent.congr {s' : PrioritySched} (inv : Consistent s lists)
    (queues : s'.queues = s.queues) (count : s'.count = s.count) (bitmap : s'.bitmap = s.bitmap)
    (total : s'.totalCount = s.totalCount) (arrivals : s'.arrivals = s.arrivals)
    (arrival : s'.arrival = s.arrival)
    (priority : ∀ i, ∀ p ∈ lists i, s'.priority p = s.priority p) :
    Consistent s' lists where
  family := by rw [queues]; exact inv.family
  beyond := inv.beyond
  count_eq := by rw [count]; exact inv.count_eq
  bit_iff := by rw [bitmap]; exact inv.bit_iff
  priority_eq i p mem := by rw [priority i p mem]; exact inv.priority_eq i p mem
  total_eq := by rw [total, count]; exact inv.total_eq
  sorted := by rw [arrival]; exact inv.sorted
  arrived := by rw [arrival, arrivals]; exact inv.arrived

/-! ## Choosing a process -/

/-- `priority_pick_next` takes the head of the first non-empty queue; the repair
branch for a set bit over an empty queue is never entered. -/
theorem priorityPickNext_cases (inv : Consistent s lists) :
    ((∀ i, lists i = []) ∧ priorityPickNext s = some (none, s)) ∨
      ∃ i proc rest, lists i = proc :: rest ∧ (∀ j, j < i → lists j = []) ∧
        priorityPickNext s = some (some proc, priorityDequeueProc s proc) := by
  by_cases zero : s.bitmap = 0#32
  · left
    refine ⟨?_, by simp [priorityPickNext, priorityPickNextWith, zero]⟩
    intro i
    by_cases inside : i < maxPriorities
    · by_contra nonempty
      have bit := (inv.bit_iff i inside).mpr nonempty
      rw [zero] at bit
      simp at bit
    · exact inv.beyond i (by omega)
  · right
    obtain ⟨i, small, ffs, bit, below⟩ := builtinFfs_spec zero
    have nonempty := (inv.bit_iff i small).mp bit
    obtain ⟨proc, rest, list_eq⟩ := exists_cons_of_ne_nil nonempty
    have head_eq : s.queues.head i = some proc := by
      rw [(inv.family.holds i).head_eq, list_eq]
      rfl
    refine ⟨i, proc, rest, list_eq, ?_, ?_⟩
    · intro j lt
      by_contra nonempty
      have := (inv.bit_iff j (Nat.lt_trans lt small)).mpr nonempty
      rw [below j lt] at this
      cases this
    · have index : (builtinFfs s.bitmap : ℤ) - 1 = i := by omega
      have in_range : ¬((i : ℤ) < 0 ∨ (i : ℤ) ≥ maxPriorities) := by
        simp only [maxPriorities]
        omega
      simp only [priorityPickNext, priorityPickNextWith, zero, if_false, index, in_range,
        Int.toNat_natCast, head_eq]
      rfl

/-! ## Aging -/

/-- The set of processes that are in some queue. -/
def SameMembers (lists lists' : ℕ → List Pointer) : Prop :=
  ∀ p, (∃ i, p ∈ lists' i) ↔ ∃ i, p ∈ lists i

/-- Moving an element from list `i` to the end of list `k` changes no
membership. -/
theorem sameMembers_move (family : s.queues.Family lists)
    (at_proc : lists i = front ++ proc :: back)
    (k : ℕ) :
    SameMembers lists (update (update lists i (front ++ back)) k
      (update lists i (front ++ back) k ++ [proc])) := by
  intro p
  constructor
  · rintro ⟨j, mem⟩
    rcases Queues.mem_update_concat.mp mem with old | ⟨-, rfl⟩
    · exact ⟨j, ((family.mem_update_remove at_proc).mp old).1⟩
    · exact ⟨i, by simp [at_proc]⟩
  · rintro ⟨j, mem⟩
    by_cases is_proc : p = proc
    · exact ⟨k, Queues.mem_update_concat.mpr (Or.inr ⟨rfl, is_proc⟩)⟩
    · exact ⟨j, Queues.mem_update_concat.mpr
        (Or.inl ((family.mem_update_remove at_proc).mpr ⟨mem, is_proc⟩))⟩

/-- One visit of the aging pass either leaves the process where it is or moves
it to the end of a queue further up; the queue being walked keeps everything
else. -/
theorem agingVisit_consistent (inv : Consistent s lists) (positive : 0 < pri) (currentTime : ℕ)
    (at_proc : lists pri = front ++ proc :: back) :
    ∃ lists' front', Consistent (agingVisit currentTime pri s proc) lists' ∧
      lists' pri = front' ++ back ∧ SameMembers lists lists' := by
  unfold agingVisit
  by_cases waited : sub64 currentTime (s.waitTime proc) > agingThreshold
  swap
  · rw [if_neg waited]
    exact ⟨lists, front ++ [proc], inv, by simp [at_proc], fun p => Iff.rfl⟩
  rw [if_pos waited]
  have here : proc ∈ lists pri := by rw [at_proc]; simp
  have small := inv.lt_of_mem here
  obtain ⟨k, k_eq, k_lt⟩ : ∃ k : ℕ,
      (if (pri : ℤ) - agingBoost < 0 then 0 else (pri : ℤ) - agingBoost) = (k : ℤ) ∧ k < pri := by
    by_cases negative : (pri : ℤ) - agingBoost < 0
    · exact ⟨0, by simp [negative], positive⟩
    · refine ⟨pri - agingBoost, ?_, ?_⟩
      · omega
      · simp only [agingBoost] at negative ⊢
        omega
  have moved : ((k : ℤ) ≠ pri) := by omega
  simp only [k_eq, ne_eq, moved, not_false_eq_true, if_true]
  have taken := priorityDequeue_consistent inv at_proc
  -- `proc` is in no queue now, so its fields may change
  have gone : ∀ j, proc ∉ update lists pri (front ++ back) j := fun j mem =>
    ((inv.family.mem_update_remove at_proc).mp mem).2 rfl
  set t : PrioritySched := { priorityDequeue s (some proc) with
    priority := update (priorityDequeue s (some proc)).priority proc (BitVec.ofInt 32 k)
    boostCount := update (priorityDequeue s (some proc)).boostCount proc
      (u32 ((priorityDequeue s (some proc)).boostCount proc + 1)) } with t_def
  have relabelled : Consistent t (update lists pri (front ++ back)) := by
    refine taken.congr rfl rfl rfl rfl rfl rfl ?_
    intro j p mem
    have other : p ≠ proc := ne_of_mem_of_not_mem mem (gone j)
    simp [t_def]
    rw [update_of_ne other]
    rfl
  have target : clampPriority (t.priority proc).toInt = k := by
    have value : (t.priority proc).toInt = k := by
      simp only [t_def, update_self]
      rw [BitVec.toInt_ofInt, Int.bmod_eq_of_le]
      · omega
      · simp only [maxPriorities] at small
        omega
    rw [value]
    simp only [clampPriority, maxPriorities] at small ⊢
    have : ¬((k : ℤ) < 0) := by omega
    have : ¬((k : ℤ) ≥ 32) := by omega
    simp [*]
  have inserted := priorityEnqueue_consistent relabelled gone
  rw [target] at inserted
  refine ⟨_, front, inserted.congr rfl rfl rfl rfl rfl rfl fun _ _ _ => rfl, ?_,
    sameMembers_move inv.family at_proc k⟩
  rw [update_of_ne (by omega : pri ≠ k), update_self]

/-- The walk over queue `pri`, cut into the part that was visited and the part ahead. -/
theorem agingWalk_consistent (inv : Consistent s lists) (positive : 0 < pri) (currentTime : ℕ) :
    ∃ s' lists', agingWalk currentTime pri s = some s' ∧
      Consistent s' lists' ∧ SameMembers lists lists' := by
  unfold agingWalk
  by_cases empty : s.count pri = 0
  · exact ⟨s, lists, by simp [empty], inv, fun p => Iff.rfl⟩
  rw [if_neg empty, (inv.family.holds pri).head_eq]
  obtain ⟨s', ran, lists', inv', same⟩ := loop_ranked (agingPass currentTime pri)
    (fun k p => ∃ lists' front back, p.1 = back.head? ∧ back.length = k ∧
      Consistent p.2 lists' ∧ lists' pri = front ++ back ∧ SameMembers lists lists')
    (fun s' => ∃ lists', Consistent s' lists' ∧ SameMembers lists lists')
    (by
      rintro k ⟨_, s⟩ ⟨lists', front, back, rfl, rfl, inv, at_back, same⟩
      cases back with
      | nil => exact Or.inr ⟨s, rfl, lists', inv, same⟩
      | cons proc back =>
        have holds := inv.family.holds pri
        rw [at_back] at holds
        obtain ⟨lists₁, front₁, inv₁, rest, same₁⟩ :=
          agingVisit_consistent inv positive currentTime at_back
        exact Or.inl ⟨_, back.length, rfl, Nat.lt_succ_self _, lists₁, front₁, back,
          holds.next_eq, rfl, inv₁, rest, fun p => (same₁ p).trans (same p)⟩)
    (2 ^ 32) _ (_, s) ⟨lists, [], lists pri, rfl, rfl, inv, rfl, fun p => Iff.rfl⟩
    (Pointer.length_lt (inv.family.holds pri).nodup)
  exact ⟨s', lists', ran, inv', same⟩

theorem agingLevels_consistent (currentTime : ℕ) :
    ∀ (pri : ℕ) {s : PrioritySched} {lists : ℕ → List Pointer}, Consistent s lists →
      ∃ s' lists', agingLevels currentTime pri s = some s' ∧
        Consistent s' lists' ∧ SameMembers lists lists' := by
  intro pri
  induction pri with
  | zero => intro s lists inv; exact ⟨s, lists, rfl, inv, fun p => Iff.rfl⟩
  | succ pri ih =>
    intro s lists inv
    obtain ⟨s', lists', walk, inv', same⟩ :=
      agingWalk_consistent inv (Nat.succ_pos pri) currentTime
    obtain ⟨s'', lists'', rest, inv'', same'⟩ := ih inv'
    refine ⟨s'', lists'', ?_, inv'', fun p => (same' p).trans (same p)⟩
    rw [agingLevels, walk]
    exact rest

/-- The aging pass returns, whatever the timer reads, and loses no process. -/
theorem priorityAging_consistent (inv : Consistent s lists) :
    ∃ s' lists', priorityAging s = some s' ∧ Consistent s' lists' ∧ SameMembers lists lists' := by
  have read : Consistent { s with reads := s.reads + 1 } lists :=
    inv.congr rfl rfl rfl rfl rfl rfl fun _ _ _ => rfl
  unfold priorityAging
  by_cases early : sub64 s.ticks s.lastAgingTime < agingInterval
  · exact ⟨_, lists, by rw [if_pos early], read, fun p => Iff.rfl⟩
  · rw [if_neg early]
    exact agingLevels_consistent s.ticks (maxPriorities - 1)
      (inv.congr rfl rfl rfl rfl rfl rfl fun _ _ _ => rfl)

/-! ## Runs -/

/-- The calls the rest of the kernel makes.  The priority of a process is set by
its owner before it is enqueued. -/
inductive PriorityCall where
  | enqueue (proc : Option Pointer) (priority : BitVec 32)
  | dequeue (proc : Option Pointer)
  | pickNext
  | aging

/-- The scheduler together with the processes its callers have enqueued and not
taken out again. -/
structure PriorityRun where
  sched : PrioritySched
  queued : List Pointer

/-- One call, and the processes that are queued after it. -/
def priorityStep (r : PriorityRun) : PriorityCall → Option PriorityRun
  | .enqueue none _ => some r
  | .enqueue (some proc) priority =>
    let s := { r.sched with priority := update r.sched.priority proc priority }
    some ⟨priorityEnqueue s (some proc), proc :: r.queued⟩
  | .dequeue none => some r
  | .dequeue (some proc) => some ⟨priorityDequeue r.sched (some proc), r.queued.erase proc⟩
  | .pickNext =>
    (priorityPickNext r.sched).map fun
      | (none, s) => ⟨s, r.queued⟩
      | (some proc, s) => ⟨s, r.queued.erase proc⟩
  | .aging => (priorityAging r.sched).map fun s => ⟨s, r.queued⟩

/-- Only processes that are not queued are enqueued, and only queued ones are
dequeued. -/
def priorityLegal (r : PriorityRun) : PriorityCall → Prop
  | .enqueue (some proc) _ => proc ∉ r.queued
  | .dequeue (some proc) => proc ∈ r.queued
  | _ => True

/-- The queues hold exactly the processes that are queued. -/
structure Tracks (r : PriorityRun) (lists : ℕ → List Pointer) : Prop where
  consistent : Consistent r.sched lists
  nodup : r.queued.Nodup
  members : ∀ p, p ∈ r.queued ↔ ∃ i, p ∈ lists i

variable {r : PriorityRun}

/-- Taking the queued process `proc` out. -/
theorem Tracks.takeOut (tracks : Tracks r lists) (at_proc : lists i = front ++ proc :: back) :
    Tracks ⟨priorityDequeueProc r.sched proc, r.queued.erase proc⟩
      (update lists i (front ++ back)) := by
  have inv := tracks.consistent
  refine ⟨priorityDequeue_consistent inv at_proc, tracks.nodup.erase proc, ?_⟩
  intro p
  rw [tracks.nodup.mem_erase_iff, tracks.members]
  simp only [inv.family.mem_update_remove at_proc]
  exact ⟨fun ⟨other, j, mem⟩ => ⟨j, mem, other⟩, fun ⟨j, mem, other⟩ => ⟨other, j, mem⟩⟩

theorem priorityStep_tracks {call : PriorityCall} (inv : ∃ lists, Tracks r lists)
    (legal : priorityLegal r call) :
    ∃ r', priorityStep r call = some r' ∧ ∃ lists, Tracks r' lists := by
  obtain ⟨lists, tracks⟩ := inv
  have consistent := tracks.consistent
  cases call with
  | enqueue proc priority =>
    cases proc with
    | none => exact ⟨r, rfl, lists, tracks⟩
    | some proc =>
      have fresh : ∀ i, proc ∉ lists i := by
        intro i mem
        exact legal ((tracks.members proc).mpr ⟨i, mem⟩)
      have relabelled : Consistent
          { r.sched with priority := update r.sched.priority proc priority } lists := by
        refine consistent.congr rfl rfl rfl rfl rfl rfl ?_
        intro i p mem
        have other : p ≠ proc := ne_of_mem_of_not_mem mem (fresh i)
        exact update_of_ne other _ _
      refine ⟨_, rfl, _, priorityEnqueue_consistent relabelled fresh,
        nodup_cons.mpr ⟨legal, tracks.nodup⟩, ?_⟩
      intro p
      generalize clampPriority _ = pri
      rw [mem_cons, tracks.members]
      simp only [Queues.mem_update_concat]
      constructor
      · rintro (rfl | ⟨i, mem⟩)
        · exact ⟨pri, Or.inr ⟨rfl, rfl⟩⟩
        · exact ⟨i, Or.inl mem⟩
      · rintro ⟨i, old | ⟨-, rfl⟩⟩
        · exact Or.inr ⟨i, old⟩
        · exact Or.inl rfl
  | dequeue proc =>
    cases proc with
    | none => exact ⟨r, rfl, lists, tracks⟩
    | some proc =>
      obtain ⟨i, mem⟩ := (tracks.members proc).mp legal
      obtain ⟨front, back, at_proc⟩ := append_of_mem mem
      exact ⟨_, rfl, _, tracks.takeOut at_proc⟩
  | pickNext =>
    rcases priorityPickNext_cases consistent with ⟨_, result⟩ | ⟨i, proc, rest, at_proc, _, result⟩
    · exact ⟨r, by simp [priorityStep, result], lists, tracks⟩
    · have at_front : lists i = [] ++ proc :: rest := at_proc
      exact ⟨_, by simp only [priorityStep, result]; rfl, _, tracks.takeOut at_front⟩
  | aging =>
    obtain ⟨s', lists', result, consistent', same⟩ := priorityAging_consistent consistent
    refine ⟨⟨s', r.queued⟩, by simp only [priorityStep, result]; rfl, lists', consistent',
      tracks.nodup, ?_⟩
    intro p
    rw [tracks.members, same p]

/-- What the next `priority_pick_next` does: it returns `NULL` exactly when
nothing is queued, and otherwise a queued process of the smallest priority that
any queued process has, the one that has been in its queue for longest, and
that process is then in no queue. -/
def PickLaw (r : PriorityRun) : Prop :=
  ∃ result s', priorityPickNext r.sched = some (result, s') ∧
    (result = none ↔ r.queued = []) ∧
    ∀ proc, result = some proc →
      proc ∈ r.queued ∧
      (∀ q ∈ r.queued, (r.sched.priority proc).toNat ≤ (r.sched.priority q).toNat) ∧
      (∀ q ∈ r.queued, r.sched.priority q = r.sched.priority proc →
        r.sched.arrival proc ≤ r.sched.arrival q) ∧
      ∃ lists', Tracks ⟨s', r.queued.erase proc⟩ lists'

theorem Tracks.pickLaw (tracks : Tracks r lists) : PickLaw r := by
  have inv := tracks.consistent
  rcases priorityPickNext_cases inv with ⟨empty, result⟩ | ⟨i, proc, rest, at_proc, least, result⟩
  · refine ⟨none, r.sched, result, ?_, by simp⟩
    simp only [true_iff]
    apply eq_nil_iff_forall_not_mem.mpr
    intro p mem
    obtain ⟨i, there⟩ := (tracks.members p).mp mem
    rw [empty i] at there
    simp at there
  · have here : proc ∈ lists i := by rw [at_proc]; simp
    have queued : proc ∈ r.queued := (tracks.members proc).mpr ⟨i, here⟩
    have toNat_eq : ∀ j, ∀ q ∈ lists j, (r.sched.priority q).toNat = j := by
      intro j q mem
      have small := inv.lt_of_mem mem
      rw [inv.priority_eq j q mem, BitVec.toNat_ofNat]
      simp only [maxPriorities] at small
      omega
    have not_before : ∀ j, ∀ q ∈ lists j, i ≤ j := by
      intro j q mem
      by_contra before
      rw [least j (by omega)] at mem
      simp at mem
    refine ⟨some proc, _, result, ?_, ?_⟩
    · simp only [reduceCtorEq, false_iff]
      exact ne_nil_of_mem queued
    intro p same
    obtain rfl : proc = p := by simpa using same
    have at_front : lists i = [] ++ proc :: rest := at_proc
    refine ⟨queued, ?_, ?_, _, tracks.takeOut at_front⟩
    · intro q mem
      obtain ⟨j, there⟩ := (tracks.members q).mp mem
      rw [toNat_eq i proc here, toNat_eq j q there]
      exact not_before j q there
    intro q mem equal
    obtain ⟨j, there⟩ := (tracks.members q).mp mem
    have level : j = i := by
      rw [← toNat_eq i proc here, ← toNat_eq j q there, equal]
    subst level
    have sorted := inv.sorted j
    rw [at_proc] at there sorted
    rcases mem_cons.mp there with rfl | later
    · exact le_rfl
    · exact le_of_lt ((pairwise_cons.mp sorted).1 q later)

/-- **The priority scheduler.**  After initialisation, with any timer readings,
every allowed sequence of calls returns; in the state it leaves, lists, counters
and bitmap are consistent, the queues hold exactly the queued processes, and the
pick law holds. -/
theorem priority_run_sound (s : PrioritySched) (calls : List PriorityCall)
    (allowed : Allowed priorityStep priorityLegal ⟨prioritySchedulerInit s, []⟩ calls) :
    ∃ r, exec priorityStep ⟨prioritySchedulerInit s, []⟩ calls = some r ∧
      (∃ lists, Tracks r lists) ∧ PickLaw r := by
  have initial : Tracks ⟨prioritySchedulerInit s, []⟩ fun _ => [] := by
    refine ⟨⟨Queues.family_reset _, fun _ _ => rfl, fun _ => rfl, ?_, ?_, ?_, ?_, ?_⟩, ?_, ?_⟩ <;>
      simp [prioritySchedulerInit]
  obtain ⟨r, run, lists, tracks⟩ := exec_total (fun r => ∃ lists, Tracks r lists)
    (fun r call inv legal => priorityStep_tracks inv legal) calls _ ⟨_, initial⟩ allowed
  exact ⟨r, run, ⟨lists, tracks⟩, tracks.pickLaw⟩

/-- Zeroed memory, with a timer that advances by 300 between readings. -/
def priorityBoot : PrioritySched where
  queues := ⟨fun _ => none, fun _ => none, fun _ => none, fun _ => none⟩
  count _ := 0
  bitmap := 0#32
  totalCount := 0
  lastAgingTime := 0
  totalEnqueues := 0
  totalDequeues := 0
  agingCount := 0
  priority _ := 0#32
  waitTime _ := 0
  boostCount _ := 0
  timer n := 300 * n
  reads := 0
  arrivals := 0
  arrival _ := 0

/-- Two processes, one of them with a priority out of range. -/
theorem priority_run_sound_two :
    ∃ r, exec priorityStep ⟨prioritySchedulerInit priorityBoot, []⟩
        [.enqueue (some ⟨0x1000#32, by decide⟩) 77#32, .enqueue (some ⟨0x2000#32, by decide⟩) 5#32,
          .aging, .pickNext] = some r ∧
      (∃ lists, Tracks r lists) ∧ PickLaw r := by
  apply priority_run_sound
  refine ⟨by simp [priorityLegal], ?_⟩
  rintro _ ⟨⟩
  refine ⟨by simp [priorityLegal, Subtype.ext_iff], ?_⟩
  rintro _ ⟨⟩
  exact ⟨trivial, fun _ _ => ⟨trivial, fun _ _ => trivial⟩⟩

end EduOS
