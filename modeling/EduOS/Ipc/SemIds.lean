import EduOS.Include.Errno
import EduOS.Library.Run
import EduOS.Library.Word

/-!
# Identifiers of semaphore sets

`sys_semget`, `sem_lock` and the removal in `sys_semctl` of `ipc/sem.c`, with `ipcperms` of
`ipc/ipcperms.c`.

An identifier has the slot of its set in its low half and a sequence number in its high
half, so that a slot can be used again under another identifier.  But `newary` stores the
slot as the sequence number.  A slot then has one identifier for ever, and since `newary`
takes the first free slot, the set created next after a removal answers to the identifier
that was removed.

The flags `IPC_R`, `IPC_W`, `IPC_M` and `IPC_ALLOC` are used in the source without a
definition; they are parameters here.  `sys_semctl` reads the result of `ipcperms` the
wrong way round: a set is removed if the permission is refused.
-/

namespace EduOS

open Function

/-! ## The source -/

def semmni : ℕ := 128

def semmsl : ℤ := 250

def semmns : ℤ := 32000

def ipcPrivate : BitVec 32 := 0

def ipcCreat : BitVec 32 := 0x200

def ipcExcl : BitVec 32 := 0x400

def ipcPerm : BitVec 32 := 0x1FF

/-- `IPC_R`, `IPC_W`, `IPC_M` and `IPC_ALLOC` -/
structure IpcFlags where
  r : BitVec 16
  w : BitVec 16
  m : BitVec 16
  alloc : BitVec 16

/-- `struct sem_array`, as far as identifiers go. -/
structure SemArray where
  key : BitVec 32
  mode : BitVec 16
  seq : BitVec 16
  semNsems : ℤ
deriving DecidableEq

/-- `sem_arrays` and `used_sems` -/
structure SemIds where
  arrays : Fin semmni → Option SemArray
  usedSems : ℤ

/-- `ipc_id_to_idx` -/
def ipcIdToIdx (id : BitVec 32) : BitVec 32 := id &&& 0xFFFF

/-- `ipc_idx_to_id` -/
def ipcIdxToId (idx seq : BitVec 32) : BitVec 32 := (seq <<< 16) ||| idx

/-- `ipcperms`; the tests for the owner and the group are compiled out. -/
def ipcperms (flags : IpcFlags) (mode flag : BitVec 16) : ℤ :=
  if flag &&& flags.r ≠ 0 then (if mode &&& 4 ≠ 0 then 0 else -eacces)
  else if flag &&& flags.w ≠ 0 then (if mode &&& 2 ≠ 0 then 0 else -eacces)
  else 0

/-- The slot that an identifier names. -/
def semSlot (semid : BitVec 32) : Option (Fin semmni) :=
  if inRange : 0 ≤ (ipcIdToIdx semid).toInt ∧ (ipcIdToIdx semid).toInt < semmni then
    some ⟨(ipcIdToIdx semid).toInt.toNat, by omega⟩
  else none

/-- `semid >> 16` -/
def semSeq (semid : BitVec 32) : ℤ := (semid.sshiftRight 16).toInt

/-- `sem_lock`: the set, with its slot. -/
def semLock (semid : BitVec 32) (s : SemIds) : Option (Fin semmni × SemArray) :=
  (semSlot semid).bind fun i => (s.arrays i).bind fun sma =>
    if (sma.seq.toNat : ℤ) ≠ semSeq semid then none else some (i, sma)

/-- The search of `newary` for a free slot. -/
def semFreeSlot (s : SemIds) : Option (Fin semmni) :=
  (List.finRange semmni).find? fun i => (s.arrays i).isNone

/-- `newary`; `arrayMemory` and `baseMemory` say if `kmalloc` succeeds. -/
def newary (flags : IpcFlags) (key : BitVec 32) (nsems : ℤ) (semflg : BitVec 32)
    (arrayMemory baseMemory : Bool) (s : SemIds) : Except ℕ (BitVec 32) × SemIds :=
  if nsems < 0 ∨ semmsl < nsems then (.error einval, s)
  else if semmns < s.usedSems + nsems then (.error enospc, s)
  else
    match semFreeSlot s with
    | none => (.error enospc, s)
    | some idx =>
      if !arrayMemory || !baseMemory then (.error enomem, s)
      else
        let sma : SemArray :=
          { key := key
            mode := (semflg &&& ipcPerm).truncate 16 ||| flags.alloc
            seq := BitVec.ofNat 16 idx
            semNsems := nsems }
        (.ok (ipcIdxToId (BitVec.ofNat 32 idx) (sma.seq.zeroExtend 32)),
          ⟨update s.arrays idx (some sma), s.usedSems + nsems⟩)

/-- The search of `sys_semget` for a set with the key. -/
def semFindKey (key : BitVec 32) (s : SemIds) : Option (Fin semmni × SemArray) :=
  (List.finRange semmni).findSome? fun i => (s.arrays i).bind fun sma =>
    if sma.key = key then some (i, sma) else none

/-- `sys_semget` -/
def sysSemget (flags : IpcFlags) (key : BitVec 32) (nsems : ℤ) (semflg : BitVec 32)
    (arrayMemory baseMemory : Bool) (s : SemIds) : Except ℕ (BitVec 32) × SemIds :=
  if key = ipcPrivate then newary flags key nsems semflg arrayMemory baseMemory s
  else
    match semFindKey key s with
    | some (i, sma) =>
      if hasFlag semflg ipcCreat && hasFlag semflg ipcExcl then (.error eexist, s)
      else if 0 < nsems ∧ sma.semNsems ≠ nsems then (.error einval, s)
      else if ipcperms flags sma.mode ((semflg &&& ipcPerm).truncate 16) ≠ 0 then
        (.ok (ipcIdxToId (BitVec.ofNat 32 i) (sma.seq.zeroExtend 32)), s)
      else (.error eacces, s)
    | none =>
      if hasFlag semflg ipcCreat then newary flags key nsems semflg arrayMemory baseMemory s
      else (.error enoent, s)

/-- `sys_semctl` with `IPC_RMID` -/
def sysSemctlRmid (flags : IpcFlags) (semid : BitVec 32) (s : SemIds) : Except ℕ Unit × SemIds :=
  match semLock semid s with
  | none => (.error einval, s)
  | some (i, sma) =>
    if ipcperms flags sma.mode flags.m = 0 then (.error eacces, s)
    else (.ok (), ⟨update s.arrays i none, s.usedSems - sma.semNsems⟩)

/-! ## Runs -/

/-- The sets, the number of calls so far, when the set in each slot was created, and which
identifiers were removed when. -/
structure SemRun where
  sems : SemIds
  clock : ℕ
  born : Fin semmni → ℕ
  removed : List (BitVec 32 × ℕ)

/-- At boot. -/
def semStart : SemRun := ⟨⟨fun _ => none, 0⟩, 0, fun _ => 0, []⟩

/-- The calls that create and remove arrays. -/
inductive SemCall where
  | semget (key : BitVec 32) (nsems : ℤ) (semflg : BitVec 32) (arrayMemory baseMemory : Bool)
  | rmid (semid : BitVec 32)

/-- One call, with the time at which an array is created. -/
def semStep (flags : IpcFlags) (s : SemRun) : SemCall → Option SemRun
  | .semget key nsems semflg arrayMemory baseMemory =>
    let sems := (sysSemget flags key nsems semflg arrayMemory baseMemory s.sems).2
    some
      { sems := sems
        clock := s.clock + 1
        born := fun i =>
          if (s.sems.arrays i).isNone && (sems.arrays i).isSome then s.clock else s.born i
        removed := s.removed }
  | .rmid semid =>
    match sysSemctlRmid flags semid s.sems with
    | (.error _, sems) => some { s with sems := sems, clock := s.clock + 1 }
    | (.ok _, sems) =>
      some
        { s with
          sems := sems
          clock := s.clock + 1
          removed := (semid, s.clock) :: s.removed }

/-- No identifier that was removed finds a set created since. -/
def StaleRejected (s : SemRun) : Prop :=
  ∀ r ∈ s.removed, ∀ found ∈ semLock r.1 s.sems, s.born found.1 ≤ r.2

instance (s : SemRun) : Decidable (StaleRejected s) :=
  inferInstanceAs (Decidable (∀ r ∈ s.removed, ∀ found ∈ semLock r.1 s.sems, s.born found.1 ≤ r.2))

/-- `sys_semget` has a set to create, and can. -/
@[mk_iff]
structure SemIds.Creates (s : SemIds) (key : BitVec 32) (nsems : ℤ) (semflg : BitVec 32)
    (arrayMemory baseMemory : Bool) : Prop where
  wanted : key = ipcPrivate ∨ semFindKey key s = none ∧ hasFlag semflg ipcCreat = true
  positive : 0 ≤ nsems
  small : nsems ≤ semmsl
  fits : s.usedSems + nsems ≤ semmns
  free : semFreeSlot s ≠ none
  memory : (arrayMemory && baseMemory) = true

/-- No set is created after one was removed. -/
def SemNoReuse (s : SemRun) : SemCall → Prop
  | .semget key nsems semflg arrayMemory baseMemory =>
    s.sems.Creates key nsems semflg arrayMemory baseMemory → s.removed = []
  | .rmid _ => True

instance SemIds.Creates.decidable (s : SemIds) (key : BitVec 32) (nsems : ℤ)
    (semflg : BitVec 32) (arrayMemory baseMemory : Bool) :
    Decidable (s.Creates key nsems semflg arrayMemory baseMemory) :=
  decidable_of_iff _ (creates_iff ..).symm

instance (s : SemRun) : (call : SemCall) → Decidable (SemNoReuse s call)
  | .semget _ _ _ _ _ => inferInstanceAs (Decidable (_ → _))
  | .rmid _ => inferInstanceAs (Decidable True)

/-! ## The calls -/

variable {sma : SemArray}

section

variable {s : SemIds} {i : Fin semmni} {semid : BitVec 32}

theorem semFreeSlot_some (found : semFreeSlot s = some i) :
    s.arrays i = none ∧ ∀ j, j < i → s.arrays j ≠ none := by
  obtain ⟨here, before⟩ :=
    (List.find?_ofFn_eq_some_of_injective injective_id).mp found
  exact ⟨by simpa using here, fun j below empty => before j below (by simp [empty])⟩

theorem semLock_eq_some_iff :
    semLock semid s = some (i, sma) ↔
      semSlot semid = some i ∧ s.arrays i = some sma ∧ (sma.seq.toNat : ℤ) = semSeq semid := by
  simp only [semLock, Option.bind_eq_some_iff]
  constructor
  · rintro ⟨j, slot, found, here, same⟩
    by_cases seq : (found.seq.toNat : ℤ) = semSeq semid
    · rw [if_neg (not_not.mpr seq)] at same
      cases same
      exact ⟨slot, here, seq⟩
    · rw [if_pos seq] at same
      exact absurd same (by simp)
  · rintro ⟨slot, here, seq⟩
    exact ⟨i, slot, sma, here, if_neg (not_not.mpr seq)⟩

theorem toNat_ofNat_slot (i : Fin semmni) : (BitVec.ofNat 16 i.val).toNat = i.val := by
  have small : i.val < 128 := i.2
  rw [BitVec.toNat_ofNat]
  omega

variable {key : BitVec 32} {nsems : ℤ} {semflg : BitVec 32} {arrayMemory baseMemory : Bool}

/-- A set is created in the first free slot, with the slot as its sequence number. -/
theorem sysSemget_of_creates (flags : IpcFlags)
    (creates : s.Creates key nsems semflg arrayMemory baseMemory) :
    ∃ i sma used, semFreeSlot s = some i ∧ sma.seq = BitVec.ofNat 16 i ∧
      (sysSemget flags key nsems semflg arrayMemory baseMemory s).2 =
        ⟨update s.arrays i (some sma), used⟩ := by
  obtain ⟨i, free⟩ := Option.ne_none_iff_exists'.mp creates.free
  have new : (newary flags key nsems semflg arrayMemory baseMemory s).2 =
      ⟨update s.arrays i (some
        ⟨key, (semflg &&& ipcPerm).truncate 16 ||| flags.alloc, BitVec.ofNat 16 i, nsems⟩),
        s.usedSems + nsems⟩ := by
    have memory : ¬(!arrayMemory || !baseMemory) = true := by simpa using creates.memory
    rw [newary, if_neg (by simpa using ⟨creates.positive, creates.small⟩),
      if_neg (not_lt.mpr creates.fits), free]
    dsimp only
    rw [if_neg memory]
  refine ⟨i, ⟨key, (semflg &&& ipcPerm).truncate 16 ||| flags.alloc, BitVec.ofNat 16 i, nsems⟩,
    s.usedSems + nsems, free, rfl, ?_⟩
  rcases creates.wanted with rfl | ⟨missing, creat⟩
  · rw [sysSemget, if_pos rfl, new]
  · by_cases own : key = ipcPrivate
    · rw [sysSemget, if_pos own, new]
    · rw [sysSemget, if_neg own, missing]
      rw [if_pos creat, new]

/-- Otherwise nothing changes. -/
theorem sysSemget_of_not_creates (flags : IpcFlags)
    (not : ¬s.Creates key nsems semflg arrayMemory baseMemory) :
    (sysSemget flags key nsems semflg arrayMemory baseMemory s).2 = s := by
  have refused : (key = ipcPrivate ∨ semFindKey key s = none ∧ hasFlag semflg ipcCreat = true) →
      (newary flags key nsems semflg arrayMemory baseMemory s).2 = s := by
    intro wanted
    unfold newary
    by_cases size : nsems < 0 ∨ semmsl < nsems
    · rw [if_pos size]
    rw [if_neg size]
    by_cases full : semmns < s.usedSems + nsems
    · rw [if_pos full]
    rw [if_neg full]
    cases free : semFreeSlot s with
    | none => rfl
    | some i =>
      dsimp only
      by_cases memory : (!arrayMemory || !baseMemory) = true
      · rw [if_pos memory]
      · obtain ⟨positive, small⟩ := not_or.mp size
        exact absurd ⟨wanted, not_lt.mp positive, not_lt.mp small, not_lt.mp full,
          by rw [free]; simp, by simpa using memory⟩ not
  unfold sysSemget
  by_cases own : key = ipcPrivate
  · rw [if_pos own]
    exact refused (Or.inl own)
  rw [if_neg own]
  cases found : semFindKey key s with
  | none =>
    by_cases creat : hasFlag semflg ipcCreat = true
    · rw [if_pos creat]
      exact refused (Or.inr ⟨found, creat⟩)
    · rw [if_neg creat]
  | some set =>
    dsimp only
    split
    · rfl
    split
    · rfl
    split <;> rfl

/-- `IPC_RMID` changes nothing, or takes away the set that the identifier finds. -/
theorem sysSemctlRmid_cases (flags : IpcFlags) (semid : BitVec 32) (s : SemIds) :
    (∃ e, sysSemctlRmid flags semid s = (.error e, s)) ∨
      ∃ i sma used, semLock semid s = some (i, sma) ∧
        sysSemctlRmid flags semid s = (.ok (), ⟨update s.arrays i none, used⟩) := by
  unfold sysSemctlRmid
  cases found : semLock semid s with
  | none => exact Or.inl ⟨einval, rfl⟩
  | some set =>
    obtain ⟨i, sma⟩ := set
    by_cases refused : ipcperms flags sma.mode flags.m = 0
    · exact Or.inl ⟨eacces, by simp [refused]⟩
    · exact Or.inr ⟨i, sma, s.usedSems - sma.semNsems, rfl, by simp [refused]⟩

end

/-! ## Identifiers over a run -/

/-- A slot is in use, or was. -/
def SemRun.Used (s : SemRun) (i : Fin semmni) : Prop :=
  s.sems.arrays i ≠ none ∨ ∃ r ∈ s.removed, semSlot r.1 = some i

/-- What holds as long as no slot is used twice. -/
structure SemInv (s : SemRun) : Prop where
  seq : ∀ i sma, s.sems.arrays i = some sma → sma.seq = BitVec.ofNat 16 i
  empty : ∀ r ∈ s.removed, ∃ i, semSlot r.1 = some i ∧ semSeq r.1 = i ∧ s.sems.arrays i = none
  past : ∀ r ∈ s.removed, r.2 < s.clock
  lowest : ∀ i j, i ≤ j → s.Used j → s.Used i

namespace SemInv

variable {s : SemRun}

theorem start : SemInv semStart where
  seq := fun _ _ absent => absurd absent (by simp [semStart])
  empty := fun _ mem => absurd mem List.not_mem_nil
  past := fun _ mem => absurd mem List.not_mem_nil
  lowest := fun _ _ _ used => by simp [SemRun.Used, semStart] at used

/-- Identifiers that were removed find nothing. -/
theorem rejected (inv : SemInv s) : StaleRejected s := by
  rintro r mem ⟨i, sma⟩ found
  obtain ⟨slot, here, _⟩ := semLock_eq_some_iff.mp found
  obtain ⟨j, slot', _, gone⟩ := inv.empty r mem
  obtain rfl := Option.mem_unique slot slot'
  rw [gone] at here
  exact absurd here (by simp)

/-- Time passes. -/
theorem tick (inv : SemInv s) (born : Fin semmni → ℕ) :
    SemInv ⟨s.sems, s.clock + 1, born, s.removed⟩ where
  seq := inv.seq
  empty := inv.empty
  past := fun r mem => Nat.lt_succ_of_lt (inv.past r mem)
  lowest := inv.lowest

variable {i : Fin semmni}

/-- The first set is created in a slot, before any is removed. -/
theorem create (inv : SemInv s) {used : ℤ} {born : Fin semmni → ℕ}
    (free : semFreeSlot s.sems = some i) (seq : sma.seq = BitVec.ofNat 16 i)
    (none_removed : s.removed = []) :
    SemInv ⟨⟨update s.sems.arrays i (some sma), used⟩, s.clock + 1, born, s.removed⟩ where
  seq := by
    intro j found here
    dsimp only at here
    by_cases same : j = i
    · subst same
      rw [update_self] at here
      rw [← Option.some.inj here, seq]
    · rw [update_of_ne same] at here
      exact inv.seq j found here
  empty := by simp [none_removed]
  past := by simp [none_removed]
  lowest := by
    -- every slot before the first free one is in use
    have below : ∀ k, k ≤ i → update s.sems.arrays i (some sma) k ≠ none := by
      intro k le
      by_cases same : k = i
      · simp [same]
      · rw [update_of_ne same]
        exact (semFreeSlot_some free).2 k (lt_of_le_of_ne le same)
    intro k j le usedj
    have usedj : update s.sems.arrays i (some sma) j ≠ none := by
      simpa [SemRun.Used, none_removed] using usedj
    refine Or.inl ?_
    by_cases same : j = i
    · exact below k (same ▸ le)
    rw [update_of_ne same] at usedj
    by_cases here : k = i
    · simp [here]
    · have before := inv.lowest k j le (Or.inl usedj)
      show update s.sems.arrays i (some sma) k ≠ none
      rw [update_of_ne here]
      simpa [SemRun.Used, none_removed] using before

/-- A set is removed. -/
theorem remove (inv : SemInv s) {semid : BitVec 32}
    (found : semLock semid s.sems = some (i, sma)) (used : ℤ) :
    SemInv ⟨⟨update s.sems.arrays i none, used⟩, s.clock + 1, s.born,
      (semid, s.clock) :: s.removed⟩ where
  seq := by
    intro j other here
    dsimp only at here
    by_cases same : j = i
    · simp [same] at here
    · rw [update_of_ne same] at here
      exact inv.seq j other here
  empty := by
    obtain ⟨slot, here, seq⟩ := semLock_eq_some_iff.mp found
    intro r mem
    rcases List.mem_cons.mp mem with rfl | before
    · refine ⟨i, slot, ?_, update_self ..⟩
      rw [← seq, inv.seq i sma here, toNat_ofNat_slot]
    obtain ⟨j, slot', seq', gone⟩ := inv.empty r before
    refine ⟨j, slot', seq', ?_⟩
    by_cases same : j = i
    · simp [same]
    · simpa [update_of_ne same] using gone
  past := by
    exact List.forall_mem_cons.mpr ⟨Nat.lt_succ_self _, fun r before =>
      Nat.lt_succ_of_lt (inv.past r before)⟩
  lowest := by
    obtain ⟨slot, here, _⟩ := semLock_eq_some_iff.mp found
    -- the slots in use, now or before, are the same
    have same_used : ∀ k, SemRun.Used ⟨⟨update s.sems.arrays i none, used⟩, s.clock + 1,
        s.born, (semid, s.clock) :: s.removed⟩ k ↔ s.Used k := by
      intro k
      by_cases same : k = i
      · subst same
        exact iff_of_true (Or.inr ⟨(semid, s.clock), List.mem_cons_self, slot⟩)
          (Or.inl (by rw [here]; simp))
      · have apart : semSlot semid ≠ some k := by
          rw [slot]
          exact fun equal => same (Option.some.inj equal).symm
        simp [SemRun.Used, update_of_ne same, apart]
    intro k j le usedj
    exact (same_used k).mpr (inv.lowest k j le ((same_used j).mp usedj))

/-- After a removal the first free slot is one that was in use. -/
theorem free_removed (inv : SemInv s) (free : semFreeSlot s.sems = some i)
    (some_removed : s.removed ≠ []) :
    ∃ r ∈ s.removed, semSlot r.1 = some i ∧ semSeq r.1 = i := by
  obtain ⟨first, mem⟩ := List.exists_mem_of_ne_nil _ some_removed
  obtain ⟨j, slot, _, gone⟩ := inv.empty first mem
  have le : i ≤ j := by
    by_contra after
    exact (semFreeSlot_some free).2 j (not_le.mp after) gone
  rcases inv.lowest i j le (Or.inr ⟨first, mem, slot⟩) with busy | ⟨r, in_removed, slot'⟩
  · exact absurd (semFreeSlot_some free).1 busy
  · obtain ⟨k, slot'', seq, _⟩ := inv.empty r in_removed
    obtain rfl := Option.mem_unique slot' slot''
    exact ⟨r, in_removed, slot', seq⟩

end SemInv

/-- Calls that use no slot twice keep the invariant. -/
theorem semStep_keeps (flags : IpcFlags) (s : SemRun) (call : SemCall) (inv : SemInv s)
    (_legal : True) (good : SemNoReuse s call) :
    ∃ s', semStep flags s call = some s' ∧ SemInv s' := by
  cases call with
  | semget key nsems semflg arrayMemory baseMemory =>
    refine ⟨_, rfl, ?_⟩
    by_cases creates : s.sems.Creates key nsems semflg arrayMemory baseMemory
    · obtain ⟨i, sma, used, free, seq, result⟩ := sysSemget_of_creates flags creates
      rw [result]
      exact inv.create free seq (good creates)
    · rw [sysSemget_of_not_creates flags creates]
      exact inv.tick _
  | rmid semid =>
    rcases sysSemctlRmid_cases flags semid s.sems with
      ⟨e, refused⟩ | ⟨i, sma, used, found, removed⟩
    · refine ⟨_, ?_, inv.tick s.born⟩
      simp [semStep, refused]
    · refine ⟨_, ?_, inv.remove found used⟩
      simp [semStep, removed]

/-- A set created after a removal is found under an identifier that was removed. -/
theorem semStep_breaks (flags : IpcFlags) (s : SemRun) (call : SemCall) (inv : SemInv s)
    (_legal : True) (bad : ¬SemNoReuse s call) (s' : SemRun)
    (stepped : semStep flags s call = some s') : ¬StaleRejected s' := by
  intro rejected
  apply bad
  cases call with
  | rmid semid => trivial
  | semget key nsems semflg arrayMemory baseMemory =>
    intro creates
    by_contra some_removed
    obtain ⟨i, sma, used, free, seq, result⟩ := sysSemget_of_creates flags creates
    obtain ⟨r, mem, slot, same⟩ := inv.free_removed free some_removed
    cases stepped
    have found : semLock r.1 ⟨update s.sems.arrays i (some sma), used⟩ = some (i, sma) :=
      semLock_eq_some_iff.mpr ⟨slot, update_self .., by rw [seq, toNat_ofNat_slot, same]⟩
    have early := rejected r mem (i, sma) (by rw [result]; exact found)
    have new : (if (s.sems.arrays i).isNone && ((sysSemget flags key nsems semflg arrayMemory
        baseMemory s.sems).2.arrays i).isSome then s.clock else s.born i) = s.clock := by
      rw [result, (semFreeSlot_some free).1]
      simp
    dsimp only at early
    rw [new] at early
    exact absurd (inv.past r mem) (not_lt.mpr early)

/-- **Stale semaphore identifiers.**  Over a run of `sys_semget` and `IPC_RMID` calls, no
identifier that was removed finds a set created since, exactly if no set is created after
one was removed. -/
theorem stale_ids_rejected_iff (flags : IpcFlags) (calls : List SemCall) :
    Throughout (semStep flags) StaleRejected semStart calls ↔
      Allowed (semStep flags) SemNoReuse semStart calls :=
  throughout_iff_allowed SemInv (fun _ inv => inv.rejected) (semStep_keeps flags)
    (semStep_breaks flags) calls semStart SemInv.start (allowed_of_forall (fun _ _ => trivial) _ _)

/-! ### Two private sets -/

/-- `SEM_R` for reading, `SEM_A` for writing and for changing. -/
def semFlags : IpcFlags := ⟨0o400, 0o200, 0o200, 0o100000⟩

/-- Two sets are created, and the first one is removed. -/
theorem stale_ids_rejected_two :
    Throughout (semStep semFlags) StaleRejected semStart
      [.semget ipcPrivate 1 0o600 true true, .semget ipcPrivate 1 0o600 true true, .rmid 0] :=
  (stale_ids_rejected_iff semFlags _).mpr (by decide +kernel)

/-- The identifier 0 is removed by the second call, and then finds the set that the third
call creates. -/
theorem stale_id_accepted :
    (exec (semStep semFlags) semStart
        [.semget ipcPrivate 1 0o600 true true, .rmid 0, .semget ipcPrivate 1 0o600 true true]).map
      (fun s => (s.removed, (semLock 0 s.sems).map fun found => s.born found.1)) =
        some ([(0, 1)], some 2) ∧
    ¬Throughout (semStep semFlags) StaleRejected semStart
      [.semget ipcPrivate 1 0o600 true true, .rmid 0, .semget ipcPrivate 1 0o600 true true] := by
  decide +kernel

end EduOS
