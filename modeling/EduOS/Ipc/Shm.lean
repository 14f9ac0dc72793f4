import EduOS.Include.Fcntl
import EduOS.Library.Run
import EduOS.Library.Word

/-!
# Shared memory objects

`ipc/shm.c`: a table of 64 named objects with reference counts.

An object is freed when its count reaches 0 after its name has been unlinked.
`shm_unlink_object` marks the object and then calls `shm_put`, which takes a reference
away that the caller never had.  If one reference was out, the object is freed under its
holder; if more were out, the object lives on, and since `shm_find` does not look at the
mark, so does its name.

A run records the references obtained and not yet put, and the names unlinked and not
created since.  It is as it should be exactly if objects are unlinked only while nobody
holds a reference (`shm_outlives_iff_idle`); names that do not fit the name field and
counts that wrap are left out of the comparison.

`shm_truncate` frees the block of an object before it has a new one, and clears the new one
without copying.  So a new size keeps the contents only if there is nothing to copy
(`shm_truncate_keeps_iff`).
-/

namespace EduOS

open Function

/-! ## The source -/

def maxShmObjects : ℕ := 64

def shmNameMax : ℕ := 256

/-- `struct shm_object`; the slot is free if the name is empty. -/
structure ShmSlot where
  name : List (BitVec 8)
  size : ℕ
  data : Option Pointer
  refCount : ℕ
  mode : ℕ
  unlinked : Bool
deriving DecidableEq

/-- `memset(obj, 0, sizeof(struct shm_object))` -/
def ShmSlot.zero : ShmSlot := ⟨[], 0, none, 0, 0, false⟩

/-- `struct shm_manager` -/
abbrev ShmManager := Fin maxShmObjects → ShmSlot

/-- `shm_find` -/
def shmFind (m : ShmManager) (name : List (BitVec 8)) : Option (Fin maxShmObjects) :=
  (List.finRange maxShmObjects).find? fun i => (m i).name ≠ [] ∧ (m i).name = name

/-- The search for a free slot in `shm_create`. -/
def shmFreeSlot (m : ShmManager) : Option (Fin maxShmObjects) :=
  (List.finRange maxShmObjects).find? fun i => (m i).name = []

/-- `obj->ref_count++` -/
def ShmSlot.get (obj : ShmSlot) : ShmSlot := { obj with refCount := u32 (obj.refCount + 1) }

/-- `shm_create` -/
def shmCreate (m : ShmManager) (name : List (BitVec 8)) (oflag : BitVec 32) (mode : ℕ) :
    Option (Fin maxShmObjects) × ShmManager :=
  match shmFind m name with
  | some i =>
    if hasFlag oflag oCreat && hasFlag oflag oExcl then (none, m)
    else (some i, update m i (m i).get)
  | none =>
    if !hasFlag oflag oCreat then (none, m)
    else
      match shmFreeSlot m with
      | none => (none, m)
      | some i =>
        let obj : ShmSlot := ⟨name.take (shmNameMax - 1), 0, none, 0, mode, false⟩
        (some i, update m i obj.get)

/-- `shm_get` -/
def shmGet (m : ShmManager) (i : Fin maxShmObjects) : ShmManager :=
  update m i (m i).get

/-- What `shm_put` does with an object. -/
def ShmSlot.put (obj : ShmSlot) : ShmSlot :=
  let obj := { obj with refCount := if obj.refCount > 0 then obj.refCount - 1 else obj.refCount }
  if obj.refCount = 0 ∧ obj.unlinked then ShmSlot.zero else obj

/-- `shm_put` -/
def shmPut (m : ShmManager) (i : Fin maxShmObjects) : ShmManager :=
  update m i (m i).put

/-- `shm_unlink_object` -/
def shmUnlinkObject (m : ShmManager) (name : List (BitVec 8)) : ℤ × ShmManager :=
  match shmFind m name with
  | none => (-1, m)
  | some i => (0, shmPut (update m i { m i with unlinked := true }) i)

/-- `shm_truncate`; `allocated` is what `kmalloc` gives, and `memory` has the bytes of each
block. -/
def shmTruncate (allocated : Option Pointer) (memory : Pointer → List (BitVec 8))
    (m : ShmManager) (i : Fin maxShmObjects) (size : ℕ) :
    ℤ × ShmManager × (Pointer → List (BitVec 8)) :=
  let obj := m i
  let obj := if obj.data ≠ none ∧ obj.size ≠ size then { obj with data := none, size := 0 } else obj
  if obj.data = none ∧ size > 0 then
    match allocated with
    | none => (-1, update m i obj, memory)
    | some data =>
      (0, update m i { obj with data := some data, size := size },
        update memory data (List.replicate size 0))
  else
    (0, update m i obj, memory)

/-! ## Runs -/

/-- The objects, the references that are out on each, and the names that have been unlinked
and not created since. -/
structure ShmRun where
  objects : ShmManager
  refs : Fin maxShmObjects → ℕ
  gone : List (BitVec 8) → Bool

/-- After `shm_init`. -/
def shmStart : ShmRun := ⟨fun _ => ShmSlot.zero, fun _ => 0, fun _ => false⟩

/-- The calls on objects. -/
inductive ShmCall where
  | create (name : List (BitVec 8)) (oflag : BitVec 32) (mode : ℕ)
  | get (i : Fin maxShmObjects)
  | put (i : Fin maxShmObjects)
  | unlink (name : List (BitVec 8))
  | truncate (i : Fin maxShmObjects) (size : ℕ) (allocated : Option Pointer)

/-- One call.  A run follows the objects, not the bytes of their blocks. -/
def shmStep (s : ShmRun) : ShmCall → ShmRun
  | .create name oflag mode =>
    match shmCreate s.objects name oflag mode with
    | (none, m) => { s with objects := m }
    | (some i, m) =>
      ⟨m, update s.refs i (s.refs i + 1), update s.gone name false⟩
  | .get i => ⟨shmGet s.objects i, update s.refs i (s.refs i + 1), s.gone⟩
  | .put i => ⟨shmPut s.objects i, update s.refs i (s.refs i - 1), s.gone⟩
  | .unlink name =>
    let (ret, m) := shmUnlinkObject s.objects name
    ⟨m, s.refs, if ret = 0 then update s.gone name true else s.gone⟩
  | .truncate i size allocated =>
    { s with objects := (shmTruncate allocated (fun _ => []) s.objects i size).2.1 }

/-- References are taken on objects that exist, and put by those who have one. -/
def ShmLegal (s : ShmRun) : ShmCall → Prop
  | .get i | .truncate i _ _ => (s.objects i).name ≠ []
  | .put i => 0 < s.refs i
  | .create _ _ _ | .unlink _ => True

instance (s : ShmRun) : (call : ShmCall) → Decidable (ShmLegal s call)
  | .get _ | .truncate _ _ _ => inferInstanceAs (Decidable (_ ≠ _))
  | .put _ => inferInstanceAs (Decidable (_ < _))
  | .create _ _ _ | .unlink _ => inferInstanceAs (Decidable True)

/-- The calls that may free an object. -/
def ShmCall.Releases : ShmCall → Prop
  | .put _ | .unlink _ => True
  | _ => False

/-- The object has been neither freed nor cleared. -/
structure ShmSlot.Kept (obj obj' : ShmSlot) : Prop where
  name : obj'.name = obj.name
  size : obj'.size = obj.size
  data : obj'.data = obj.data
  mode : obj'.mode = obj.mode

/-- What is wanted of a call: it frees no object to which a reference is out, and no
unlinked name is found after it. -/
def ShmOutlives (s : ShmRun) (call : ShmCall) : Prop :=
  (call.Releases → ∀ i, 0 < (shmStep s call).refs i →
      (s.objects i).Kept ((shmStep s call).objects i)) ∧
    ∀ name, (shmStep s call).gone name = true → shmFind (shmStep s call).objects name = none

/-- An object is unlinked while no reference to it is out. -/
def ShmIdle (s : ShmRun) : ShmCall → Prop
  | .unlink name => ∀ i, shmFind s.objects name = some i → s.refs i = 0
  | _ => True

/-- Names of new objects fit the name field, and counts do not wrap. -/
def ShmFits (s : ShmRun) : ShmCall → Prop
  | .create name _ _ =>
    (shmFind s.objects name = none → name ≠ [] ∧ name.length < shmNameMax) ∧
      ∀ i, shmFind s.objects name = some i → s.refs i + 1 < 2 ^ 32
  | .get i => s.refs i + 1 < 2 ^ 32
  | _ => True

instance (s : ShmRun) : (call : ShmCall) → Decidable (ShmIdle s call)
  | .unlink _ => inferInstanceAs (Decidable (∀ _, _ → _))
  | .create _ _ _ | .get _ | .put _ | .truncate _ _ _ => inferInstanceAs (Decidable True)

instance (s : ShmRun) : (call : ShmCall) → Decidable (ShmFits s call)
  | .create _ _ _ => inferInstanceAs (Decidable (_ ∧ _))
  | .get _ => inferInstanceAs (Decidable (_ < _))
  | .put _ | .unlink _ | .truncate _ _ _ => inferInstanceAs (Decidable True)

/-! ## Searches -/

section

variable {m : ShmManager} {name : List (BitVec 8)} {i : Fin maxShmObjects}

theorem shmFind_some (found : shmFind m name = some i) : (m i).name ≠ [] ∧ (m i).name = name := by
  simpa using List.find?_some found

theorem shmFind_none (missing : shmFind m name = none) (i : Fin maxShmObjects)
    (named : (m i).name = name) : name = [] := by
  have tested := List.find?_eq_none.mp missing i (List.mem_finRange i)
  by_contra nonempty
  exact tested (by simp [named, nonempty])

theorem shmFind_eq_none (unnamed : ∀ i, (m i).name = name → name = []) : shmFind m name = none := by
  refine List.find?_eq_none.mpr fun i _ hit => ?_
  obtain ⟨nonempty, named⟩ : (m i).name ≠ [] ∧ (m i).name = name := by simpa using hit
  exact nonempty (named.trans (unnamed i named))

/-- `shm_create` fails and changes nothing, takes a reference on the object of that name,
or sets up a free slot. -/
theorem shmCreate_cases (m : ShmManager) (name : List (BitVec 8)) (oflag : BitVec 32) (mode : ℕ) :
    shmCreate m name oflag mode = (none, m) ∨
      (∃ i, shmFind m name = some i ∧
        shmCreate m name oflag mode = (some i, update m i (m i).get)) ∨
      ∃ i, shmFind m name = none ∧ shmFreeSlot m = some i ∧
        shmCreate m name oflag mode = (some i, update m i
          (ShmSlot.get ⟨name.take (shmNameMax - 1), 0, none, 0, mode, false⟩)) := by
  unfold shmCreate
  cases found : shmFind m name with
  | some i =>
    by_cases exclusive : (hasFlag oflag oCreat && hasFlag oflag oExcl) = true
    · exact Or.inl (if_pos exclusive)
    · exact Or.inr (Or.inl ⟨i, rfl, if_neg exclusive⟩)
  | none =>
    by_cases unwanted : (!hasFlag oflag oCreat) = true
    · exact Or.inl (if_pos unwanted)
    · cases free : shmFreeSlot m with
      | none => exact Or.inl (if_neg unwanted)
      | some i => exact Or.inr (Or.inr ⟨i, rfl, rfl, if_neg unwanted⟩)

theorem shmFreeSlot_some (found : shmFreeSlot m = some i) : (m i).name = [] := by
  simpa using List.find?_some found

end

/-! ## The invariant of well-behaved runs -/

/-- Every count is the number of references that are out, no object is marked, names are
distinct, and no unlinked name is in use. -/
structure ShmAccounted (s : ShmRun) : Prop where
  counted : ∀ i, (s.objects i).refCount = s.refs i
  linked : ∀ i, (s.objects i).unlinked = false
  used : ∀ i, 0 < s.refs i → (s.objects i).name ≠ []
  distinct : ∀ i j, (s.objects i).name = (s.objects j).name → (s.objects i).name ≠ [] → i = j
  hidden : ∀ name, s.gone name = true → ∀ i, (s.objects i).name = name → name = []

variable {obj : ShmSlot}

namespace ShmAccounted

variable {s : ShmRun} {i : Fin maxShmObjects}

theorem start : ShmAccounted shmStart where
  counted := fun _ => rfl
  linked := fun _ => rfl
  used := fun _ out => absurd out (lt_irrefl 0)
  distinct := fun _ _ _ named => absurd rfl named
  hidden := fun _ gone => absurd gone (by simp [shmStart])

variable {gone : List (BitVec 8) → Bool} {call : ShmCall}

variable {n : ℕ} {name : List (BitVec 8)}

/-- Replacing one object, the record of its references and the record of unlinked
names. -/
theorem edit (inv : ShmAccounted s) (counted : obj.refCount = n)
    (linked : obj.unlinked = false) (used : 0 < n → obj.name ≠ [])
    (fresh : ∀ j, j ≠ i → (s.objects j).name = obj.name → obj.name = [])
    (hidden : ∀ name, gone name = true → obj.name = name → name = [])
    (others : ∀ name, gone name = true → ∀ j, j ≠ i → (s.objects j).name = name → name = []) :
    ShmAccounted ⟨update s.objects i obj, update s.refs i n, gone⟩ := by
  constructor
  · intro j
    by_cases here : j = i
    · subst here; simpa using counted
    · simpa [update_of_ne here] using inv.counted j
  · intro j
    by_cases here : j = i
    · subst here; simpa using linked
    · simpa [update_of_ne here] using inv.linked j
  · intro j
    by_cases here : j = i
    · subst here; simpa using used
    · simpa [update_of_ne here] using inv.used j
  · intro j k same named
    dsimp only at same named
    by_cases here : j = i <;> by_cases also : k = i
    · rw [here, also]
    · subst here
      rw [update_self] at same named
      rw [update_of_ne also] at same
      exact absurd (fresh k also same.symm) named
    · subst also
      rw [update_self, update_of_ne here] at same
      rw [update_of_ne here] at named
      exact absurd (same.trans (fresh j here same)) named
    · rw [update_of_ne here, update_of_ne also] at same
      rw [update_of_ne here] at named
      exact inv.distinct j k same named
  · intro name unlinked j named
    by_cases here : j = i
    · subst here
      exact hidden name unlinked (by simpa using named)
    · exact others name unlinked j here (by simpa [update_of_ne here] using named)

/-- Replacing an object by one of the same name. -/
theorem recount (inv : ShmAccounted s) (counted : obj.refCount = n)
    (linked : obj.unlinked = false) (same : obj.name = (s.objects i).name)
    (used : 0 < n → (s.objects i).name ≠ [])
    (fewer : ∀ name, gone name = true → s.gone name = true) :
    ShmAccounted ⟨update s.objects i obj, update s.refs i n, gone⟩ := by
  refine inv.edit counted linked (by rwa [same]) ?_ ?_ ?_
  · intro j other equal
    rw [same] at equal ⊢
    by_contra named
    exact other (inv.distinct i j equal.symm named).symm
  · intro name unlinked named
    exact inv.hidden name (fewer name unlinked) i (same.symm.trans named)
  · intro name unlinked j _ named
    exact inv.hidden name (fewer name unlinked) j named

theorem update_gone_false {other : List (BitVec 8)}
    (unlinked : update gone name false other = true) :
    gone other = true ∧ other ≠ name := by
  by_cases same : other = name
  · subst same
    simp at unlinked
  · exact ⟨by rwa [update_of_ne same] at unlinked, same⟩

/-- Taking a reference. -/
theorem get (inv : ShmAccounted s) (exists_ : (s.objects i).name ≠ [])
    (small : s.refs i + 1 < 2 ^ 32) (fewer : ∀ name, gone name = true → s.gone name = true) :
    ShmAccounted ⟨update s.objects i (s.objects i).get, update s.refs i (s.refs i + 1), gone⟩ := by
  refine inv.recount ?_ (inv.linked i) rfl (fun _ => exists_) fewer
  show u32 ((s.objects i).refCount + 1) = s.refs i + 1
  rw [inv.counted i, u32_of_lt small]

/-- Giving one back frees nothing, since nothing is marked. -/
theorem put_eq (inv : ShmAccounted s) (out : 0 < s.refs i) :
    (s.objects i).put = { s.objects i with refCount := s.refs i - 1 } := by
  have count := inv.counted i
  simp [ShmSlot.put, inv.linked i, count, if_pos out]

/-- An object without references is freed at once by its unlinking. -/
theorem unlink_idle (inv : ShmAccounted s) (idle : s.refs i = 0) :
    ({ s.objects i with unlinked := true } : ShmSlot).put = ShmSlot.zero := by
  have count : (s.objects i).refCount = 0 := (inv.counted i).trans idle
  simp [ShmSlot.put, count]

/-- An object with references loses one of them, and is freed if that was the last. -/
theorem unlink_busy (inv : ShmAccounted s) (out : 0 < s.refs i) :
    ({ s.objects i with unlinked := true } : ShmSlot).put =
      if s.refs i = 1 then ShmSlot.zero
      else { s.objects i with unlinked := true, refCount := s.refs i - 1 } := by
  have count := inv.counted i
  simp only [ShmSlot.put, count, gt_iff_lt, out, if_true, and_true]
  by_cases last : s.refs i = 1
  · rw [if_pos (by omega), if_pos last]
  · rw [if_neg (by omega), if_neg last]

theorem shmUnlink_found {m : ShmManager} (found : shmFind m name = some i) :
    shmUnlinkObject m name = (0, update m i ({ m i with unlinked := true } : ShmSlot).put) := by
  simp [shmUnlinkObject, found, shmPut]

section

variable (inv : ShmAccounted s)
include inv

/-- Creating or opening an object. -/
theorem create (oflag : BitVec 32) (mode : ℕ) (fits : ShmFits s (.create name oflag mode)) :
    ShmAccounted (shmStep s (.create name oflag mode)) := by
  obtain ⟨small_name, small_count⟩ := fits
  have fewer : ∀ other, update s.gone name false other = true → s.gone other = true :=
    fun _ unlinked => (update_gone_false unlinked).1
  rcases shmCreate_cases s.objects name oflag mode with failed | ⟨i, found, opened⟩ |
    ⟨i, missing, free, created⟩
  · simpa only [shmStep, failed] using inv
  · simp only [shmStep, opened]
    exact inv.get (shmFind_some found).1 (small_count i found) fewer
  · obtain ⟨nonempty, short⟩ := small_name missing
    have whole : name.take (shmNameMax - 1) = name :=
      List.take_of_length_le (by simp only [shmNameMax] at short ⊢; omega)
    have unused : s.refs i = 0 := by
      by_contra out
      exact inv.used i (by omega) (shmFreeSlot_some free)
    simp only [shmStep, created, unused, whole]
    refine inv.edit rfl rfl (fun _ => nonempty) ?_ ?_ ?_
    · exact fun j _ named => shmFind_none missing j named
    · intro other unlinked named
      exact absurd named.symm (update_gone_false unlinked).2
    · intro other unlinked j _ named
      exact inv.hidden other (fewer other unlinked) j named

/-- Unlinking an idle object. -/
theorem unlink (idle : ShmIdle s (.unlink name)) : ShmAccounted (shmStep s (.unlink name)) := by
  cases found : shmFind s.objects name with
  | none =>
    have missing : shmUnlinkObject s.objects name = (-1, s.objects) := by
      simp [shmUnlinkObject, found]
    simpa [shmStep, missing] using inv
  | some i =>
    have none_out := idle i found
    obtain ⟨named, rfl⟩ := shmFind_some found
    have counts : s.refs = update s.refs i 0 := by
      rw [← none_out, update_eq_self]
    simp only [shmStep, shmUnlink_found found, inv.unlink_idle none_out, if_true]
    rw [counts]
    refine inv.edit rfl rfl (fun out => absurd out (lt_irrefl 0)) (fun _ _ _ => rfl)
      (fun _ _ empty => empty.symm) ?_
    intro other unlinked j apart same
    by_cases here : other = (s.objects i).name
    · subst here
      exact absurd (inv.distinct i j same.symm named).symm apart
    · rw [update_of_ne here] at unlinked
      exact inv.hidden other unlinked j same

/-- Resizing an object. -/
theorem truncate (exists_ : (s.objects i).name ≠ []) (size : ℕ)
    (allocated : Option Pointer) : ShmAccounted (shmStep s (.truncate i size allocated)) := by
  have edited : ∃ obj : ShmSlot, (shmTruncate allocated (fun _ => []) s.objects i size).2.1 =
      update s.objects i obj ∧ obj.refCount = (s.objects i).refCount ∧
      obj.unlinked = (s.objects i).unlinked ∧ obj.name = (s.objects i).name := by
    simp only [shmTruncate]
    cases allocated <;> split_ifs <;> exact ⟨_, rfl, rfl, rfl, rfl⟩
  obtain ⟨obj, result, count, mark, same⟩ := edited
  have counts : s.refs = update s.refs i (s.refs i) := by
    rw [update_eq_self]
  simp only [shmStep, result]
  rw [counts]
  exact inv.recount (count.trans (inv.counted i)) (mark.trans (inv.linked i)) same
    (fun _ => exists_) fun _ unlinked => unlinked

/-- Good calls keep the account. -/
theorem step (legal : ShmLegal s call) (idle : ShmIdle s call)
    (fits : ShmFits s call) : ShmAccounted (shmStep s call) := by
  cases call with
  | create name oflag mode => exact inv.create oflag mode fits
  | get i => exact inv.get legal fits fun _ unlinked => unlinked
  | put i =>
    have out : 0 < s.refs i := legal
    simp only [shmStep, shmPut, inv.put_eq out]
    exact inv.recount rfl (inv.linked i) rfl (fun _ => inv.used i out) fun _ unlinked => unlinked
  | unlink name => exact inv.unlink idle
  | truncate i size allocated => exact inv.truncate legal size allocated

/-- And they are as wanted. -/
theorem outlives (legal : ShmLegal s call) (idle : ShmIdle s call)
    (fits : ShmFits s call) : ShmOutlives s call := by
  refine ⟨fun releases i out => ?_, fun name unlinked =>
    shmFind_eq_none ((inv.step legal idle fits).hidden name unlinked)⟩
  cases call with
  | create => exact releases.elim
  | get => exact releases.elim
  | truncate => exact releases.elim
  | put j =>
    show (s.objects i).Kept (update s.objects j (s.objects j).put i)
    by_cases here : i = j
    · subst here
      rw [update_self, inv.put_eq legal]
      exact ⟨rfl, rfl, rfl, rfl⟩
    · rw [update_of_ne here]
      exact ⟨rfl, rfl, rfl, rfl⟩
  | unlink name =>
    have out : 0 < s.refs i := out
    show (s.objects i).Kept ((shmUnlinkObject s.objects name).2 i)
    cases found : shmFind s.objects name with
    | none =>
      simp only [shmUnlinkObject, found]
      exact ⟨rfl, rfl, rfl, rfl⟩
    | some j =>
      have apart : i ≠ j := by
        rintro rfl
        have none_out := idle i found
        omega
      rw [shmUnlink_found found]
      show (s.objects i).Kept (update s.objects j _ i)
      rw [update_of_ne apart]
      exact ⟨rfl, rfl, rfl, rfl⟩

/-- What is wanted of a call forces an unlinked object to be idle. -/
theorem idle (wanted : ShmOutlives s call) : ShmIdle s call := by
  cases call with
  | create => trivial
  | get => trivial
  | put => trivial
  | truncate => trivial
  | unlink name =>
    intro i found
    by_contra busy
    have out : 0 < s.refs i := by omega
    obtain ⟨named, rfl⟩ := shmFind_some found
    obtain ⟨kept, hidden⟩ := wanted
    have result := shmUnlink_found found
    rw [inv.unlink_busy out] at result
    by_cases last : s.refs i = 1
    · -- the only reference is taken away: the object is freed
      have cleared := (kept trivial i out).name
      simp only [shmStep, result, if_pos last, update_self] at cleared
      exact named cleared.symm
    · -- the object lives on under its name
      have missing := hidden (s.objects i).name (by simp [shmStep, result])
      refine named (shmFind_none missing i ?_)
      simp [shmStep, result, if_neg last]

end

end ShmAccounted

/-! ## Lifetime -/

/-- **Shared memory object lifetime.**  A run in which every reference put was obtained
before is as wanted at every call if objects are unlinked only while no reference to them
is out, new names fit and counts do not wrap; and among the runs whose names fit and whose
counts do not wrap it is as wanted at every call only then. -/
theorem shm_outlives_iff_idle (calls : List ShmCall)
    (legal : Allowed (fun s c => some (shmStep s c)) ShmLegal shmStart calls) :
    (Allowed (fun s c => some (shmStep s c)) (fun s c => ShmIdle s c ∧ ShmFits s c) shmStart calls →
      Allowed (fun s c => some (shmStep s c)) ShmOutlives shmStart calls) ∧
    (Allowed (fun s c => some (shmStep s c)) ShmFits shmStart calls →
      Allowed (fun s c => some (shmStep s c)) ShmOutlives shmStart calls →
      Allowed (fun s c => some (shmStep s c)) ShmIdle shmStart calls) := by
  constructor
  · intro good
    refine allowed_imp ShmAccounted ?_ ?_ calls _ .start (allowed_and.mpr ⟨legal, good⟩)
    · exact fun s call inv all => inv.outlives all.1 all.2.1 all.2.2
    · intro s call s' inv all stepped
      exact Option.some.inj stepped ▸ inv.step all.1 all.2.1 all.2.2
  · intro fits wanted
    refine allowed_imp ShmAccounted ?_ ?_ calls _ .start
      (allowed_and.mpr ⟨legal, allowed_and.mpr ⟨fits, wanted⟩⟩)
    · exact fun s call inv all => inv.idle all.2.2
    · intro s call s' inv all stepped
      exact Option.some.inj stepped ▸ inv.step all.1 (inv.idle all.2.2) all.2.1

/-- The name `/x`. -/
def shmNameX : List (BitVec 8) := [0x2F, 0x78]

/-- The first slot. -/
def shmSlot0 : Fin maxShmObjects := ⟨0, by decide⟩

/-- An object with two holders is unlinked when both are done, and its name used again. -/
theorem shm_outlives_reused :
    Allowed (fun s c => some (shmStep s c)) ShmOutlives shmStart
      [.create shmNameX oCreat 0, .truncate shmSlot0 16 none, .get shmSlot0, .put shmSlot0,
        .put shmSlot0, .unlink shmNameX, .create shmNameX oCreat 0] :=
  (shm_outlives_iff_idle _ (by decide +kernel)).1 (by decide +kernel)

/-- An object is unlinked while its creator holds it: it is cleared under the creator.  With
a second reference out it is still found under its name. -/
theorem shm_unlinked_early :
    ¬Allowed (fun s c => some (shmStep s c)) ShmOutlives shmStart
        [.create shmNameX oCreat 0, .unlink shmNameX] ∧
      Allowed (fun s c => some (shmStep s c)) ShmLegal shmStart
        [.create shmNameX oCreat 0, .get shmSlot0, .unlink shmNameX] ∧
      ¬Allowed (fun s c => some (shmStep s c)) ShmOutlives shmStart
        [.create shmNameX oCreat 0, .get shmSlot0, .unlink shmNameX] := by
  refine ⟨?_, by decide +kernel, ?_⟩
  · simp only [allowed_cons_total]
    rintro ⟨_, ⟨kept, _⟩, _⟩
    exact absurd (kept trivial shmSlot0 (by decide +kernel)).name (by decide +kernel)
  · simp only [allowed_cons_total]
    rintro ⟨_, _, ⟨_, hidden⟩, _⟩
    exact absurd (hidden shmNameX (by decide +kernel)) (by decide +kernel)

/-! ## Resizing -/

/-- The bytes of an object. -/
def ShmSlot.Contains (memory : Pointer → List (BitVec 8)) (obj : ShmSlot)
    (bytes : List (BitVec 8)) : Prop :=
  obj.size = bytes.length ∧
    match obj.data with
    | none => bytes = []
    | some data => memory data = bytes

instance ShmSlot.Contains.decidable (memory : Pointer → List (BitVec 8)) (obj : ShmSlot)
    (bytes : List (BitVec 8)) :
    Decidable (obj.Contains memory bytes) :=
  match data_eq : obj.data with
  | none => decidable_of_iff (obj.size = bytes.length ∧ bytes = []) (by
      rw [ShmSlot.Contains, data_eq])
  | some data => decidable_of_iff (obj.size = bytes.length ∧ memory data = bytes) (by
      rw [ShmSlot.Contains, data_eq])

/-- What is wanted of a resizing: on success the old bytes as far as they fit and zero
bytes after them, on failure the object as it was. -/
def ShmResized (bytes : List (BitVec 8)) (size : ℕ) (ret : ℤ)
    (memory : Pointer → List (BitVec 8)) (obj : ShmSlot) : Prop :=
  (ret = 0 → obj.Contains memory (bytes.take size ++ List.replicate (size - bytes.length) 0)) ∧
    (ret = -1 → obj.Contains memory bytes)

section

variable (allocated : Option Pointer) {m : ShmManager} {i : Fin maxShmObjects} {size : ℕ}
  {memory : Pointer → List (BitVec 8)} {bytes : List (BitVec 8)}

/-- The object has the size already. -/
theorem shmTruncate_same (contains : (m i).Contains memory bytes) (same : size = bytes.length) :
    (shmTruncate allocated memory m i size).1 = 0 ∧
      (shmTruncate allocated memory m i size).2.1 i = m i ∧
      (shmTruncate allocated memory m i size).2.2 = memory := by
  obtain ⟨length, block⟩ := contains
  cases data : (m i).data with
  | none =>
    rw [data] at block
    subst block
    simp [shmTruncate, data, same]
  | some p => simp [shmTruncate, data, same, length]

/-- The block is given back and there is no new one. -/
theorem shmTruncate_zero (contains : (m i).Contains memory bytes) :
    (shmTruncate allocated memory m i 0).1 = 0 ∧
      ((shmTruncate allocated memory m i 0).2.1 i).Contains memory [] ∧
      (shmTruncate allocated memory m i 0).2.2 = memory := by
  refine ⟨by simp [shmTruncate], ?_, by simp [shmTruncate]⟩
  obtain ⟨length, block⟩ := contains
  cases data : (m i).data with
  | none =>
    rw [data] at block
    subst block
    simp [shmTruncate, data, ShmSlot.Contains, length]
  | some p =>
    by_cases empty : (m i).size = 0
    · have none_left : bytes = [] := List.length_eq_zero_iff.mp (length.symm.trans empty)
      rw [data, none_left] at block
      simp [shmTruncate, data, ShmSlot.Contains, empty, block]
    · simp [shmTruncate, data, ShmSlot.Contains, empty]

/-- Another size than 0 and the old one: what there is afterwards is new, or nothing. -/
theorem shmTruncate_other (contains : (m i).Contains memory bytes) (positive : 0 < size)
    (other : size ≠ bytes.length) :
    (∀ p, allocated = some p → (shmTruncate allocated memory m i size).1 = 0 ∧
      ((shmTruncate allocated memory m i size).2.1 i).Contains
        (shmTruncate allocated memory m i size).2.2 (List.replicate size 0)) ∧
    (allocated = none → (shmTruncate allocated memory m i size).1 = -1 ∧
      ((shmTruncate allocated memory m i size).2.1 i).Contains
        (shmTruncate allocated memory m i size).2.2 []) := by
  obtain ⟨length, block⟩ := contains
  have changed : (m i).size ≠ size := by rw [length]; exact other.symm
  cases data : (m i).data with
  | none =>
    rw [data] at block
    subst block
    constructor
    · rintro p rfl
      simp [shmTruncate, data, positive, ShmSlot.Contains]
    · rintro rfl
      simp [shmTruncate, data, positive, ShmSlot.Contains, length]
  | some old =>
    constructor
    · rintro p rfl
      simp [shmTruncate, data, changed, positive, ShmSlot.Contains]
    · rintro rfl
      simp [shmTruncate, data, changed, positive, ShmSlot.Contains]

theorem ShmSlot.Contains.unique {bytes' : List (BitVec 8)} (first : obj.Contains memory bytes)
    (second : obj.Contains memory bytes') : bytes = bytes' := by
  obtain ⟨_, first⟩ := first
  obtain ⟨_, second⟩ := second
  cases data : obj.data with
  | none =>
    rw [data] at first second
    exact first.trans second.symm
  | some p =>
    rw [data] at first second
    exact first.symm.trans second

end

/-- **Resizing keeps the contents** exactly if the object is empty, its new size is 0 or the
old one, or memory is available and the bytes to be kept are all 0. -/
theorem shm_truncate_keeps_iff (allocated : Option Pointer) (m : ShmManager)
    (i : Fin maxShmObjects) (size : ℕ) (memory : Pointer → List (BitVec 8))
    (bytes : List (BitVec 8)) (contains : (m i).Contains memory bytes) :
    ShmResized bytes size (shmTruncate allocated memory m i size).1
        (shmTruncate allocated memory m i size).2.2
          ((shmTruncate allocated memory m i size).2.1 i) ↔
      bytes = [] ∨ size = 0 ∨ size = bytes.length ∨
        (allocated ≠ none ∧ ∀ byte ∈ bytes.take size, byte = 0) := by
  by_cases zero : size = 0
  · subst zero
    obtain ⟨ret, emptied, unchanged⟩ := shmTruncate_zero allocated contains
    rw [ret, unchanged]
    refine iff_of_true ⟨fun _ => ?_, fun failed => absurd failed (by decide)⟩ (by simp)
    simpa using emptied
  by_cases same : size = bytes.length
  · obtain ⟨ret, kept, unchanged⟩ := shmTruncate_same allocated contains same
    rw [ret, kept, unchanged]
    refine iff_of_true ⟨fun _ => ?_, fun failed => absurd failed (by decide)⟩ (by simp [same])
    simpa [same] using contains
  obtain ⟨success, failure⟩ := shmTruncate_other allocated contains (Nat.pos_of_ne_zero zero) same
  cases allocated with
  | none =>
    -- the old block is gone, and the size with it
    obtain ⟨ret, emptied⟩ := failure rfl
    rw [ret]
    constructor
    · rintro ⟨-, failed⟩
      exact Or.inl (emptied.unique (failed rfl)).symm
    · rintro (rfl | cases)
      · exact ⟨fun done => absurd done (by decide), fun _ => emptied⟩
      · simp [zero, same] at cases
  | some p =>
    -- the new block has only zero bytes
    obtain ⟨ret, cleared⟩ := success p rfl
    rw [ret]
    constructor
    · rintro ⟨done, -⟩
      have zeros := cleared.unique (done rfl)
      refine Or.inr (Or.inr (Or.inr ⟨by simp, fun byte mem => ?_⟩))
      have mem' : byte ∈ List.replicate size (0 : BitVec 8) := by
        rw [zeros]
        exact List.mem_append_left _ mem
      exact List.eq_of_mem_replicate mem'
    · intro cases
      have zeros : ∀ byte ∈ bytes.take size, byte = 0 := by
        rcases cases with rfl | bad | bad | ⟨_, zeros⟩
        · simp
        · exact absurd bad zero
        · exact absurd bad same
        · exact zeros
      have shape : bytes.take size ++ List.replicate (size - bytes.length) 0 =
          List.replicate size 0 := by
        rw [List.eq_replicate_of_mem zeros, List.replicate_append_replicate, List.length_take]
        congr 1
        omega
      refine ⟨fun _ => ?_, fun failed => absurd failed (by decide)⟩
      rw [shape]
      exact cleared

/-- A block at 0x1000. -/
def shmBlock : Pointer := pagePointer 0

/-- An object of one byte in the first slot. -/
def shmOneByte : ShmManager :=
  fun i => if i = shmSlot0 then ⟨shmNameX, 1, some shmBlock, 1, 0, false⟩ else ShmSlot.zero

/-- An object with a zero byte is made longer. -/
theorem shm_truncate_keeps_zero :
    ShmResized [0] 2 (shmTruncate (some shmBlock) (fun _ => [0]) shmOneByte shmSlot0 2).1
      (shmTruncate (some shmBlock) (fun _ => [0]) shmOneByte shmSlot0 2).2.2
      ((shmTruncate (some shmBlock) (fun _ => [0]) shmOneByte shmSlot0 2).2.1 shmSlot0) :=
  (shm_truncate_keeps_iff (some shmBlock) shmOneByte shmSlot0 2 (fun _ => [0]) [0]
    (by decide +kernel)).mpr (by simp)

/-- The byte 7 is lost when its object is made longer, and so is the object's size when
there is no memory for that. -/
theorem shm_truncate_loses :
    (shmOneByte shmSlot0).Contains (fun _ => [7]) [7] ∧
      ¬ShmResized [7] 2 (shmTruncate (some shmBlock) (fun _ => [7]) shmOneByte shmSlot0 2).1
        (shmTruncate (some shmBlock) (fun _ => [7]) shmOneByte shmSlot0 2).2.2
        ((shmTruncate (some shmBlock) (fun _ => [7]) shmOneByte shmSlot0 2).2.1 shmSlot0) ∧
      ¬ShmResized [7] 2 (shmTruncate none (fun _ => [7]) shmOneByte shmSlot0 2).1
        (shmTruncate none (fun _ => [7]) shmOneByte shmSlot0 2).2.2
        ((shmTruncate none (fun _ => [7]) shmOneByte shmSlot0 2).2.1 shmSlot0) := by
  refine ⟨by decide +kernel, fun resized => ?_, fun resized => ?_⟩
  · exact absurd (resized.1 (by decide +kernel)) (by decide +kernel)
  · exact absurd (resized.2 (by decide +kernel)) (by decide +kernel)

end EduOS
