import EduOS.Include.Errno
import EduOS.Library.Run
import EduOS.Library.Word

/-!
# Mutexes

`mutex_init`, `mutex_lock`, `mutex_trylock` and `mutex_unlock` of `sync/mutex.c`.

The owner recorded in a mutex is what `get_current_pid` returns, and
`get_current_pid` returns 1 whoever asks.  A mutex therefore knows whether it is
taken, not by whom: a stranger's `mutex_unlock` is served like the holder's, and a
recursive mutex is entered by a stranger like by its holder.

Each function runs with interrupts off, so a call is one step, except for
`mutex_lock` on a taken mutex: its loop turns interrupts on between two looks at
`locked`, and each look is a step of its own (`mutexWait`).  A run is any sequence of
such steps by any processes, with a count for each process of the locks it was granted
and has not given back.

The module settles which runs keep the mutex exclusive: those in which a taken mutex
is unlocked, and a taken recursive mutex entered, by the process that holds it.
-/

namespace EduOS

open Function

/-! ## The source -/

/-- `MUTEX_NORMAL`, `MUTEX_RECURSIVE`, `MUTEX_ERRORCHECK` -/
inductive MutexType where
  | normal
  | recursive
  | errorcheck
deriving DecidableEq

/-- `struct mutex`, without the wait queue that no function uses. -/
structure Mutex where
  locked : Bool
  type : MutexType
  owner : ℕ
  recursion : ℕ
  lockCount : ℕ
  unlockCount : ℕ
  contentionCount : ℕ
deriving DecidableEq

/-- `get_current_pid`: a fixed value. -/
def getCurrentPid : ℕ := 1

/-- `mutex_init` -/
def mutexInit (type : MutexType) : Mutex :=
  ⟨false, type, 0, 0, 0, 0, 0⟩

/-- How a look at the mutex ends: the call returns 0, goes round its loop, or returns
`-error`. -/
inductive LockPass where
  | granted
  | waiting
  | refused (error : ℕ)
deriving DecidableEq

namespace Mutex

/-- The lock is taken. -/
def acquire (m : Mutex) : Mutex :=
  { m with
    locked := true
    owner := getCurrentPid
    recursion := 1
    lockCount := u64 (m.lockCount + 1) }

/-- A recursive lock is entered once more. -/
def reenter (m : Mutex) : Mutex :=
  { m with recursion := u32 (m.recursion + 1), lockCount := u64 (m.lockCount + 1) }

end Mutex

/-- One look of the waiting loop of `mutex_lock`. -/
def mutexWait (m : Mutex) : LockPass × Mutex :=
  if m.locked then
    (.waiting, { m with contentionCount := u64 (m.contentionCount + 1) })
  else
    (.granted, m.acquire)

/-- `mutex_lock` up to its first look at `locked`. -/
def mutexLock (m : Mutex) : LockPass × Mutex :=
  if m.type = .recursive ∧ m.owner = getCurrentPid then
    (.granted, m.reenter)
  else if m.type = .errorcheck ∧ m.owner = getCurrentPid then
    (.refused edeadlk, m)
  else
    mutexWait m

/-- `mutex_trylock` -/
def mutexTrylock (m : Mutex) : LockPass × Mutex :=
  if m.type = .recursive ∧ m.owner = getCurrentPid then
    (.granted, m.reenter)
  else if m.locked then
    (.refused ebusy, m)
  else
    (.granted, m.acquire)

/-- `mutex_unlock` -/
def mutexUnlock (m : Mutex) : Except ℕ Unit × Mutex :=
  if m.owner ≠ getCurrentPid then
    (.error eperm, m)
  else if m.type = .recursive ∧ 1 < m.recursion then
    (.ok (), { m with
      recursion := m.recursion - 1
      unlockCount := u64 (m.unlockCount + 1) })
  else
    (.ok (), { m with
      owner := 0
      recursion := 0
      locked := false
      unlockCount := u64 (m.unlockCount + 1) })

/-! ## Processes that share a mutex -/

/-- A mutex and, for each pid, how many granted locks the process has not given back. -/
structure MutexState where
  mutex : Mutex
  holds : ℕ → ℕ

/-- A fresh mutex, held by nobody. -/
def mutexStart (type : MutexType) : MutexState :=
  ⟨mutexInit type, fun _ => 0⟩

/-- The calls; `wait p` is one more look of a `mutex_lock` of `p` that waits. -/
inductive MutexCall where
  | lock (p : ℕ)
  | wait (p : ℕ)
  | trylock (p : ℕ)
  | unlock (p : ℕ)

/-- A granted lock is counted for its process. -/
def MutexState.afterLock (s : MutexState) (p : ℕ) (result : LockPass × Mutex) : MutexState :=
  ⟨result.2, if result.1 = .granted then update s.holds p (s.holds p + 1) else s.holds⟩

/-- A successful unlock gives back one lock of its process. -/
def MutexState.afterUnlock (s : MutexState) (p : ℕ) (result : Except ℕ Unit × Mutex) :
    MutexState :=
  match result with
  | (.ok (), m) => ⟨m, update s.holds p (s.holds p - 1)⟩
  | (.error _, m) => ⟨m, s.holds⟩

/-- One step of some process. -/
def mutexStep (s : MutexState) : MutexCall → MutexState
  | .lock p => s.afterLock p (mutexLock s.mutex)
  | .wait p => s.afterLock p (mutexWait s.mutex)
  | .trylock p => s.afterLock p (mutexTrylock s.mutex)
  | .unlock p => s.afterUnlock p (mutexUnlock s.mutex)

/-- At most one process holds the mutex. -/
def MutexState.Exclusive (s : MutexState) : Prop :=
  ∀ p q, 0 < s.holds p → 0 < s.holds q → p = q

/-- What is wanted of a call: it leaves at most one holder, and an unlock by a process
that holds nothing returns an error and changes nothing. -/
def KeepsExclusion (s : MutexState) (call : MutexCall) : Prop :=
  (mutexStep s call).Exclusive ∧
    ∀ p, call = .unlock p → s.holds p = 0 → ∃ error, mutexUnlock s.mutex = (.error error, s.mutex)

/-- A taken recursive mutex is entered, and a taken mutex unlocked, only by a process
that holds it. -/
def ByHolder (s : MutexState) : MutexCall → Prop
  | .lock p | .trylock p =>
    s.mutex.type = .recursive → s.mutex.locked → 0 < s.holds p
  | .wait _ => True
  | .unlock p => s.mutex.locked → 0 < s.holds p

/-- No process nests its locks so deep that `recursion` wraps. -/
def Shallow (s : MutexState) : MutexCall → Prop
  | .lock p | .trylock p => s.holds p + 1 < 2 ^ 32
  | .wait _ | .unlock _ => True

instance (s : MutexState) : (call : MutexCall) → Decidable (ByHolder s call)
  | .lock _ | .trylock _ => inferInstanceAs (Decidable (_ → _ → _))
  | .wait _ => inferInstanceAs (Decidable True)
  | .unlock _ => inferInstanceAs (Decidable (_ → _))

instance (s : MutexState) : (call : MutexCall) → Decidable (Shallow s call)
  | .lock _ | .trylock _ => inferInstanceAs (Decidable (_ < _))
  | .wait _ | .unlock _ => inferInstanceAs (Decidable True)

/-! ## What a look at the mutex does -/

/-- Nothing but the statistics differs. -/
structure SameLock (m m' : Mutex) : Prop where
  locked : m'.locked = m.locked
  type : m'.type = m.type
  owner : m'.owner = m.owner
  recursion : m'.recursion = m.recursion

/-- The three ways a look ends: a free mutex is acquired, a taken recursive one is
entered again, and any other taken one is left as it is. -/
inductive LockEffect (m : Mutex) : LockPass × Mutex → Prop
  | acquired (free : m.locked = false) : LockEffect m (.granted, m.acquire)
  | reentered (recursive : m.type = .recursive) (taken : m.locked = true) :
      LockEffect m (.granted, m.reenter)
  | kept {pass : LockPass} {m' : Mutex} (taken : m.locked = true) (no : pass ≠ .granted)
      (same : SameLock m m') : LockEffect m (pass, m')

section

variable {m : Mutex}

theorem mutexWait_effect : LockEffect m (mutexWait m) := by
  unfold mutexWait
  by_cases taken : m.locked = true
  · rw [if_pos taken]
    exact .kept taken (by decide) ⟨rfl, rfl, rfl, rfl⟩
  · rw [if_neg taken]
    exact .acquired (by simpa using taken)

/-- The owner field tells `mutex_lock` whether the mutex is taken, and nothing else. -/
theorem mutexLock_effect (owned : m.owner = getCurrentPid ↔ m.locked = true) :
    LockEffect m (mutexLock m) := by
  unfold mutexLock
  by_cases recursive : m.type = .recursive ∧ m.owner = getCurrentPid
  · rw [if_pos recursive]
    exact .reentered recursive.1 (owned.mp recursive.2)
  rw [if_neg recursive]
  by_cases checked : m.type = .errorcheck ∧ m.owner = getCurrentPid
  · rw [if_pos checked]
    exact .kept (owned.mp checked.2) (by decide) ⟨rfl, rfl, rfl, rfl⟩
  · rw [if_neg checked]
    exact mutexWait_effect

theorem mutexTrylock_effect (owned : m.owner = getCurrentPid ↔ m.locked = true) :
    LockEffect m (mutexTrylock m) := by
  unfold mutexTrylock
  by_cases recursive : m.type = .recursive ∧ m.owner = getCurrentPid
  · rw [if_pos recursive]
    exact .reentered recursive.1 (owned.mp recursive.2)
  rw [if_neg recursive]
  by_cases taken : m.locked = true
  · rw [if_pos taken]
    exact .kept taken (by decide) ⟨rfl, rfl, rfl, rfl⟩
  · rw [if_neg taken]
    exact .acquired (by simpa using taken)

/-- An unlock of a taken mutex succeeds, whoever calls. -/
theorem mutexUnlock_taken (owner : m.owner = getCurrentPid) : (mutexUnlock m).1 = .ok () := by
  unfold mutexUnlock
  rw [if_neg (not_not.mpr owner)]
  split <;> rfl

end

/-! ## The invariant of well-behaved runs -/

/-- A free mutex has no holder; a taken one has exactly one, whose count is what the
mutex can record of it. -/
inductive MutexAccounted : MutexState → Prop
  | free {m : Mutex} (locked : m.locked = false) (owner : m.owner = 0) :
      MutexAccounted ⟨m, fun _ => 0⟩
  | taken {m : Mutex} (p n : ℕ) (locked : m.locked = true)
      (owner : m.owner = getCurrentPid) (held : 0 < n) (fits : n < 2 ^ 32)
      (depth : m.type = .recursive → m.recursion = n)
      (single : m.type ≠ .recursive → n = 1) :
      MutexAccounted ⟨m, update (fun _ => 0) p n⟩

namespace MutexAccounted

variable {s : MutexState}

theorem start (type : MutexType) : MutexAccounted (mutexStart type) :=
  .free rfl rfl

section

variable (inv : MutexAccounted s)
include inv

theorem owned : s.mutex.owner = getCurrentPid ↔ s.mutex.locked = true := by
  cases inv with
  | free locked owner => simp [locked, owner, getCurrentPid]
  | taken p n locked owner => simp [locked, owner]

theorem exclusive : s.Exclusive := by
  intro p q first second
  cases inv with
  | free => exact absurd first (lt_irrefl 0)
  | taken holder n =>
    have only : ∀ r, 0 < update (fun _ => 0) holder n r → r = holder := by
      intro r positive
      by_contra other
      rw [update_of_ne other] at positive
      exact absurd positive (lt_irrefl 0)
    rw [only p first, only q second]

/-- A taken mutex has a holder, and nobody else holds anything. -/
theorem holder (taken : s.mutex.locked = true) : ∃ p, 0 < s.holds p := by
  cases inv with
  | free locked => exact absurd (locked.symm.trans taken) (by decide)
  | taken p n _ _ held => exact ⟨p, by simpa using held⟩

theorem free_of_unlocked (unlocked : s.mutex.locked = false) :
    s.mutex.owner = 0 ∧ s.holds = fun _ => 0 := by
  cases inv with
  | free _ owner => exact ⟨owner, rfl⟩
  | taken p n locked => exact absurd (unlocked.symm.trans locked) (by decide)

variable {p : ℕ} {call : MutexCall}

/-- Every look keeps the account, if a taken recursive mutex is looked at by its
holder. -/
theorem afterLock {result : LockPass × Mutex} (effect : LockEffect s.mutex result)
    (holder : s.mutex.type = .recursive → s.mutex.locked = true → result.1 = .granted →
      0 < s.holds p ∧ s.holds p + 1 < 2 ^ 32) :
    MutexAccounted (s.afterLock p result) := by
  cases effect with
  | acquired free =>
    obtain ⟨_, none_held⟩ := inv.free_of_unlocked free
    have counted : s.afterLock p (.granted, s.mutex.acquire) =
        ⟨s.mutex.acquire, update (fun _ => 0) p 1⟩ := by
      simp [MutexState.afterLock, none_held]
    rw [counted]
    exact .taken p 1 rfl rfl one_pos (by decide) (fun _ => rfl) (fun _ => rfl)
  | reentered recursive taken =>
    obtain ⟨holds, shallow⟩ := holder recursive taken rfl
    cases inv with
    | free => exact absurd holds (lt_irrefl 0)
    | @taken m q n locked owner held fits depth single =>
      have same : p = q := by
        by_contra other
        simp [update_of_ne other] at holds
      subst same
      have count : n + 1 < 2 ^ 32 := by simpa using shallow
      have deeper : u32 (m.recursion + 1) = n + 1 := by
        rw [depth recursive, u32_of_lt count]
      have counted : MutexState.afterLock ⟨m, update (fun _ => 0) p n⟩ p
          (.granted, m.reenter) = ⟨m.reenter, update (fun _ => 0) p (n + 1)⟩ := by
        simp [MutexState.afterLock]
      rw [counted]
      exact .taken p (n + 1) locked owner (Nat.succ_pos n) count (fun _ => deeper)
        (fun normal => absurd recursive normal)
  | @kept pass m' taken no same =>
    cases inv with
    | free locked => exact absurd (locked.symm.trans taken) (by decide)
    | taken q n locked owner held fits depth single =>
      rw [MutexState.afterLock, if_neg no]
      exact .taken q n (same.locked.trans locked) (same.owner.trans owner) held fits
        (fun recursive => same.recursion.trans (depth (same.type.symm.trans recursive)))
        (fun other => single (same.type ▸ other))

/-- The holder's unlock gives back one lock, the last one frees the mutex; an unlock of
a free mutex is refused. -/
theorem afterUnlock (holder : s.mutex.locked = true → 0 < s.holds p) :
    MutexAccounted (s.afterUnlock p (mutexUnlock s.mutex)) := by
  cases inv with
  | @free m locked owner =>
    have refused : mutexUnlock m = (.error eperm, m) :=
      if_pos (by rw [owner]; decide)
    rw [refused]
    exact .free locked owner
  | @taken m q n locked owner held fits depth single =>
    have same : p = q := by
      by_contra other
      simpa [update_of_ne other] using holder locked
    subst same
    unfold mutexUnlock
    rw [if_neg (not_not.mpr owner)]
    by_cases nested : m.type = .recursive ∧ 1 < m.recursion
    · rw [if_pos nested]
      have count := depth nested.1
      simp only [MutexState.afterUnlock, update_self, update_idem]
      refine .taken p (n - 1) locked owner (by omega) (by omega) ?_ ?_
      · intro _
        show m.recursion - 1 = n - 1
        rw [count]
      · exact fun other => absurd nested.1 other
    · rw [if_neg nested]
      have last : n = 1 := by
        by_cases recursive : m.type = .recursive
        · have count := depth recursive
          have bound : ¬1 < m.recursion := fun deep => nested ⟨recursive, deep⟩
          omega
        · exact single recursive
      have released : update (update (fun _ => 0) p n) p (n - 1) = fun _ : ℕ => 0 := by
        rw [update_idem, last]
        exact update_eq_self p _
      simp only [MutexState.afterUnlock, update_self, released]
      exact .free rfl rfl

/-- Calls by holders keep the account. -/
theorem step (good : ByHolder s call)
    (shallow : Shallow s call) : MutexAccounted (mutexStep s call) := by
  cases call with
  | lock p =>
    exact inv.afterLock (mutexLock_effect inv.owned) fun recursive taken _ =>
      ⟨good recursive taken, shallow⟩
  | trylock p =>
    exact inv.afterLock (mutexTrylock_effect inv.owned) fun recursive taken _ =>
      ⟨good recursive taken, shallow⟩
  | wait p =>
    refine inv.afterLock mutexWait_effect fun _ taken granted => ?_
    simp [mutexWait, taken] at granted
  | unlock p => exact inv.afterUnlock good

/-- And they are as wanted. -/
theorem keepsExclusion (good : ByHolder s call)
    (shallow : Shallow s call) : KeepsExclusion s call := by
  refine ⟨(inv.step good shallow).exclusive, ?_⟩
  rintro p rfl holds_none
  have unlocked : s.mutex.locked = false := by
    by_contra taken
    have holds : 0 < s.holds p := good (by simpa using taken)
    omega
  exact ⟨eperm, if_pos (by rw [(inv.free_of_unlocked unlocked).1]; decide)⟩

/-- A stranger that enters a taken recursive mutex becomes a second holder. -/
theorem not_exclusive_of_stranger (taken : s.mutex.locked = true) (stranger : s.holds p = 0) :
    ¬(s.afterLock p (.granted, s.mutex.reenter)).Exclusive := by
  intro exclusive
  obtain ⟨q, held⟩ := inv.holder taken
  have other : q ≠ p := by rintro rfl; omega
  refine other (exclusive q p ?_ ?_)
  · simpa [MutexState.afterLock, update_of_ne other] using held
  · simp [MutexState.afterLock]

/-- Conversely what is wanted of a call forces it to be made by a holder. -/
theorem byHolder (wanted : KeepsExclusion s call) : ByHolder s call := by
  -- both lock calls are granted to a stranger on a taken recursive mutex
  have entering : ∀ p, s.mutex.type = .recursive → s.mutex.locked = true →
      (s.afterLock p (.granted, s.mutex.reenter)).Exclusive → 0 < s.holds p := by
    intro p recursive taken exclusive
    by_contra stranger
    exact inv.not_exclusive_of_stranger taken (by omega) exclusive
  cases call with
  | lock p =>
    intro recursive taken
    have granted : mutexLock s.mutex = _ := if_pos ⟨recursive, inv.owned.mpr taken⟩
    exact entering p recursive taken (granted ▸ wanted.1)
  | trylock p =>
    intro recursive taken
    have granted : mutexTrylock s.mutex = _ := if_pos ⟨recursive, inv.owned.mpr taken⟩
    exact entering p recursive taken (granted ▸ wanted.1)
  | wait p => trivial
  | unlock p =>
    intro taken
    by_contra stranger
    obtain ⟨error, refused⟩ := wanted.2 p rfl (by omega)
    have served := mutexUnlock_taken (inv.owned.mpr taken)
    rw [refused] at served
    exact absurd served (by simp)

end

end MutexAccounted

/-! ## Exclusion -/

/-- **Mutex exclusion.**  For every type of mutex and every interleaving, exclusion
holds at every call if each taken recursive mutex is entered and each taken mutex
unlocked by its holder, and no process nests 2³² locks; and among the runs without
such nesting it holds at every call only then. -/
theorem mutex_exclusive_iff_byHolder (type : MutexType) (calls : List MutexCall) :
    (Allowed (fun s c => some (mutexStep s c)) (fun s c => ByHolder s c ∧ Shallow s c)
        (mutexStart type) calls →
      Allowed (fun s c => some (mutexStep s c)) KeepsExclusion (mutexStart type) calls) ∧
    (Allowed (fun s c => some (mutexStep s c)) Shallow (mutexStart type) calls →
      Allowed (fun s c => some (mutexStep s c)) KeepsExclusion (mutexStart type) calls →
      Allowed (fun s c => some (mutexStep s c)) ByHolder (mutexStart type) calls) := by
  constructor
  · refine allowed_imp MutexAccounted ?_ ?_ calls _ (.start type)
    · exact fun s call inv good => inv.keepsExclusion good.1 good.2
    · intro s call s' inv good stepped
      exact Option.some.inj stepped ▸ inv.step good.1 good.2
  · intro shallow wanted
    refine allowed_imp MutexAccounted ?_ ?_ calls _ (.start type)
      (allowed_and.mpr ⟨shallow, wanted⟩)
    · exact fun s call inv both => inv.byHolder both.2
    · intro s call s' inv both stepped
      exact Option.some.inj stepped ▸ inv.step (inv.byHolder both.2) both.1

/-- The holder of a recursive mutex enters it twice, leaves it twice, and another process
takes it then. -/
theorem mutex_exclusive_recursive :
    Allowed (fun s c => some (mutexStep s c)) KeepsExclusion (mutexStart .recursive)
      [.lock 1, .trylock 1, .unlock 1, .unlock 1, .lock 2] := by
  refine (mutex_exclusive_iff_byHolder .recursive _).1 ?_
  simp only [allowed_cons_total, allowed_nil, and_true]
  decide

/-- Process 1 locks a normal mutex, process 2 unlocks it and is granted it: both hold
it. -/
theorem mutex_stolen :
    ¬Allowed (fun s c => some (mutexStep s c)) KeepsExclusion (mutexStart .normal)
      [.lock 1, .unlock 2, .lock 2] := by
  simp only [allowed_cons_total]
  rintro ⟨_, _, ⟨exclusive, _⟩, _⟩
  exact absurd (exclusive 1 2 (by decide) (by decide)) (by decide)

end EduOS
