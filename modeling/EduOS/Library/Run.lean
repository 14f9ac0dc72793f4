import Mathlib

/-!
# Loops and runs

C loops and call sequences, as total functions.

* `loop` — an unbounded `while`: the body either continues with a new state
  (`Sum.inl`), leaves with a result (`Sum.inr`), or faults (`none`).  The loop
  is cut after a given number of passes, and a cut loop is `none` as well, so
  `loop body n s = some r` says that the code really leaves the loop with `r`.
* `scan` — a bounded `for (i = first; i < first + count; i++)` whose body may
  return early.
* `exec` — a finite sequence of calls, each of which may fail to return.

Every `while` is discharged by one rule (`loop_ranked`): an invariant and a rank
that every continuing pass decreases.  Sequences of calls are discharged by
`exec_total`: what one call keeps, every sequence keeps.
-/

namespace EduOS

universe u v w

variable {σ : Type u} {ρ : Type v} {α : Type w}

/-! ## Loops -/

/-- A `while` loop cut after `n` passes. -/
def loop (body : σ → Option (σ ⊕ ρ)) : ℕ → σ → Option ρ
  | 0, _ => none
  | n + 1, s =>
    match body s with
    | none => none
    | some (Sum.inl s') => loop body n s'
    | some (Sum.inr r) => some r

theorem loop_succ (body : σ → Option (σ ⊕ ρ)) (n : ℕ) (s : σ) :
    loop body (n + 1) s =
      match body s with
      | none => none
      | some (Sum.inl s') => loop body n s'
      | some (Sum.inr r) => some r := rfl

variable {body : σ → Option (σ ⊕ ρ)} {s : σ} {step : σ → α → Option σ} {legal P Q : σ → α → Prop}
    {calls : List α}

theorem loop_of_continue {s' : σ} (n : ℕ) (pass : body s = some (Sum.inl s')) :
    loop body (n + 1) s = loop body n s' := by
  rw [loop_succ, pass]

variable {body' : σ → Option (σ ⊕ ρ)} {rest : List α}

theorem loop_of_leave {r : ρ} (n : ℕ) (pass : body s = some (Sum.inr r)) :
    loop body (n + 1) s = some r := by
  rw [loop_succ, pass]

/-- **The total-correctness rule**, with a ranked invariant: `Inv k s` says that
`s` is a state of the loop from which at most `k` further passes continue.  If
every pass either leaves with a result satisfying `Post`, or continues at a
smaller rank, then the loop leaves with a result satisfying `Post` as soon as
it is given more passes than the rank. -/
theorem loop_ranked (body : σ → Option (σ ⊕ ρ)) (Inv : ℕ → σ → Prop) (Post : ρ → Prop)
    (pass : ∀ k s, Inv k s → (∃ s' k', body s = some (Sum.inl s') ∧ k' < k ∧ Inv k' s') ∨
        ∃ r, body s = some (Sum.inr r) ∧ Post r) :
    ∀ (n k : ℕ) (s : σ), Inv k s → k < n → ∃ r, loop body n s = some r ∧ Post r := by
  intro n
  induction n with
  | zero => intro k s _ enough; omega
  | succ n ih =>
    intro k s inv enough
    rcases pass k s inv with ⟨s', k', body_eq, smaller, inv'⟩ | ⟨r, body_eq, post⟩
    · rw [loop_of_continue n body_eq]
      exact ih k' s' inv' (by omega)
    · exact ⟨r, loop_of_leave n body_eq, post⟩

/-- The rule for a variant that is a function of the state. -/
theorem loop_total (body : σ → Option (σ ⊕ ρ)) (Inv : σ → Prop) (Post : ρ → Prop) (variant : σ → ℕ)
    (pass : ∀ s, Inv s → (∃ s', body s = some (Sum.inl s') ∧ Inv s' ∧ variant s' < variant s) ∨
        ∃ r, body s = some (Sum.inr r) ∧ Post r)
    (n : ℕ) (s : σ) (inv : Inv s) (enough : variant s < n) :
    ∃ r, loop body n s = some r ∧ Post r := by
  refine loop_ranked body (fun k s => Inv s ∧ variant s = k) Post ?_ n _ s ⟨inv, rfl⟩ enough
  rintro k s ⟨inv, rfl⟩
  rcases pass s inv with ⟨s', body_eq, inv', smaller⟩ | leave
  · exact Or.inl ⟨s', _, body_eq, smaller, inv', rfl⟩
  · exact Or.inr leave

/-- A loop with a result has left, or gone on and left later. -/
theorem loop_eq_some {n : ℕ} {r : ρ} (run : loop body (n + 1) s = some r) :
    body s = some (Sum.inr r) ∨ ∃ s', body s = some (Sum.inl s') ∧ loop body n s' = some r := by
  rw [loop_succ] at run
  cases pass : body s with
  | none => simp [pass] at run
  | some next => cases next <;> simpa [pass] using run

/-- The partial-correctness rule: what every pass keeps and every way out gives. -/
theorem loop_post (Inv : σ → Prop) (Post : ρ → Prop)
    (go : ∀ s s', Inv s → body s = some (Sum.inl s') → Inv s')
    (leave : ∀ s r, Inv s → body s = some (Sum.inr r) → Post r) :
    ∀ (n : ℕ) (s : σ) (r : ρ), Inv s → loop body n s = some r → Post r := by
  intro n
  induction n with
  | zero => intro s r _ run; cases run
  | succ n ih =>
    intro s r inv run
    rcases loop_eq_some run with left | ⟨s', pass, later⟩
    · exact leave s r inv left
    · exact ih s' r (go s s' inv pass) later

/-- Two loops that do the same wherever the first one gets. -/
theorem loop_congr (Inv : σ → Prop) (same : ∀ s, Inv s → body s = body' s)
    (go : ∀ s s', Inv s → body s = some (Sum.inl s') → Inv s') :
    ∀ (n : ℕ) (s : σ), Inv s → loop body n s = loop body' n s := by
  intro n
  induction n with
  | zero => exact fun _ _ => rfl
  | succ n ih =>
    intro s inv
    rw [loop_succ, loop_succ, ← same s inv]
    cases pass : body s with
    | none => rfl
    | some next =>
      cases next with
      | inl s' => exact ih s' (go s s' inv pass)
      | inr r => rfl

/-- Two loops that do the same on the way to a result. -/
theorem loop_imp {r : ρ} (go : ∀ s s', body s = some (Sum.inl s') → body' s = some (Sum.inl s'))
    (leave : ∀ s, body s = some (Sum.inr r) → body' s = some (Sum.inr r)) :
    ∀ (n : ℕ) (s : σ), loop body n s = some r → loop body' n s = some r := by
  intro n
  induction n with
  | zero => intro s run; cases run
  | succ n ih =>
    intro s run
    rcases loop_eq_some run with left | ⟨s', pass, later⟩
    · exact loop_of_leave n (leave s left)
    · rw [loop_of_continue n (go s s' pass)]
      exact ih s' later

/-! ## Bounded scans -/

/-- `for (i = first; i < first + count; i++)`: the body either goes on with a
new accumulator or returns from the enclosing function. -/
def scan (body : ℕ → σ → σ ⊕ ρ) : (first count : ℕ) → σ → σ ⊕ ρ
  | _, 0, s => Sum.inl s
  | first, count + 1, s =>
    match body first s with
    | Sum.inl s' => scan body (first + 1) count s'
    | Sum.inr r => Sum.inr r

theorem scan_succ (body : ℕ → σ → σ ⊕ ρ) (first count : ℕ) (s : σ) :
    scan body first (count + 1) s =
      match body first s with
      | Sum.inl s' => scan body (first + 1) count s'
      | Sum.inr r => Sum.inr r := rfl

/-- The scan only depends on the body at the indices it visits. -/
theorem scan_congr {body body' : ℕ → σ → σ ⊕ ρ} (first count : ℕ) (s : σ)
    (same : ∀ i, first ≤ i → i < first + count → ∀ s, body i s = body' i s) :
    scan body first count s = scan body' first count s := by
  induction count generalizing first s with
  | zero => rfl
  | succ count ih =>
    rw [scan_succ, scan_succ, same first (Nat.le_refl _) (by omega) s]
    split
    · exact ih _ _ fun i low high => same i (by omega) (by omega)
    · rfl

/-- **The scan rule.**  `Inv i` holds of the accumulator before pass `i`; an
early return satisfies `Post`; falling through leaves `Inv (first + count)`. -/
theorem scan_rule (body : ℕ → σ → σ ⊕ ρ) (Inv : ℕ → σ → Prop) (Post : ρ → Prop) (bound : ℕ)
    (go : ∀ i s s', i < bound → Inv i s → body i s = Sum.inl s' → Inv (i + 1) s')
    (leave : ∀ i s r, i < bound → Inv i s → body i s = Sum.inr r → Post r) :
    ∀ (count first : ℕ) (s : σ), first + count = bound → Inv first s →
      (∃ s', scan body first count s = Sum.inl s' ∧ Inv bound s') ∨
        ∃ r, scan body first count s = Sum.inr r ∧ Post r := by
  intro count
  induction count with
  | zero =>
    intro first s reach inv
    have same : first = bound := by omega
    subst same
    exact Or.inl ⟨s, rfl, inv⟩
  | succ count ih =>
    intro first s reach inv
    cases step : body first s with
    | inl s' =>
      have inv' := go first s s' (by omega) inv step
      simpa only [scan_succ, step] using ih (first + 1) s' (by omega) inv'
    | inr r =>
      refine Or.inr ⟨r, ?_, leave first s r (by omega) inv step⟩
      simp [scan_succ, step]

section

variable (body : ℕ → Unit → Unit ⊕ ρ) (answer : ℕ → ρ) (test : ℕ → Bool) (sought : Bool)

/-- No index below `n` has the value. -/
def NoneBelow (n : ℕ) : Prop := ∀ j, j < n → test j = !sought

/-- `r` is the first index with the value, and lies below `n`. -/
def FirstBelow (n r : ℕ) : Prop := r < n ∧ test r = sought ∧ NoneBelow test sought r

/-- **The rule for searches.**  Pass `i` of the scan starts when the indices below `reach i`
have been looked at; `answer r` is returned for the index `r`. -/
theorem scan_first (reach : ℕ → ℕ) {first count bound : ℕ} (reaches : first + count = bound)
    (start : NoneBelow test sought (reach first))
    (pass : ∀ i, i < bound → NoneBelow test sought (reach i) →
      (body i () = Sum.inl () ∧ NoneBelow test sought (reach (i + 1))) ∨
        ∃ r, body i () = Sum.inr (answer r) ∧ FirstBelow test sought (reach bound) r) :
    (scan body first count () = Sum.inl () ∧ NoneBelow test sought (reach bound)) ∨
      ∃ r, scan body first count () = Sum.inr (answer r) ∧
        FirstBelow test sought (reach bound) r := by
  have search := scan_rule body (fun i _ => NoneBelow test sought (reach i))
    (fun result => ∃ r, result = answer r ∧ FirstBelow test sought (reach bound) r) bound ?go
    ?leave count first () reaches start
  case go =>
    intro i _ _ below none_yet step
    rcases pass i below none_yet with ⟨_, next⟩ | ⟨r, leave, _⟩
    · exact next
    · simp [leave] at step
  case leave =>
    intro i _ r below none_yet step
    rcases pass i below none_yet with ⟨go, _⟩ | ⟨r', leave, found⟩
    · simp [go] at step
    · exact ⟨r', (Sum.inr.inj (leave.symm.trans step)).symm, found⟩
  rcases search with ⟨_, run, none_left⟩ | ⟨_, run, r, rfl, found⟩
  · exact Or.inl ⟨run, none_left⟩
  · exact Or.inr ⟨r, run, found⟩

/-- A search that looks at one index after the other, from `base` on. -/
theorem scan_first_each (base : ℕ) {first count bound : ℕ} (reaches : first + count = bound)
    (start : NoneBelow test sought (base + first)) (pass : ∀ i, i < bound → body i () =
      if test (base + i) = sought then Sum.inr (answer (base + i)) else Sum.inl ()) :
    (scan body first count () = Sum.inl () ∧ NoneBelow test sought (base + bound)) ∨
      ∃ r, scan body first count () = Sum.inr (answer r) ∧
        FirstBelow test sought (base + bound) r := by
  refine scan_first body answer test sought (base + ·) reaches start fun i below none_yet => ?_
  rw [pass i below]
  by_cases found : test (base + i) = sought
  · exact Or.inr ⟨base + i, if_pos found, Nat.add_lt_add_left below base, found, none_yet⟩
  · refine Or.inl ⟨if_neg found, fun j lt => ?_⟩
    rcases Nat.lt_succ_iff_lt_or_eq.mp lt with earlier | rfl
    · exact none_yet j earlier
    · exact Bool.eq_not.mpr found

end

/-! ## Sequences of calls -/

/-- Run a list of calls one after another; `none` if one of them does not
return. -/
def exec (step : σ → α → Option σ) : σ → List α → Option σ
  | s, [] => some s
  | s, a :: rest => (step s a).bind fun s' => exec step s' rest

@[simp] theorem exec_nil (step : σ → α → Option σ) (s : σ) : exec step s [] = some s := rfl

theorem exec_cons (step : σ → α → Option σ) (s : σ) (a : α) (rest : List α) :
    exec step s (a :: rest) = (step s a).bind fun s' => exec step s' rest := rfl

/-- Every call of the sequence is allowed in the state it is made in. -/
def Allowed (step : σ → α → Option σ) (legal : σ → α → Prop) : σ → List α → Prop
  | _, [] => True
  | s, a :: rest =>
    legal s a ∧ ∀ s', step s a = some s' → Allowed step legal s' rest

@[simp] theorem allowed_nil (step : σ → α → Option σ) (legal : σ → α → Prop)
    (s : σ) : Allowed step legal s [] := trivial

theorem allowed_cons {a : α} :
    Allowed step legal s (a :: rest) ↔
      legal s a ∧ ∀ s', step s a = some s' → Allowed step legal s' rest :=
  Iff.rfl

/-- The same where every call returns. -/
theorem allowed_cons_total {step : σ → α → σ} {a : α} :
    Allowed (fun s a => some (step s a)) legal s (a :: rest) ↔
      legal s a ∧ Allowed (fun s a => some (step s a)) legal (step s a) rest := by
  exact and_congr_right fun _ => ⟨fun later => later _ rfl, fun later _ same =>
    Option.some.inj same ▸ later⟩

instance Allowed.decidable {step : σ → α → Option σ} {legal : σ → α → Prop}
    [∀ s a, Decidable (legal s a)] :
    (s : σ) → (calls : List α) → Decidable (Allowed step legal s calls)
  | _, [] => isTrue trivial
  | s, a :: rest =>
    match stepped : step s a with
    | none =>
      decidable_of_iff (legal s a)
        ⟨fun now => ⟨now, fun _ some_eq => by simp [stepped] at some_eq⟩, And.left⟩
    | some s' =>
      haveI : Decidable (Allowed step legal s' rest) := Allowed.decidable s' rest
      decidable_of_iff (legal s a ∧ Allowed step legal s' rest) <|
        and_congr_right fun _ => ⟨fun later t some_eq => by
            rw [stepped] at some_eq
            exact Option.some.inj some_eq ▸ later,
          fun later => later s' stepped⟩

/-- Two conditions that agree on legal calls allow the same legal runs. -/
theorem allowed_congr (same : ∀ s a, legal s a → (P s a ↔ Q s a)) :
    ∀ {calls : List α} {s : σ}, Allowed step legal s calls →
      (Allowed step P s calls ↔ Allowed step Q s calls) := by
  intro calls
  induction calls with
  | nil => intro s _; exact Iff.rfl
  | cons a rest ih =>
    intro s allowed
    rw [allowed_cons, allowed_cons, same s a allowed.1]
    exact and_congr_right fun _ => forall₂_congr fun s' stepped => ih (allowed.2 s' stepped)

/-- What a condition implies in the states of an invariant it keeps, it implies for
whole runs. -/
theorem allowed_imp (Inv : σ → Prop) (implies : ∀ s a, Inv s → P s a → Q s a)
    (keeps : ∀ s a s', Inv s → P s a → step s a = some s' → Inv s') :
    ∀ (calls : List α) (s : σ), Inv s → Allowed step P s calls → Allowed step Q s calls := by
  intro calls
  induction calls with
  | nil => intro s _ _; trivial
  | cons a rest ih =>
    intro s inv allowed
    refine ⟨implies s a inv allowed.1, fun s' stepped => ?_⟩
    exact ih s' (keeps s a s' inv allowed.1 stepped) (allowed.2 s' stepped)

theorem allowed_and :
    Allowed step (fun s a => P s a ∧ Q s a) s calls ↔
      Allowed step P s calls ∧ Allowed step Q s calls := by
  constructor
  · intro both
    exact ⟨allowed_imp (fun _ => True) (fun _ _ _ h => h.1) (fun _ _ _ _ _ _ => trivial) _ _
        trivial both,
      allowed_imp (fun _ => True) (fun _ _ _ h => h.2) (fun _ _ _ _ _ _ => trivial) _ _
        trivial both⟩
  · rintro ⟨first, second⟩
    induction calls generalizing s with
    | nil => trivial
    | cons a rest ih =>
      exact ⟨⟨first.1, second.1⟩, fun s' stepped =>
        ih (first.2 s' stepped) (second.2 s' stepped)⟩

/-- Without restrictions every sequence is allowed. -/
theorem allowed_of_forall (always : ∀ s a, legal s a) (calls : List α) (s : σ) :
    Allowed step legal s calls := by
  induction calls generalizing s with
  | nil => trivial
  | cons a rest ih => exact ⟨always s a, fun s' _ => ih s'⟩

/-- A restriction that says nothing about the state. -/
theorem allowed_of_forall_mem {legal : α → Prop} (each : ∀ a ∈ calls, legal a) (s : σ) :
    Allowed step (fun _ a => legal a) s calls := by
  induction calls generalizing s with
  | nil => trivial
  | cons a rest ih =>
    obtain ⟨now, later⟩ := List.forall_mem_cons.mp each
    exact ⟨now, fun s' _ => ih later s'⟩

/-- In a run that returns, every call does. -/
theorem allowed_of_exec :
    ∀ {calls : List α} {s s' : σ}, exec step s calls = some s' →
      Allowed step (fun s a => ∃ s', step s a = some s') s calls := by
  intro calls
  induction calls with
  | nil => intro s s' _; trivial
  | cons a rest ih =>
    intro s s' ran
    obtain ⟨s₁, stepped, later⟩ := Option.bind_eq_some_iff.mp ran
    refine ⟨⟨s₁, stepped⟩, fun t stepped' => ?_⟩
    obtain rfl := Option.mem_unique stepped stepped'
    exact ih later

/-- **What one call simulates, every run simulates.**  If an allowed call made in a state
related to `t` returns in a state related to `spec t a`, then every allowed sequence of calls
returns, in a state related to what `spec` makes of `t`. -/
theorem exec_simulates {τ : Type*} (spec : τ → α → τ) (Rel : σ → τ → Prop)
    (keeps : ∀ s t a, Rel s t → legal s a → ∃ s', step s a = some s' ∧ Rel s' (spec t a)) :
    ∀ (calls : List α) (s : σ) (t : τ), Rel s t → Allowed step legal s calls →
      ∃ s', exec step s calls = some s' ∧ Rel s' (calls.foldl spec t) := by
  intro calls
  induction calls with
  | nil => intro s t rel _; exact ⟨s, rfl, rel⟩
  | cons a rest ih =>
    intro s t rel allowed
    obtain ⟨s', step_eq, rel'⟩ := keeps s t a rel allowed.1
    obtain ⟨s'', rest_eq, rel''⟩ := ih s' _ rel' (allowed.2 s' step_eq)
    exact ⟨s'', by rw [exec_cons, step_eq]; exact rest_eq, rel''⟩

/-- **What one call keeps, every run keeps.**  If an allowed call made in a
state satisfying `Inv` returns in a state satisfying `Inv`, then every allowed
sequence of calls returns, in a state satisfying `Inv`. -/
theorem exec_total (Inv : σ → Prop)
    (keeps : ∀ s a, Inv s → legal s a → ∃ s', step s a = some s' ∧ Inv s') :
    ∀ (calls : List α) (s : σ), Inv s → Allowed step legal s calls →
      ∃ s', exec step s calls = some s' ∧ Inv s' := fun calls s inv allowed =>
  exec_simulates (fun t _ => t) (fun s (_ : Unit) => Inv s) (fun s _ a => keeps s a) calls s () inv
    allowed

/-- The same for calls that may not return: what one call keeps if it returns, a run
keeps as far as it gets. -/
theorem exec_keeps (Inv : σ → Prop)
    (keeps : ∀ s a s', Inv s → legal s a → step s a = some s' → Inv s') :
    ∀ (calls : List α) (s s' : σ), Inv s → Allowed step legal s calls →
      exec step s calls = some s' → Inv s' := by
  intro calls
  induction calls with
  | nil =>
    intro s s' inv _ ran
    cases ran
    exact inv
  | cons a rest ih =>
    intro s s' inv allowed ran
    obtain ⟨s₁, stepped, later⟩ := Option.bind_eq_some_iff.mp ran
    exact ih s₁ s' (keeps s a s₁ inv allowed.1 stepped) (allowed.2 s₁ stepped) later

/-- Every call of the sequence returns, and `P` holds in every state the sequence
goes through, the first and the last one included. -/
def Throughout (step : σ → α → Option σ) (P : σ → Prop) : σ → List α → Prop
  | s, [] => P s
  | s, a :: rest => P s ∧ ∃ s', step s a = some s' ∧ Throughout step P s' rest

instance Throughout.decidable {step : σ → α → Option σ} {P : σ → Prop} [DecidablePred P] :
    (s : σ) → (calls : List α) → Decidable (Throughout step P s calls)
  | s, [] => inferInstanceAs (Decidable (P s))
  | s, a :: rest =>
    match stepped : step s a with
    | none => isFalse fun ⟨_, s', step_eq, _⟩ => by simp [stepped] at step_eq
    | some s' =>
      haveI : Decidable (Throughout step P s' rest) := Throughout.decidable s' rest
      decidable_of_iff (P s ∧ Throughout step P s' rest) <|
        and_congr_right fun _ => ⟨fun later => ⟨s', stepped, later⟩,
          fun ⟨t, step_eq, later⟩ => by
            rw [stepped] at step_eq
            exact Option.some.inj step_eq ▸ later⟩

/-- A property that holds throughout a run holds after every prefix of it. -/
theorem throughout_iff_append {P : σ → Prop} :
    Throughout step P s calls ↔
      ∀ front back, calls = front ++ back → ∃ s', exec step s front = some s' ∧ P s' := by
  induction calls generalizing s with
  | nil =>
    constructor
    · intro holds front back split
      obtain ⟨rfl, rfl⟩ := List.append_eq_nil_iff.mp split.symm
      exact ⟨s, rfl, holds⟩
    · intro all
      obtain ⟨s', reached, holds⟩ := all [] [] rfl
      cases reached
      exact holds
  | cons a rest ih =>
    constructor
    · rintro ⟨holds, s', step_eq, later⟩ front back split
      cases front with
      | nil => exact ⟨s, rfl, holds⟩
      | cons b front =>
        obtain ⟨rfl, rest_eq⟩ := List.cons.inj split
        obtain ⟨s'', reached, holds'⟩ := ih.mp later front back rest_eq
        exact ⟨s'', by rw [exec_cons, step_eq]; exact reached, holds'⟩
    · intro all
      obtain ⟨s₀, reached₀, holds⟩ := all [] (a :: rest) rfl
      cases reached₀
      obtain ⟨s₁, reached₁, _⟩ := all [a] rest rfl
      have step_eq : step s a = some s₁ := by
        obtain ⟨t, step_eq, same⟩ := Option.bind_eq_some_iff.mp reached₁
        cases same
        exact step_eq
      refine ⟨holds, s₁, step_eq, ih.mpr ?_⟩
      intro front back split
      obtain ⟨s', reached, holds'⟩ := all (a :: front) back (by rw [split, List.cons_append])
      rw [exec_cons, step_eq] at reached
      exact ⟨s', reached, holds'⟩

theorem Throughout.imp {P Q : σ → Prop} (holds : Throughout step P s calls)
    (implies : ∀ s, P s → Q s) : Throughout step Q s calls := by
  refine throughout_iff_append.mpr fun front back split => ?_
  obtain ⟨s', reached, holds'⟩ := throughout_iff_append.mp holds front back split
  exact ⟨s', reached, implies s' holds'⟩

/-- **The exact condition of a run property.**  If good calls keep the invariant,
and a call that is not good leaves a state without `P`, then `P` holds throughout
a run from the invariant exactly if all its calls are good. -/
theorem throughout_iff_allowed {good : σ → α → Prop} {P : σ → Prop} (Inv : σ → Prop)
    (holds : ∀ s, Inv s → P s)
    (keeps : ∀ s a, Inv s → legal s a → good s a → ∃ s', step s a = some s' ∧ Inv s')
    (breaks : ∀ s a, Inv s → legal s a → ¬good s a → ∀ s', step s a = some s' → ¬P s') :
    ∀ (calls : List α) (s : σ), Inv s → Allowed step legal s calls →
      (Throughout step P s calls ↔ Allowed step good s calls) := by
  intro calls
  induction calls with
  | nil => intro s inv _; exact ⟨fun _ => trivial, fun _ => holds s inv⟩
  | cons a rest ih =>
    intro s inv allowed
    constructor
    · rintro ⟨_, s', step_eq, later⟩
      have now : good s a := by
        by_contra bad
        refine breaks s a inv allowed.1 bad s' step_eq ?_
        cases rest with
        | nil => exact later
        | cons b rest => exact later.1
      refine ⟨now, ?_⟩
      intro s'' step_eq'
      obtain rfl : s' = s'' := Option.mem_unique step_eq step_eq'
      obtain ⟨t, step_eq'', inv'⟩ := keeps s a inv allowed.1 now
      obtain rfl : s' = t := Option.mem_unique step_eq step_eq''
      exact (ih s' inv' (allowed.2 s' step_eq)).mp later
    · rintro ⟨now, later⟩
      obtain ⟨s', step_eq, inv'⟩ := keeps s a inv allowed.1 now
      exact ⟨holds s inv, s', step_eq, (ih s' inv' (allowed.2 s' step_eq)).mpr (later s' step_eq)⟩

end EduOS
