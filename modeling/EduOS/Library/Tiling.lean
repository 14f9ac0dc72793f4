import Mathlib

/-!
# Tilings of an address range

A list of tiles laid one behind the other from an address on.  `total size bs` is
the length of the range they cover, `placed size a bs` the tiles with the addresses
they come to lie at.

Two tiles of a tiling are the same or lie apart (`placed_apart`), and a tile that is
in a tiling splits it into what lies below and what lies above (`mem_placed`).
-/

namespace EduOS

universe u

variable {β : Type u} (size : β → ℕ)

/-- The length of the range that the tiles cover. -/
def total (bs : List β) : ℕ := (bs.map size).sum

@[simp] theorem total_nil : total size [] = 0 := rfl

@[simp] theorem total_cons (b : β) (bs : List β) :
    total size (b :: bs) = size b + total size bs := by
  simp [total]

@[simp] theorem total_append (xs ys : List β) :
    total size (xs ++ ys) = total size xs + total size ys := by
  simp [total]

/-- The tiles with their addresses. -/
def placed : ℕ → List β → List (ℕ × β)
  | _, [] => []
  | a, b :: bs => (a, b) :: placed (a + size b) bs

@[simp] theorem placed_nil (a : ℕ) : placed size a [] = [] := rfl

@[simp] theorem placed_cons (a : ℕ) (b : β) (bs : List β) :
    placed size a (b :: bs) = (a, b) :: placed size (a + size b) bs := rfl

@[simp] theorem placed_append (a : ℕ) (xs ys : List β) :
    placed size a (xs ++ ys) = placed size a xs ++ placed size (a + total size xs) ys := by
  induction xs generalizing a with
  | nil => rfl
  | cons b xs ih => simp [ih, Nat.add_assoc]

variable {a x : ℕ} {b : β} {bs : List β}

/-- Where a tile lies: behind the tiles before it. -/
theorem mem_placed :
    (x, b) ∈ placed size a bs ↔
      ∃ front back, bs = front ++ b :: back ∧ x = a + total size front := by
  constructor
  · intro mem
    induction bs generalizing a with
    | nil => simp at mem
    | cons c bs ih =>
      rcases List.mem_cons.mp mem with here | later
      · cases here
        exact ⟨[], bs, rfl, rfl⟩
      · obtain ⟨front, back, rfl, rfl⟩ := ih later
        exact ⟨c :: front, back, rfl, by rw [total_cons, Nat.add_assoc]⟩
  · rintro ⟨front, back, rfl, rfl⟩
    simp

theorem placed_bounds (mem : (x, b) ∈ placed size a bs) :
    a ≤ x ∧ x + size b ≤ a + total size bs := by
  obtain ⟨front, back, rfl, rfl⟩ := (mem_placed size).mp mem
  simp only [total_append, total_cons]
  omega

/-- Two tiles of a tiling are the same or lie apart. -/
theorem placed_apart {y : ℕ} {c : β} (left : (x, b) ∈ placed size a bs)
    (right : (y, c) ∈ placed size a bs) :
    (x = y ∧ b = c) ∨ x + size b ≤ y ∨ y + size c ≤ x := by
  induction bs generalizing a with
  | nil => simp at left
  | cons d bs ih =>
    rcases List.mem_cons.mp left with left | left <;>
      rcases List.mem_cons.mp right with right | right
    · cases left
      cases right
      exact Or.inl ⟨rfl, rfl⟩
    · cases left
      exact Or.inr (Or.inl (placed_bounds size right).1)
    · cases right
      exact Or.inr (Or.inr (placed_bounds size left).1)
    · exact ih left right

end EduOS
