import Mathlib

/-!
# Byte strings in chained pages

A byte string is kept in pages of one size, and the pages are chained: `next` leads from a
page to the following one, and after the last one to a mark.

`Chained next ends pages` says that `pages` are such a chain.  It grows at its end
(`Chained.concat`) and does not notice edits elsewhere (`Chained.congr`).  `pagedByte` is the
byte at an offset of the string; `pagedByte_write` is what an edit inside one page does to
it.
-/

namespace EduOS

universe u

/-! ## Chains -/

section

variable {next next' : ℕ → ℕ} {ends : ℕ → Prop}

/-- Every page leads to the following one, and the last one to the mark. -/
def Chained (next : ℕ → ℕ) (ends : ℕ → Prop) : List ℕ → Prop
  | [] => True
  | [page] => ends (next page)
  | page :: following :: rest => next page = following ∧ Chained next ends (following :: rest)

theorem Chained.congr :
    ∀ {pages : List ℕ}, Chained next ends pages → (∀ page ∈ pages, next' page = next page) →
      Chained next' ends pages
  | [], _, _ => trivial
  | [page], last, same => by
    have here := same page (by simp)
    simpa only [Chained, here] using last
  | page :: following :: rest, ⟨step, more⟩, same => by
    refine ⟨(same page (by simp)).trans step, more.congr fun x mem => ?_⟩
    exact same x (List.mem_cons_of_mem _ mem)

/-- What follows the page at an index. -/
theorem Chained.next_getElem :
    ∀ {pages : List ℕ} {i : ℕ} (_ : Chained next ends pages) (below : i + 1 < pages.length),
      next pages[i] = pages[i + 1]
  | [_], _, _, below => by simp at below
  | _ :: _ :: _, 0, ⟨step, _⟩, _ => step
  | page :: following :: rest, i + 1, ⟨_, more⟩, below => by
    exact more.next_getElem (i := i) (by simpa using below)

/-- What follows the last page. -/
theorem Chained.next_last :
    ∀ {pages : List ℕ} (_ : Chained next ends pages) (below : 0 < pages.length),
      ends (next pages[pages.length - 1])
  | [_], last, _ => last
  | page :: following :: rest, ⟨_, more⟩, _ => by
    simpa using more.next_last (by simp)

/-- A page is added at the end. -/
theorem Chained.concat {new : ℕ} (closed : ends (next' new)) :
    ∀ {pages : List ℕ}, Chained next ends pages →
      (∀ i (below : i < pages.length), i + 1 < pages.length → next' pages[i] = next pages[i]) →
      (∀ below : 0 < pages.length, next' pages[pages.length - 1] = new) →
      Chained next' ends (pages ++ [new])
  | [], _, _, _ => closed
  | [page], _, _, last => ⟨last (by simp), closed⟩
  | page :: following :: rest, ⟨step, more⟩, same, last => by
    refine ⟨(same 0 (by simp) (by simp)).trans step, Chained.concat closed more ?_ ?_⟩
    · intro i below more
      exact same (i + 1) (by simpa using below) (by simpa using more)
    · intro below
      simpa using last (by simp)

end

/-! ## Bytes -/

variable {β : Type u}

/-- The byte at an offset of the string in the chain `pages`. -/
def pagedByte (page : ℕ → ℕ → β) (size : ℕ) (pages : List ℕ) (offset : ℕ) : β :=
  page (pages.getD (offset / size) 0) (offset % size)

/-- More pages at the end do not matter. -/
theorem pagedByte_append {page : ℕ → ℕ → β} {size : ℕ} {pages more : List ℕ} {offset : ℕ}
    (below : offset / size < pages.length) :
    pagedByte page size (pages ++ more) offset = pagedByte page size pages offset := by
  rw [pagedByte, pagedByte, List.getD_append _ _ _ _ below]

/-- An edit of `count` bytes inside the page of an offset. -/
theorem pagedByte_write {page page' : ℕ → ℕ → β} {size start count : ℕ} {pages : List ℕ}
    {offset : ℕ} (new : ℕ → β) (nodup : pages.Nodup) (start_lt : start / size < pages.length)
    (inside : start % size + count ≤ size) (below : offset / size < pages.length) (pos : 0 < size)
    (others : ∀ c ∈ pages, c ≠ pages[start / size] → ∀ j, j < size → page' c j = page c j)
    (here : ∀ j, j < size → page' pages[start / size] j =
      if start % size ≤ j ∧ j < start % size + count then new (j - start % size)
      else page pages[start / size] j) :
    pagedByte page' size pages offset =
      if start ≤ offset ∧ offset < start + count then new (offset - start)
      else pagedByte page size pages offset := by
  have start_eq := Nat.div_add_mod start size
  have offset_eq := Nat.div_add_mod offset size
  have offset_mod := Nat.mod_lt offset pos
  rw [pagedByte, pagedByte, List.getD_eq_getElem _ _ below]
  by_cases same : offset / size = start / size
  · have page_eq : pages[offset / size] = pages[start / size] := by congr 1
    rw [page_eq, here _ offset_mod]
    rw [same] at offset_eq
    have shift : offset % size - start % size = offset - start := by omega
    by_cases hit : start ≤ offset ∧ offset < start + count
    · rw [if_pos hit, if_pos (by omega), shift]
    · rw [if_neg hit, if_neg (by omega)]
  · have apart : pages[offset / size] ≠ pages[start / size] := by
      intro equal
      exact same ((nodup.getElem_inj_iff).mp equal)
    have miss : ¬(start ≤ offset ∧ offset < start + count) := by
      rintro ⟨low, high⟩
      -- both offsets lie in one page
      have upper : offset / size = start / size := by
        refine Nat.le_antisymm ?_ (Nat.div_le_div_right low)
        refine Nat.le_of_lt_succ ((Nat.div_lt_iff_lt_mul pos).mpr ?_)
        calc offset < start + count := high
          _ = size * (start / size) + (start % size + count) := by omega
          _ ≤ size * (start / size) + size := Nat.add_le_add_left inside _
          _ = (start / size + 1) * size := by rw [Nat.succ_mul, Nat.mul_comm]
      exact same upper
    rw [if_neg miss, others _ (List.getElem_mem below) apart _ offset_mod]

end EduOS
