import Mathlib

/-!
# Strings

`lib/string.c`, as far as names of files are concerned.  A C string is the list of its
characters up to the terminating zero.
-/

namespace EduOS

open List

/-- The C string at the start of a buffer. -/
def cString (bytes : List (BitVec 8)) : List (BitVec 8) := bytes.takeWhile (· ≠ 0)

def islower (c : BitVec 8) : Bool := 0x61 ≤ c && c ≤ 0x7A

def isupper (c : BitVec 8) : Bool := 0x41 ≤ c && c ≤ 0x5A

def isalpha (c : BitVec 8) : Bool := islower c || isupper c

def isdigit (c : BitVec 8) : Bool := 0x30 ≤ c && c ≤ 0x39

def isalnum (c : BitVec 8) : Bool := isalpha c || isdigit c

def toupper (c : BitVec 8) : BitVec 8 := if islower c then c - 32 else c

/-- `strcasecmp`; characters are signed. -/
def strcasecmp : List (BitVec 8) → List (BitVec 8) → ℤ
  | [], [] => 0
  | a :: _, [] => a.toInt
  | [], b :: _ => -b.toInt
  | a :: s, b :: t =>
    if toupper a ≠ toupper b then (toupper a).toInt - (toupper b).toInt else strcasecmp s t

/-- `strtok` with one delimiter: the token and what the next call starts from. -/
def strtok (delim : BitVec 8) (s : List (BitVec 8)) : Option (List (BitVec 8) × List (BitVec 8)) :=
  let s := s.dropWhile (· = delim)
  if s = [] then none
  else some (s.takeWhile (· ≠ delim), (s.dropWhile (· ≠ delim)).tail)

/-- What comes before and after the last `c` in a string, as `strrchr` finds it. -/
def strrchr (c : BitVec 8) (s : List (BitVec 8)) : Option (List (BitVec 8) × List (BitVec 8)) :=
  if c ∈ s then
    let after := (s.reverse.takeWhile (· ≠ c)).reverse
    some (s.take (s.length - after.length - 1), after)
  else none

/-! ## Comparison -/

theorem toupper_toupper (c : BitVec 8) : toupper (toupper c) = toupper c := by
  revert c
  decide +kernel

theorem isalnum_toupper (c : BitVec 8) (letter : isalnum c = true) :
    isalnum (toupper c) = true := by
  revert c
  decide +kernel

theorem isalnum_ne (c : BitVec 8) (letter : isalnum c = true) :
    c ≠ 0 ∧ c ≠ 0x20 ∧ c ≠ 0x2E ∧ c ≠ 0x2F := by
  revert c
  decide +kernel

theorem toInt_ne_zero {c : BitVec 8} (nonzero : c ≠ 0) : c.toInt ≠ 0 :=
  fun zero => nonzero (BitVec.eq_of_toInt_eq zero)

/-- Strings compare as equal if they are so in upper case. -/
theorem strcasecmp_eq_zero {s t : List (BitVec 8)} (s_ends : 0 ∉ s) (t_ends : 0 ∉ t) :
    strcasecmp s t = 0 ↔ s.map toupper = t.map toupper := by
  induction s generalizing t with
  | nil =>
    cases t with
    | nil => simp [strcasecmp]
    | cons b t =>
      have nonzero : b.toInt ≠ 0 := toInt_ne_zero fun zero => t_ends (by simp [zero])
      simpa [strcasecmp] using nonzero
  | cons a s ih =>
    cases t with
    | nil =>
      have nonzero : a.toInt ≠ 0 := toInt_ne_zero fun zero => s_ends (by simp [zero])
      simpa [strcasecmp] using nonzero
    | cons b t =>
      rw [strcasecmp, map_cons, map_cons, List.cons.injEq]
      by_cases differ : toupper a ≠ toupper b
      · rw [if_pos differ, sub_eq_zero, BitVec.toInt_inj]
        exact iff_of_false differ fun both => differ both.1
      · rw [if_neg differ, ih (fun mem => s_ends (mem_cons_of_mem _ mem))
          fun mem => t_ends (mem_cons_of_mem _ mem)]
        rw [and_iff_right (not_not.mp differ)]

/-! ## Tokens -/

section

variable {delim c : BitVec 8} {s t : List (BitVec 8)}

/-- A string without delimiters is one token. -/
theorem strtok_of_notMem (nonempty : s ≠ []) (free : delim ∉ s) :
    strtok delim s = some (s, []) := by
  have keep : s.dropWhile (· = delim) = s := by
    cases s with
    | nil => rfl
    | cons a s =>
      simpa using fun same : a = delim => free (by simp [same])
  have all : ∀ a ∈ s, decide (a ≠ delim) = true := fun a mem =>
    decide_eq_true fun same => free (same ▸ mem)
  rw [strtok, keep, if_neg nonempty, takeWhile_eq_self_iff.mpr all, dropWhile_eq_nil_iff.mpr all]
  rfl

theorem strrchr_append (free : c ∉ t) : strrchr c (s ++ c :: t) = some (s, t) := by
  have after : ((s ++ c :: t).reverse.takeWhile (· ≠ c)).reverse = t := by
    have all : ∀ a ∈ t.reverse, decide (a ≠ c) = true := fun a mem =>
      decide_eq_true fun same => free (same ▸ mem_reverse.mp mem)
    rw [reverse_append, reverse_cons, append_assoc, takeWhile_append_of_pos all]
    simp
  have before : (s ++ c :: t).length - t.length - 1 = s.length := by
    rw [length_append, length_cons]
    omega
  rw [strrchr, if_pos (by simp)]
  dsimp only
  rw [after, before, take_left]

end

end EduOS
