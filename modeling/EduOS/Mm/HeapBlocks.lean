import EduOS.Library.Tiling
import EduOS.Mm.Kmalloc

/-!
# The blocks of the kernel heap

What the headers in memory mean.  A heap is a list of blocks that tile the range
from `heap_start` to `heap_end`; `Headers` says that the headers at their addresses
spell out that list: sizes, flags and both links.  The list has no memory in it, so
"what does the heap look like" and "which bytes changed" stay separate questions.

The `next` of a block is the address behind it, and `NULL` when that is `heap_end`;
`linkTo` is that reading of an address as a link, and `heap_first` is the link to
`heap_start`.
-/

namespace EduOS

open List Bytes

/-- A payload is not at `NULL`. -/
theorem payload_ne_zero (x : ℕ) : x + headerSize ≠ 0 := Nat.succ_ne_zero _

/-- A block: its size with the header, and whether it is allocated. -/
structure HeapBlock where
  size : ℕ
  used : Bool
deriving DecidableEq

/-- An address as a link: `NULL` at the end of the heap. -/
def linkTo (limit a : ℕ) : ℕ := if a = limit then 0 else a

theorem linkTo_limit (limit : ℕ) : linkTo limit limit = 0 := if_pos rfl

variable {limit a prev start x next size : ℕ} {m m' : Bytes}
    {xs ys bs front back rest : List HeapBlock} {b c : HeapBlock}

theorem linkTo_of_lt (lt : a < limit) : linkTo limit a = a :=
  if_neg (Nat.ne_of_lt lt)

/-- The header at `a` describes the block `b`. -/
structure HeaderAt (m : Bytes) (limit prev a : ℕ) (b : HeapBlock) : Prop where
  magic : blockMagic m a = heapMagic
  size : blockSize m a = b.size
  allocated : blockAllocated m a = b.used
  next : blockNext m a = linkTo limit (a + b.size)
  prev : blockPrev m a = prev
  large : headerSize ≤ b.size

/-- The headers from `a` on describe the blocks of the list; `prev` is the block in
front of them. -/
def Headers (m : Bytes) (limit : ℕ) : (prev a : ℕ) → List HeapBlock → Prop
  | _, _, [] => True
  | prev, a, b :: bs => HeaderAt m limit prev a b ∧ Headers m limit a (a + b.size) bs

/-- The address of the last block, or `prev` if there is none. -/
def lastBlock : (prev a : ℕ) → List HeapBlock → ℕ
  | prev, _, [] => prev
  | _, a, b :: bs => lastBlock a (a + b.size) bs

theorem lastBlock_concat (prev a : ℕ) (bs : List HeapBlock) (b : HeapBlock) :
    lastBlock prev a (bs ++ [b]) = a + total HeapBlock.size bs := by
  induction bs generalizing prev a with
  | nil => rfl
  | cons c bs ih =>
    show lastBlock a (a + c.size) (bs ++ [b]) = _
    rw [ih, total_cons, Nat.add_assoc]

theorem headers_append :
    Headers m limit prev a (xs ++ ys) ↔
      Headers m limit prev a xs ∧
        Headers m limit (lastBlock prev a xs) (a + total HeapBlock.size xs) ys := by
  induction xs generalizing prev a with
  | nil => simp [Headers, lastBlock]
  | cons b xs ih =>
    show _ ∧ Headers m limit a (a + b.size) (xs ++ ys) ↔ (_ ∧ _) ∧ _
    rw [ih, and_assoc, total_cons, ← Nat.add_assoc]
    rfl

variable {prev' y : ℕ} {frees : List HeapBlock}

/-- A header with another predecessor. -/
theorem HeaderAt.reprev (header : HeaderAt m limit prev a b)
    (same : ∀ y, a ≤ y → y < a + 16 → m' y = m y) (linked : blockPrev m' a = prev') :
    HeaderAt m' limit prev' a b := by
  have word : ∀ offset, offset + 4 ≤ 16 → m'.load32 (a + offset) = m.load32 (a + offset) :=
    fun offset inside => load32_congr fun i lt => same _ (by omega) (by omega)
  refine ⟨?_, ?_, ?_, ?_, linked, header.large⟩
  · exact (word 0 (by omega)).trans header.magic
  · exact (word 4 (by omega)).trans header.size
  · rw [blockAllocated, word 8 (by omega)]
    exact header.allocated
  · exact (word 12 (by omega)).trans header.next

/-- A header only depends on its own bytes. -/
theorem HeaderAt.frame (header : HeaderAt m limit prev a b)
    (same : ∀ y, a ≤ y → y < a + headerSize → m' y = m y) : HeaderAt m' limit prev a b := by
  unfold headerSize at same
  refine header.reprev (fun y low high => same y low (by omega)) ?_
  exact (load32_congr fun i lt => same _ (by omega) (by omega)).trans header.prev

section

variable (headers : Headers m limit prev a bs)
include headers

/-- The headers of a list of blocks only depend on the bytes of the headers. -/
theorem Headers.frame (same : ∀ x b, (x, b) ∈ placed HeapBlock.size a bs →
      ∀ y, x ≤ y → y < x + headerSize → m' y = m y) : Headers m' limit prev a bs := by
  induction bs generalizing prev a with
  | nil => trivial
  | cons b bs ih =>
    refine ⟨headers.1.frame (same a b (mem_cons_self ..)), ih headers.2 ?_⟩
    intro x c mem
    exact same x c (mem_cons_of_mem _ mem)

theorem Headers.large : ∀ b ∈ bs, headerSize ≤ b.size := by
  induction bs generalizing prev a with
  | nil => simp
  | cons b bs ih =>
    exact forall_mem_cons.mpr ⟨headers.1.large, ih headers.2⟩

/-- Every block takes at least a header's worth of the range. -/
theorem Headers.length_le : bs.length ≤ total HeapBlock.size bs := by
  induction bs generalizing prev a with
  | nil => simp
  | cons b bs ih =>
    have large := headers.1.large
    have rest := ih headers.2
    unfold headerSize at large
    rw [length_cons, total_cons]
    omega

theorem Headers.total_pos (nonempty : bs ≠ []) : headerSize ≤ total HeapBlock.size bs := by
  cases bs with
  | nil => exact absurd rfl nonempty
  | cons b bs =>
    have large := headers.1.large
    rw [total_cons]
    omega

/-- Agreement on the whole range of the blocks is enough. -/
theorem Headers.frame_range (same : ∀ y, a ≤ y → y < a + total HeapBlock.size bs → m' y = m y) :
    Headers m' limit prev a bs := by
  refine headers.frame fun x b mem y low high => ?_
  have bounds := placed_bounds HeapBlock.size mem
  have large : headerSize ≤ b.size := by
    obtain ⟨front, back, rfl, _⟩ := (mem_placed HeapBlock.size).mp mem
    exact headers.large b (by simp)
  exact same y (by omega) (by omega)

/-- The blocks behind a change: the first of them has a new predecessor, nothing
else is touched. -/
theorem Headers.reprev (same : ∀ y, a ≤ y → y < a + 16 ∨ a + 20 ≤ y → m' y = m y)
    (linked : bs ≠ [] → blockPrev m' a = prev') : Headers m' limit prev' a bs := by
  cases bs with
  | nil => trivial
  | cons b bs =>
    obtain ⟨header, rest⟩ := headers
    have large := header.large
    unfold headerSize at large
    refine ⟨header.reprev (fun y low high => same y low (Or.inl high)) (linked (by simp)), ?_⟩
    exact rest.frame_range fun y low _ => same y (by omega) (by omega)

/-- Blocks that end before it do not see where the heap ends. -/
theorem Headers.relimit {limit' : ℕ}
    (before : a + total HeapBlock.size bs < limit) (before' : limit ≤ limit') :
    Headers m limit' prev a bs := by
  induction bs generalizing prev a with
  | nil => trivial
  | cons b bs ih =>
    rw [total_cons] at before
    obtain ⟨header, rest⟩ := headers
    refine ⟨{ header with next := ?_ }, ih rest (by omega)⟩
    rw [header.next, linkTo_of_lt (by omega), linkTo_of_lt (by omega)]

end

/-! ## Blocks in use, and free neighbours -/

/-- The block `b` lies at `x` and is in use. -/
def UsedAt (start : ℕ) (bs : List HeapBlock) (x : ℕ) (b : HeapBlock) : Prop :=
  (x, b) ∈ placed HeapBlock.size start bs ∧ b.used = true

theorem usedAt_append :
    UsedAt start (xs ++ ys) x b ↔
      UsedAt start xs x b ∨ UsedAt (start + total HeapBlock.size xs) ys x b := by
  simp only [UsedAt, placed_append, mem_append]
  tauto

theorem usedAt_cons :
    UsedAt start (c :: bs) x b ↔
      (x = start ∧ b = c ∧ c.used = true) ∨ UsedAt (start + c.size) bs x b := by
  simp only [UsedAt, placed_cons, mem_cons, Prod.mk.injEq]
  constructor
  · rintro ⟨⟨rfl, rfl⟩ | later, used⟩
    · exact Or.inl ⟨rfl, rfl, used⟩
    · exact Or.inr ⟨later, used⟩
  · rintro (⟨rfl, rfl, used⟩ | ⟨later, used⟩)
    · exact ⟨Or.inl ⟨rfl, rfl⟩, used⟩
    · exact ⟨Or.inr later, used⟩

theorem not_usedAt_of_free (free : ∀ c ∈ bs, c.used = false) : ¬UsedAt start bs x b := by
  rintro ⟨mem, used⟩
  obtain ⟨front, back, rfl, _⟩ := (mem_placed HeapBlock.size).mp mem
  simp [free b (by simp)] at used

/-- The payloads of the blocks in use are as they were. -/
def UsedKept (start : ℕ) (m m' : Bytes) (bs : List HeapBlock) : Prop :=
  ∀ x b, UsedAt start bs x b → ∀ i, headerSize ≤ i → i < b.size → m' (x + i) = m (x + i)

def HeadUsed (bs : List HeapBlock) : Prop := ∀ b ∈ bs.head?, b.used = true

def LastUsed (bs : List HeapBlock) : Prop := ∀ b ∈ bs.getLast?, b.used = true

/-- No two neighbours are both free. -/
def Coalesced (bs : List HeapBlock) : Prop := bs.IsChain fun b c => b.used = true ∨ c.used = true

/-- A free block is coalesced with its surroundings if both neighbours are in use. -/
theorem coalesced_append_cons :
    Coalesced (xs ++ b :: ys) ↔
      Coalesced xs ∧ Coalesced ys ∧ (b.used = false → LastUsed xs ∧ HeadUsed ys) := by
  unfold Coalesced LastUsed HeadUsed
  rw [isChain_append, isChain_cons]
  cases used : b.used with
  | false =>
    simp [used]
    tauto
  | true => simp [used]

/-- The free blocks at the front of a coalesced list: at most one. -/
theorem Coalesced.split_head (coalesced : Coalesced bs) :
    ∃ frees rest, bs = frees ++ rest ∧ (∀ c ∈ frees, c.used = false) ∧ HeadUsed rest ∧
      Coalesced rest ∧ frees.length ≤ 1 := by
  cases bs with
  | nil => exact ⟨[], [], rfl, by simp, by simp [HeadUsed], coalesced, by simp⟩
  | cons c bs =>
    cases used : c.used with
    | true => exact ⟨[], c :: bs, rfl, by simp, by simp [HeadUsed, used], coalesced, by simp⟩
    | false =>
      have whole : Coalesced ([] ++ c :: bs) := coalesced
      have parts := coalesced_append_cons.mp whole
      exact ⟨[c], bs, rfl, by simp [used], (parts.2.2 used).2, parts.2.1, by simp⟩

/-! ## Walking along the blocks -/

/-- The search of `kmalloc` finds a block that is free and large enough, or `NULL`. -/
theorem search_cases (size : ℕ) :
    ∀ (bs : List HeapBlock) (prev a n : ℕ), Headers m limit prev a bs →
      a + total HeapBlock.size bs = limit → 0 < a → bs.length < n →
      loop (searchPass m size) n (linkTo limit a) = some 0 ∨
        ∃ front b back, bs = front ++ b :: back ∧ b.used = false ∧ size ≤ b.size ∧
          loop (searchPass m size) n (linkTo limit a) = some (a + total HeapBlock.size front) := by
  intro bs
  induction bs with
  | nil =>
    intro prev a n _ tiles _ enough
    obtain ⟨n, rfl⟩ : ∃ k, n = k + 1 := ⟨n - 1, by omega⟩
    rw [total_nil, Nat.add_zero] at tiles
    refine Or.inl (loop_of_leave n ?_)
    rw [tiles, linkTo_limit]
    rfl
  | cons b bs ih =>
    intro prev a n headers tiles positive enough
    obtain ⟨header, rest⟩ := headers
    obtain ⟨n, rfl⟩ : ∃ k, n = k + 1 := ⟨n - 1, by omega⟩
    have large := header.large
    unfold headerSize at large
    rw [total_cons] at tiles
    rw [linkTo_of_lt (by omega)]
    by_cases fits : b.used = false ∧ size ≤ b.size
    · refine Or.inr ⟨[], b, bs, rfl, fits.1, fits.2, loop_of_leave n ?_⟩
      simp [searchPass, header.allocated, header.size, fits, Nat.ne_of_gt positive]
    have pass : searchPass m size a = some (Sum.inl (linkTo limit (a + b.size))) := by
      simp [searchPass, header.allocated, header.size, header.next, fits, Nat.ne_of_gt positive]
    rw [loop_of_continue n pass]
    rw [length_cons] at enough
    rcases ih a (a + b.size) n rest (by omega) (by omega) (by omega) with
      found | ⟨front, c, back, rfl, free, enough', found⟩
    · exact Or.inl found
    · refine Or.inr ⟨b :: front, c, back, rfl, free, enough', ?_⟩
      rw [found, total_cons, Nat.add_assoc]

/-- The walk of `expand_heap` reaches the last block. -/
theorem last_found :
    ∀ (bs : List HeapBlock) (b : HeapBlock) (prev a n : ℕ), Headers m limit prev a (b :: bs) →
      a + total HeapBlock.size (b :: bs) = limit → 0 < a → bs.length < n →
      loop (lastPass m) n a = some (lastBlock prev a (b :: bs)) := by
  intro bs
  induction bs with
  | nil =>
    intro b prev a n headers tiles positive enough
    obtain ⟨n, rfl⟩ : ∃ k, n = k + 1 := ⟨n - 1, by omega⟩
    rw [total_cons, total_nil, Nat.add_zero] at tiles
    refine loop_of_leave n ?_
    simp [lastPass, headers.1.next, tiles, linkTo_limit, lastBlock]
  | cons c bs ih =>
    intro b prev a n headers tiles positive enough
    obtain ⟨n, rfl⟩ : ∃ k, n = k + 1 := ⟨n - 1, by omega⟩
    have large := headers.2.1.large
    unfold headerSize at large
    rw [total_cons] at tiles
    have more : a + b.size < limit := by
      rw [total_cons] at tiles
      omega
    have pass : lastPass m a = some (Sum.inl (a + b.size)) := by
      rw [lastPass, headers.1.next, linkTo_of_lt more, if_pos (by omega)]
    rw [loop_of_continue n pass]
    rw [length_cons] at enough
    exact ih c a (a + b.size) n headers.2 (by omega) (by omega) (by omega)

/-! ## Changing headers -/

@[simp] theorem relinkPrev_apply (apart : next = 0 ∨ y < next + 16 ∨ next + 20 ≤ y)
    (m : Bytes) (prev : ℕ) : relinkPrev m next prev y = m y := by
  unfold relinkPrev
  split
  · exact store32_apply (by omega) m prev
  · rfl

@[simp] theorem load32_relinkPrev (apart : next = 0 ∨ a + 4 ≤ next + 16 ∨ next + 20 ≤ a) (m : Bytes)
    (prev : ℕ) : (relinkPrev m next prev).load32 a = m.load32 a :=
  load32_congr fun _ _ => relinkPrev_apply (by omega) m prev

theorem blockPrev_relinkPrev (linked : next ≠ 0) (small : prev < 2 ^ 32) (m : Bytes) :
    blockPrev (relinkPrev m next prev) next = prev := by
  rw [relinkPrev, if_pos linked]
  exact load32_store32_self small m _

/-- Setting the flag of a block. -/
theorem HeaderAt.setAllocated (header : HeaderAt m limit prev a b) (allocated : Bool) :
    HeaderAt (setBlockAllocated m a allocated) limit prev a { b with used := allocated } where
  magic := (load32_store32 (by omega) ..).trans header.magic
  size := (load32_store32 (by omega) ..).trans header.size
  allocated := by
    rw [blockAllocated, setBlockAllocated, load32_store32_self (by cases allocated <;> decide)]
    cases allocated <;> rfl
  next := (load32_store32 (by omega) ..).trans header.next
  prev := (load32_store32 (by omega) ..).trans header.prev
  large := header.large

/-- Setting the flag of one block of many. -/
theorem Headers.setAllocated (headers : Headers m limit prev a (front ++ b :: back))
    (allocated : Bool) :
    Headers (setBlockAllocated m (a + total HeapBlock.size front) allocated) limit prev a
      (front ++ { b with used := allocated } :: back) := by
  obtain ⟨below, header, above⟩ := headers_append.mp headers
  have large := header.large
  unfold headerSize at large
  refine headers_append.mpr ⟨?_, header.setAllocated allocated, ?_⟩
  · exact below.frame_range fun y _ lt => store32_apply (by omega) _ _
  · exact above.frame_range fun y low _ => store32_apply (by omega) _ _

/-- The stores of `split_block`, with what they read resolved. -/
theorem splitBlock_eq {whole : ℕ} (size_eq : blockSize m x = whole) (next_eq : blockNext m x = next)
    (large : headerSize ≤ size) (room : size + 36 ≤ whole) (small : x + whole < 2 ^ 32) :
    splitBlock m x size =
      let m := setBlockMagic m (x + size) heapMagic
      let m := setBlockSize m (x + size) (whole - size)
      let m := setBlockAllocated m (x + size) false
      let m := setBlockNext m (x + size) next
      let m := setBlockPrev m (x + size) x
      let m := relinkPrev m next (x + size)
      let m := setBlockNext m x (x + size)
      setBlockSize m x size := by
  unfold headerSize at large
  have split : ¬whole < u32 (size + headerSize + heapMinSize) := by
    unfold headerSize heapMinSize
    rw [u32_of_lt (by omega)]
    omega
  have address : u32 (x + size) = x + size := u32_of_lt (by omega)
  have rest : sub32 whole size = whole - size := sub32_of_le (by omega) (by omega)
  unfold blockSize blockNext at *
  simp (disch := omega) only [splitBlock, blockSize, blockNext, setBlockMagic, setBlockSize,
    setBlockAllocated, setBlockNext, setBlockPrev, split, if_false, address,
    load32_store32, size_eq, next_eq, rest]

theorem linkTo_cases (limit a : ℕ) : linkTo limit a = 0 ∨ linkTo limit a = a := by
  unfold linkTo
  split <;> simp

/-- `split_block` writes inside the block, and the back link of the next one. -/
theorem splitBlock_apply (header : HeaderAt m limit prev x b) (small : x + b.size < 2 ^ 32)
    (large : headerSize ≤ size) (room : size + 36 ≤ b.size)
    (apart : y < x ∨ x + b.size ≤ y ∧ (y < x + b.size + 16 ∨ x + b.size + 20 ≤ y)) :
    splitBlock m x size y = m y := by
  have next_cases := linkTo_cases limit (x + b.size)
  rw [splitBlock_eq header.size header.next large room small]
  simp (disch := omega) [setBlockMagic, setBlockSize, setBlockAllocated, setBlockNext, setBlockPrev]

/-- `split_block` cuts a block in two. -/
theorem splitBlock_headers (header : HeaderAt m limit prev x b)
    (rest : Headers m limit x (x + b.size) back)
    (tiles : x + b.size + total HeapBlock.size back = limit) (small : limit + 2 ^ 21 < 2 ^ 32)
    (positive : 0 < x) (large : headerSize ≤ size) (room : size + 36 ≤ b.size) :
    Headers (splitBlock m x size) limit prev x
      ({ b with size := size } :: ⟨b.size - size, false⟩ :: back) := by
  have next_cases := linkTo_cases limit (x + b.size)
  have magic_small : heapMagic < 2 ^ 32 := by decide
  have behind : x + size + (b.size - size) = x + b.size := by omega
  have frame : ∀ y, x + b.size ≤ y → y < x + b.size + 16 ∨ x + b.size + 20 ≤ y →
      splitBlock m x size y = m y := fun y above apart =>
    splitBlock_apply header (by omega) large room (Or.inr ⟨above, apart⟩)
  obtain ⟨magic, size_eq, allocated, next_eq, prev_eq, _⟩ := header
  unfold blockMagic at magic
  unfold blockAllocated at allocated
  unfold blockPrev at prev_eq
  rw [splitBlock_eq size_eq next_eq large room (by omega)] at frame ⊢
  unfold headerSize at large
  simp only [setBlockMagic, setBlockSize, setBlockAllocated, setBlockNext, setBlockPrev] at frame ⊢
  refine ⟨⟨?_, ?_, ?_, ?_, ?_, large⟩, ⟨?_, ?_, ?_, ?_, ?_, ?_⟩, ?_⟩
  · simp (disch := omega) [blockMagic, magic]
  · simp (disch := omega) [blockSize]
  · simp (disch := omega) [blockAllocated, allocated]
  · simp (disch := omega) [blockNext, linkTo_of_lt]
  · simp (disch := omega) [blockPrev, prev_eq]
  · simp (disch := omega) [blockMagic]
  · simp (disch := omega) [blockSize]
  · simp (disch := omega) [blockAllocated]
  · simp (disch := omega) [blockNext, behind]
  · simp (disch := omega) [blockPrev]
  · show headerSize ≤ b.size - size
    unfold headerSize
    omega
  · show Headers _ limit (x + size) (x + size + (b.size - size)) back
    rw [behind]
    refine rest.reprev frame fun nonempty => ?_
    have more := rest.total_pos nonempty
    unfold headerSize at more
    rw [linkTo_of_lt (by omega), blockPrev]
    simp (disch := omega) only [load32_store32]
    exact blockPrev_relinkPrev (by omega) (by omega) _

/-! ## Merging -/

/-- One pass of the forward loop takes in the free block behind. -/
theorem mergeForwardPass_headers (headers : Headers m limit prev x (b :: c :: back))
    (tiles : x + total HeapBlock.size (b :: c :: back) = limit) (small : limit + 2 ^ 21 < 2 ^ 32)
    (positive : 0 < x) (free : c.used = false) :
    ∃ m', mergeForwardPass x m = some (Sum.inl m') ∧
      Headers m' limit prev x ({ b with size := b.size + c.size } :: back) ∧
      ∀ y, y < x ∨ x + b.size + c.size ≤ y →
        y < x + b.size + c.size + 16 ∨ x + b.size + c.size + 20 ≤ y → m' y = m y := by
  obtain ⟨header, next_header, rest⟩ := headers
  obtain ⟨magic, size_eq, allocated, next_eq, prev_eq, large⟩ := header
  obtain ⟨magic', size_eq', allocated', next_eq', prev_eq', large'⟩ := next_header
  rw [total_cons, total_cons] at tiles
  unfold headerSize at large large'
  rw [linkTo_of_lt (by omega)] at next_eq
  have next_cases := linkTo_cases limit (x + b.size + c.size)
  have sum : u32 (b.size + c.size) = b.size + c.size := u32_of_lt (by omega)
  have pass : mergeForwardPass x m = some (Sum.inl
      (relinkPrev (setBlockNext (setBlockSize m x (b.size + c.size)) x
        (linkTo limit (x + b.size + c.size))) (linkTo limit (x + b.size + c.size)) x)) := by
    have nonzero : x + b.size ≠ 0 := by omega
    have next_kept : ∀ v, blockNext (setBlockSize m x v) (x + b.size) =
        linkTo limit (x + b.size + c.size) := fun v =>
      (load32_store32 (by omega) m v).trans next_eq'
    have next_kept' : ∀ v w, blockNext (setBlockNext (setBlockSize m x v) x w) (x + b.size) =
        linkTo limit (x + b.size + c.size) := fun v w =>
      (load32_store32 (by omega) _ w).trans (next_kept v)
    simp only [mergeForwardPass, next_eq, allocated', free, magic', size_eq, size_eq', sum,
      next_kept, next_kept', ne_eq, nonzero, not_false_eq_true, and_self, if_true,
      not_true_eq_false, if_false]
  refine ⟨_, pass, ?_⟩
  unfold blockMagic at magic
  unfold blockAllocated at allocated
  unfold blockPrev at prev_eq
  simp only [setBlockSize, setBlockNext]
  have frame : ∀ y, y < x ∨ x + b.size + c.size ≤ y →
      y < x + b.size + c.size + 16 ∨ x + b.size + c.size + 20 ≤ y →
      relinkPrev ((m.store32 (x + 4) (b.size + c.size)).store32 (x + 12)
        (linkTo limit (x + b.size + c.size))) (linkTo limit (x + b.size + c.size)) x y = m y := by
    intro y outside apart
    simp (disch := omega)
  refine ⟨⟨⟨?_, ?_, ?_, ?_, ?_, ?_⟩, ?_⟩, frame⟩
  · simp (disch := omega) [blockMagic, magic]
  · simp (disch := omega) [blockSize]
  · simp (disch := omega) [blockAllocated, allocated]
  · show blockNext _ x = linkTo limit (x + (b.size + c.size))
    rw [← Nat.add_assoc]
    simp (disch := omega) [blockNext]
  · simp (disch := omega) [blockPrev, prev_eq]
  · show headerSize ≤ b.size + c.size
    unfold headerSize
    omega
  · show Headers _ limit x (x + (b.size + c.size)) back
    rw [← Nat.add_assoc]
    refine rest.reprev (fun y above apart => frame y (Or.inr above) apart) fun nonempty => ?_
    have more := rest.total_pos nonempty
    unfold headerSize at more
    rw [linkTo_of_lt (by omega)]
    exact blockPrev_relinkPrev (by omega) (by omega) _

/-- The forward loop takes in all the free blocks directly behind. -/
theorem mergeForward_headers (stop : HeadUsed rest) (small : limit + 2 ^ 21 < 2 ^ 32)
    (positive : 0 < x) :
    ∀ (frees : List HeapBlock) (b : HeapBlock) (m : Bytes) (n : ℕ),
      Headers m limit prev x (b :: (frees ++ rest)) →
      x + total HeapBlock.size (b :: (frees ++ rest)) = limit →
      (∀ c ∈ frees, c.used = false) → frees.length < n →
      ∃ m', loop (mergeForwardPass x) n m = some m' ∧
        Headers m' limit prev x ({ b with size := b.size + total HeapBlock.size frees } :: rest) ∧
        ∀ y, y < x ∨ x + b.size + total HeapBlock.size frees ≤ y →
          y < x + b.size + total HeapBlock.size frees + 16 ∨
            x + b.size + total HeapBlock.size frees + 20 ≤ y → m' y = m y := by
  intro frees
  induction frees with
  | nil =>
    intro b m n headers tiles _ enough
    obtain ⟨n, rfl⟩ : ∃ k, n = k + 1 := ⟨n - 1, by omega⟩
    refine ⟨m, loop_of_leave n ?_, headers, fun _ _ _ => rfl⟩
    have next := headers.1.next
    cases rest with
    | nil =>
      rw [append_nil, total_cons, total_nil, Nat.add_zero] at tiles
      simp [mergeForwardPass, next, tiles, linkTo_limit]
    | cons c back =>
      have large := headers.2.1.large
      unfold headerSize at large
      rw [nil_append, total_cons, total_cons] at tiles
      rw [linkTo_of_lt (by omega)] at next
      have allocated := headers.2.1.allocated
      rw [stop c rfl] at allocated
      simp [mergeForwardPass, next, allocated]
  | cons c frees ih =>
    intro b m n headers tiles free enough
    obtain ⟨n, rfl⟩ : ∃ k, n = k + 1 := ⟨n - 1, by omega⟩
    have free_tail : ∀ d ∈ frees, d.used = false := fun d mem =>
      free d (mem_cons_of_mem _ mem)
    obtain ⟨m₁, pass, headers₁, frame₁⟩ := mergeForwardPass_headers headers tiles small positive
      (free c (mem_cons_self ..))
    have tiles₁ : x + total HeapBlock.size
        ({ b with size := b.size + c.size } :: (frees ++ rest)) = limit := by
      rw [cons_append, total_cons, total_cons] at tiles
      show x + (b.size + c.size + total HeapBlock.size (frees ++ rest)) = limit
      omega
    rw [length_cons] at enough
    obtain ⟨m', rest_loop, headers', frame'⟩ := ih _ m₁ n headers₁ tiles₁ free_tail (by omega)
    have sum : b.size + c.size + total HeapBlock.size frees =
        b.size + total HeapBlock.size (c :: frees) := by
      rw [total_cons]
      omega
    refine ⟨m', by rw [loop_of_continue n pass]; exact rest_loop, ?_, ?_⟩
    · rw [← sum]
      exact headers'
    intro y outside apart
    rw [Nat.add_assoc x, ← sum] at outside apart
    simp only at frame'
    refine (frame' y (by omega) (by omega)).trans (frame₁ y (by omega) ?_)
    -- behind the second block there is either the end of the merge or another free block
    cases frees with
    | nil =>
      rw [total_nil] at apart
      omega
    | cons d frees =>
      have large := headers₁.2.1.large
      unfold headerSize at large
      rw [total_cons] at outside apart
      omega

/-- One activation of the forward loop, seen in the whole heap. -/
theorem mergeForward_spec (headers : Headers m limit 0 start (front ++ b :: (frees ++ rest)))
    (tiles : start + total HeapBlock.size (front ++ b :: (frees ++ rest)) = limit)
    (small : limit + 2 ^ 21 < 2 ^ 32) (positive : 0 < start) (free : b.used = false)
    (frees_free : ∀ c ∈ frees, c.used = false) (stop : HeadUsed rest) :
    ∃ m', loop (mergeForwardPass (start + total HeapBlock.size front)) (2 ^ 32) m = some m' ∧
      Headers m' limit 0 start
        (front ++ { b with size := b.size + total HeapBlock.size frees } :: rest) ∧
      UsedKept start m m'
        (front ++ { b with size := b.size + total HeapBlock.size frees } :: rest) := by
  obtain ⟨below, above⟩ := headers_append.mp headers
  rw [total_append, ← Nat.add_assoc] at tiles
  have length : frees.length < 2 ^ 32 := by
    have bound := above.2.length_le
    rw [length_append] at bound
    rw [total_cons] at tiles
    omega
  obtain ⟨m', result, headers', frame⟩ := mergeForward_headers stop small (by omega) frees b m
    (2 ^ 32) above tiles frees_free length
  refine ⟨m', result, headers_append.mpr ⟨?_, headers'⟩, ?_⟩
  · exact below.frame_range fun y _ lt => frame y (Or.inl lt) (by omega)
  intro x c used i low high
  unfold headerSize at low
  rw [usedAt_append, usedAt_cons] at used
  rcases used with inside | ⟨_, _, impossible⟩ | inside
  · have bounds := placed_bounds HeapBlock.size inside.1
    exact frame _ (by omega) (by omega)
  · simp [free] at impossible
  · have bounds := placed_bounds HeapBlock.size inside.1
    simp only at bounds
    exact frame _ (by omega) (by omega)

theorem UsedKept.trans {m₁ m₂ : Bytes} {bs' : List HeapBlock} (first : UsedKept start m m₁ bs)
    (second : UsedKept start m₁ m₂ bs')
    (still : ∀ x b, UsedAt start bs' x b → UsedAt start bs x b) : UsedKept start m m₂ bs' :=
  fun x b used i low high =>
    (second x b used i low high).trans (first x b (still x b used) i low high)

/-- Merging free blocks does not change which blocks are in use. -/
theorem usedAt_merge (free : b.used = false) (frees_free : ∀ d ∈ frees, d.used = false) :
    UsedAt start (front ++ { b with size := b.size + total HeapBlock.size frees } :: rest) x c ↔
      UsedAt start (front ++ b :: (frees ++ rest)) x c := by
  rw [usedAt_append, usedAt_append, usedAt_cons, usedAt_cons, usedAt_append]
  simp [free, not_usedAt_of_free frees_free, Nat.add_assoc]

/-- A list of blocks ends with a free block, or it does not. -/
theorem last_cases (bs : List HeapBlock) :
    LastUsed bs ∨ ∃ front p, bs = front ++ [p] ∧ p.used = false := by
  rcases eq_nil_or_concat bs with rfl | ⟨front, p, rfl⟩
  · exact Or.inl (by simp [LastUsed])
  · cases used : p.used with
    | true => exact Or.inl (by simp [LastUsed, used])
    | false => exact Or.inr ⟨front, p, concat_eq_append .., used⟩

/-- Where `merge_blocks` stops: the block in front is in use, or there is none. -/
theorem blocked_of_lastUsed (headers : Headers m limit 0 start front) (used : LastUsed front) :
    ¬(lastBlock 0 start front ≠ 0 ∧ blockAllocated m (lastBlock 0 start front) = false) := by
  rcases eq_nil_or_concat front with rfl | ⟨front, p, rfl⟩
  · simp [lastBlock]
  rw [concat_eq_append] at *
  rw [lastBlock_concat]
  have header := (headers_append.mp headers).2.1
  have in_use : p.used = true := used p (by simp)
  simp [header.allocated, in_use]

/-- `merge_blocks` on a block that was just freed coalesces the heap. -/
theorem mergeBlocks_spec (headers : Headers m limit 0 start (front ++ b :: back))
    (tiles : start + total HeapBlock.size (front ++ b :: back) = limit)
    (small : limit + 2 ^ 21 < 2 ^ 32) (positive : 0 < start) (free : b.used = false)
    (front_coalesced : Coalesced front) (back_coalesced : Coalesced back) :
    ∃ m' bs', mergeBlocks m (start + total HeapBlock.size front) = some m' ∧
      Headers m' limit 0 start bs' ∧ start + total HeapBlock.size bs' = limit ∧ Coalesced bs' ∧
      (∀ x c, UsedAt start bs' x c ↔ UsedAt start (front ++ b :: back) x c) ∧
      UsedKept start m m' bs' := by
  obtain ⟨n, passes⟩ : ∃ n, 2 ^ 32 = n + 1 + 1 := ⟨2 ^ 32 - 2, by omega⟩
  obtain ⟨frees, rest, rfl, frees_free, stop, rest_coalesced, _⟩ := back_coalesced.split_head
  obtain ⟨m₁, forward, headers₁, kept₁⟩ :=
    mergeForward_spec headers tiles small positive free frees_free stop
  have header := (headers_append.mp headers).2.1
  have header₁ := (headers_append.mp headers₁).2.1
  have tiles₁ : start + total HeapBlock.size
      (front ++ { b with size := b.size + total HeapBlock.size frees } :: rest) = limit := by
    simpa [Nat.add_assoc] using tiles
  have nonzero : start + total HeapBlock.size front ≠ 0 := by omega
  have first_pass : mergePass (start + total HeapBlock.size front, m) =
      if lastBlock 0 start front ≠ 0 ∧ blockAllocated m₁ (lastBlock 0 start front) = false then
        some (Sum.inl (lastBlock 0 start front, m₁))
      else some (Sum.inr m₁) := by
    simp only [mergePass, header.allocated, free, nonzero, forward, header₁.prev,
      Bool.false_eq_true, or_self, if_false]
  rcases last_cases front with blocked | ⟨front₀, p, rfl, p_free⟩
  · refine ⟨m₁, _, ?_, headers₁, tiles₁, ?_, fun x c => usedAt_merge free frees_free, kept₁⟩
    · refine loop_of_leave _ (first_pass.trans (if_neg ?_))
      exact blocked_of_lastUsed (headers_append.mp headers₁).1 blocked
    · exact coalesced_append_cons.mpr ⟨front_coalesced, rest_coalesced, fun _ => ⟨blocked, stop⟩⟩
  -- the block in front is free too: it takes in what the first activation left
  obtain ⟨front₀_coalesced, _, last_used⟩ := coalesced_append_cons.mp front_coalesced
  generalize merged : { b with size := b.size + total HeapBlock.size frees } = b₁ at *
  have b₁_free : ∀ c ∈ [b₁], c.used = false := by simp [← merged, free]
  rw [append_assoc] at headers₁ tiles₁
  have headers_p : Headers m₁ limit 0 start (front₀ ++ p :: ([b₁] ++ rest)) := headers₁
  obtain ⟨m₂, forward₂, headers₂, kept₂⟩ :=
    mergeForward_spec headers_p tiles₁ small positive p_free b₁_free stop
  have header_p := (headers_append.mp headers₁).2.1
  have header₂ := (headers_append.mp headers₂).2.1
  have nonzero₂ : start + total HeapBlock.size front₀ ≠ 0 := by omega
  have same :
      ∀ x c, UsedAt start (front₀ ++ { p with size := p.size + total HeapBlock.size [b₁] } ::
      rest) x c ↔ UsedAt start (front₀ ++ [p] ++ b₁ :: rest) x c := fun x c => by
    rw [usedAt_merge p_free b₁_free, append_assoc]
    rfl
  refine ⟨m₂, _, ?_, headers₂, ?_, ?_, ?_, kept₁.trans kept₂ fun x c used => (same x c).mp used⟩
  · rw [mergeBlocks, passes]
    rw [lastBlock_concat, header_p.allocated, p_free, if_pos ⟨nonzero₂, rfl⟩] at first_pass
    rw [loop_of_continue _ first_pass]
    refine loop_of_leave _ ?_
    simp only [mergePass, header_p.allocated, p_free, nonzero₂, forward₂, header₂.prev,
      Bool.false_eq_true, or_self, if_false]
    exact if_neg (blocked_of_lastUsed (headers_append.mp headers₂).1 (last_used p_free).1)
  · simpa [Nat.add_assoc] using tiles₁
  · exact coalesced_append_cons.mpr
      ⟨front₀_coalesced, rest_coalesced, fun _ => ⟨(last_used p_free).1, stop⟩⟩
  · intro x c
    rw [same, ← merged]
    exact usedAt_merge free frees_free

end EduOS
