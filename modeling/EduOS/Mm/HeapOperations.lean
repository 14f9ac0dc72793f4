import EduOS.Mm.HeapBlocks

/-!
# What the heap operations do to the blocks

One statement for each function of `kmalloc.c`, in terms of the blocks: `kmalloc`
turns one free block into a block in use, or appends one; `kfree` gives one back;
`krealloc` does both.  None of them touches the payload of any other block in use.
-/

namespace EduOS

open Bytes

/-- The blocks `bs` tile the heap, and the headers describe them. -/
structure HeapShape (h : Heap) (bs : List HeapBlock) : Prop where
  headers : Headers h.memory h.heapEnd 0 h.heapStart bs
  tiles : h.heapStart + total HeapBlock.size bs = h.heapEnd
  first : h.heapFirst = linkTo h.heapEnd h.heapStart
  positive : 0 < h.heapStart
  aligned : h.heapEnd % pageSize = 0
  inside : h.heapEnd ≤ h.heapMax
  room : h.heapMax + 2 ^ 21 < 2 ^ 32

/-- Between calls, no two neighbours are both free. -/
structure HeapRep (h : Heap) (bs : List HeapBlock) : Prop extends HeapShape h bs where
  coalesced : Coalesced bs

variable {h h' : Heap} {bs front : List HeapBlock} {m : Bytes} {a size y limit x n : ℕ}
    {b c : HeapBlock}

theorem HeapShape.small (shape : HeapShape h bs) : h.heapEnd + 2 ^ 21 < 2 ^ 32 := by
  have inside := shape.inside
  have room := shape.room
  omega

/-- A heap whose variables did not change, with other headers in memory. -/
theorem HeapShape.withMemory {bs' : List HeapBlock} (shape : HeapShape h bs)
    (headers : Headers m h.heapEnd 0 h.heapStart bs')
    (total_eq : total HeapBlock.size bs' = total HeapBlock.size bs) :
    HeapShape { h with memory := m } bs' :=
  { shape with
    headers := headers
    tiles := by rw [total_eq]; exact shape.tiles }

/-! ## Growing -/

/-- Two heaps that differ at most in what it takes to map pages, and in memory
behind the end of the heap. -/
structure SameHeap (h h' : Heap) : Prop where
  heapStart : h'.heapStart = h.heapStart
  heapEnd : h'.heapEnd = h.heapEnd
  heapMax : h'.heapMax = h.heapMax
  heapFirst : h'.heapFirst = h.heapFirst
  memory : ∀ y, y < h.heapEnd → h'.memory y = h.memory y

theorem SameHeap.refl (h : Heap) : SameHeap h h := ⟨rfl, rfl, rfl, rfl, fun _ _ => rfl⟩

variable {i prev start : ℕ} {back : List HeapBlock}

theorem SameHeap.trans {h₁ h₂ : Heap} (first : SameHeap h h₁) (second : SameHeap h₁ h₂) :
    SameHeap h h₂ where
  heapStart := second.heapStart.trans first.heapStart
  heapEnd := second.heapEnd.trans first.heapEnd
  heapMax := second.heapMax.trans first.heapMax
  heapFirst := second.heapFirst.trans first.heapFirst
  memory y lt := (second.memory y (by rw [first.heapEnd]; exact lt)).trans (first.memory y lt)

theorem HeapShape.of_same (shape : HeapShape h bs) (same : SameHeap h h') : HeapShape h' bs where
  headers := by
    rw [same.heapEnd, same.heapStart]
    refine shape.headers.frame_range fun y _ lt => same.memory y ?_
    rw [← shape.tiles]
    exact lt
  tiles := by rw [same.heapStart, same.heapEnd]; exact shape.tiles
  first := by rw [same.heapFirst, same.heapEnd, same.heapStart]; exact shape.first
  positive := by rw [same.heapStart]; exact shape.positive
  aligned := by rw [same.heapEnd]; exact shape.aligned
  inside := by rw [same.heapEnd, same.heapMax]; exact shape.inside
  room := by rw [same.heapMax]; exact shape.room

theorem vmmPageTable_same (h : Heap) (virt : ℕ) : SameHeap h (vmmPageTable h virt) := by
  unfold vmmPageTable
  dsimp only
  split
  · exact SameHeap.refl h
  · split <;> exact ⟨rfl, rfl, rfl, rfl, fun _ _ => rfl⟩

/-- Mapping a page behind the end of the heap changes nothing before it. -/
theorem vmmMapPage_same (frames : Frames) {virt : ℕ} (phys : ℕ) (aligned : h.heapEnd % pageSize = 0)
    (behind : h.heapEnd ≤ virt) : SameHeap h (vmmMapPage frames h virt phys) := by
  have table := vmmPageTable_same h virt
  unfold vmmMapPage
  dsimp only
  split
  · exact table
  · refine table.trans ⟨rfl, rfl, rfl, rfl, fun y lt => if_neg ?_⟩
    rw [table.heapEnd] at lt
    unfold pageSize at *
    omega

/-- What is left of a pass: a frame may be allocated, and the page mapped to it. -/
theorem expandPage_eq {frames : Frames}
    (pass : expandPage frames i h = Sum.inl h' ∨ expandPage frames i h = Sum.inr h') :
    h' = { h with pmm := (pmmAllocFrame h.pmm).2 } ∨
      h' = vmmMapPage frames { h with pmm := (pmmAllocFrame h.pmm).2 }
        (u32 (h.heapEnd + i * pageSize)) (pmmAllocFrame h.pmm).1 := by
  unfold expandPage at pass
  dsimp only at pass
  split at pass
  · simp only [reduceCtorEq, Sum.inr.injEq, false_or] at pass
    exact Or.inl pass.symm
  split at pass
  · simp only [reduceCtorEq, Sum.inr.injEq, false_or] at pass
    exact Or.inr pass.symm
  · simp only [reduceCtorEq, Sum.inl.injEq, or_false] at pass
    exact Or.inr pass.symm

theorem expandPage_same (frames : Frames) (aligned : h.heapEnd % pageSize = 0)
    (fits : h.heapEnd + i * pageSize < 2 ^ 32)
    (pass : expandPage frames i h = Sum.inl h' ∨ expandPage frames i h = Sum.inr h') :
    SameHeap h h' := by
  have taken : SameHeap h { h with pmm := (pmmAllocFrame h.pmm).2 } :=
    ⟨rfl, rfl, rfl, rfl, fun _ _ => rfl⟩
  rcases expandPage_eq pass with rfl | rfl
  · exact taken
  · refine taken.trans (vmmMapPage_same frames _ aligned ?_)
    rw [u32_of_lt fits]
    exact Nat.le_add_right ..

/-- The page loop of `expand_heap` changes nothing before the end of the heap. -/
theorem expandPages_same (frames : Frames) {pages : ℕ} (aligned : h.heapEnd % pageSize = 0)
    (fits : h.heapEnd + pages * pageSize < 2 ^ 32) :
    (∃ h', scan (expandPage frames) 0 pages h = Sum.inl h' ∧ SameHeap h h') ∨
      ∃ h', scan (expandPage frames) 0 pages h = Sum.inr h' ∧ SameHeap h h' := by
  refine scan_rule (expandPage frames) (fun _ h' => SameHeap h h') (SameHeap h) pages ?_ ?_
    pages 0 h (Nat.zero_add _) (SameHeap.refl h)
  all_goals
    intro i h₁ h₂ lt same pass
    have i_fits : h₁.heapEnd + i * pageSize < 2 ^ 32 := by
      have earlier : i * pageSize ≤ pages * pageSize := Nat.mul_le_mul_right _ lt.le
      rw [same.heapEnd]
      omega
    exact same.trans (expandPage_same frames (by rw [same.heapEnd]; exact aligned) i_fits
      (by simp [pass]))

/-- The header that `expand_heap` writes. -/
theorem newBlock_header (large : headerSize ≤ size) (small : size < 2 ^ 32) :
    HeaderAt (newBlock m a size) (a + size) 0 a ⟨size, false⟩ := by
  have magic_small : heapMagic < 2 ^ 32 := by decide
  simp only [newBlock, setBlockMagic, setBlockSize, setBlockAllocated, setBlockNext, setBlockPrev]
  refine ⟨?_, ?_, ?_, ?_, ?_, large⟩
  · simp (disch := omega) [blockMagic]
  · simp (disch := omega) [blockSize]
  · simp (disch := omega) [blockAllocated]
  · simp (disch := omega) [blockNext, linkTo_limit]
  · simp (disch := omega) [blockPrev]

theorem newBlock_apply (before : y < a) : newBlock m a size y = m y := by
  simp (disch := omega) [newBlock, setBlockMagic, setBlockSize, setBlockAllocated, setBlockNext,
    setBlockPrev]

/-- Linking a last block to a new one behind it. -/
theorem HeaderAt.extend {limit' : ℕ} (header : HeaderAt m limit prev a b)
    (before : a + b.size < limit') (small : limit' < 2 ^ 32) :
    HeaderAt (setBlockNext m a (a + b.size)) limit' prev a b where
  magic := (load32_store32 (by omega) ..).trans header.magic
  size := (load32_store32 (by omega) ..).trans header.size
  allocated := by
    rw [blockAllocated, setBlockNext, load32_store32 (by omega)]
    exact header.allocated
  next := by
    rw [linkTo_of_lt before]
    exact load32_store32_self (by omega) ..
  prev := (load32_store32 (by omega) ..).trans header.prev
  large := header.large

theorem HeaderAt.setPrev {prev' : ℕ} (header : HeaderAt m limit prev a b) (small : prev' < 2 ^ 32) :
    HeaderAt (setBlockPrev m a prev') limit prev' a b where
  magic := (load32_store32 (by omega) ..).trans header.magic
  size := (load32_store32 (by omega) ..).trans header.size
  allocated := by
    rw [blockAllocated, setBlockPrev, load32_store32 (by omega)]
    exact header.allocated
  next := (load32_store32 (by omega) ..).trans header.next
  prev := load32_store32_self small ..
  large := header.large

/-- A block appended behind the blocks `front ++ [p]`: the last one gets a successor. -/
theorem append_headers {p : HeapBlock} (headers : Headers m limit 0 start (front ++ [p]))
    (tiles : start + total HeapBlock.size (front ++ [p]) = limit) (large : headerSize ≤ size)
    (small : limit + size < 2 ^ 32) :
    Headers
      (setBlockPrev (setBlockNext (newBlock m limit size) (start + total HeapBlock.size front)
        limit) limit (start + total HeapBlock.size front))
      (limit + size) 0 start (front ++ [p] ++ [⟨size, false⟩]) := by
  obtain ⟨below, last, _⟩ := headers_append.mp headers
  have p_large := last.large
  unfold headerSize at large p_large
  rw [total_append, total_cons, total_nil, Nat.add_zero] at tiles
  refine headers_append.mpr ⟨headers_append.mpr ⟨?_, ?_, trivial⟩, ?_, trivial⟩
  · refine (below.relimit (by omega) (by omega)).frame_range fun y _ lt => ?_
    rw [setBlockPrev, setBlockNext, store32_apply (by omega), store32_apply (by omega),
      newBlock_apply (by omega)]
  · have kept : HeaderAt (newBlock m limit size) limit (lastBlock 0 start front)
        (start + total HeapBlock.size front) p :=
      last.frame fun y _ lt => newBlock_apply (by unfold headerSize at lt; omega)
    have extended : HeaderAt (setBlockNext (newBlock m limit size) _ _) (limit + size) _ _ p :=
      kept.extend (by omega) small
    rw [Nat.add_assoc, tiles] at extended
    exact extended.frame fun y _ lt =>
      store32_apply (by unfold headerSize at lt; omega) _ _
  · have linked : HeaderAt (setBlockNext (newBlock m limit size)
        (start + total HeapBlock.size front) limit) (limit + size) 0 limit ⟨size, false⟩ :=
      (newBlock_header large (by omega)).frame fun y low _ => store32_apply (by omega) _ _
    rw [lastBlock_concat, total_append, total_cons, total_nil, Nat.add_zero, tiles]
    exact linked.setPrev (by omega)

/-- `expand_heap` appends a free block. -/
theorem appendBlock_spec (shape : HeapShape h bs) (large : headerSize ≤ size)
    (pages : size % pageSize = 0) (fits : h.heapEnd + size ≤ h.heapMax) :
    ∃ h', appendBlock h size = some (h.heapEnd, h') ∧ h'.heapStart = h.heapStart ∧
      HeapShape h' (bs ++ [⟨size, false⟩]) ∧ UsedKept h.heapStart h.memory h'.memory bs := by
  obtain ⟨headers, tiles, first, positive, aligned, inside, room⟩ := shape
  have grown : u32 (h.heapEnd + size) = h.heapEnd + size := u32_of_lt (by omega)
  have aligned' : (h.heapEnd + size) % pageSize = 0 := by
    rw [Nat.add_mod, aligned, pages]
    rfl
  unfold headerSize at large
  rcases List.eq_nil_or_concat bs with rfl | ⟨front, p, rfl⟩
  · rw [total_nil, Nat.add_zero] at tiles
    rw [tiles, linkTo_limit] at first
    have result : appendBlock h size = some (h.heapEnd,
        { h with
          memory := newBlock h.memory h.heapEnd size
          heapFirst := h.heapEnd
          heapEnd := h.heapEnd + size }) := by
      simp [appendBlock, first, grown]
    refine ⟨_, result, rfl, ?_, ?_⟩
    · refine ⟨⟨?_, trivial⟩, ?_, ?_, positive, aligned', fits, room⟩
      · rw [tiles]
        exact newBlock_header large (by omega)
      · simp [tiles]
      · show h.heapEnd = linkTo (h.heapEnd + size) h.heapStart
        rw [tiles, linkTo_of_lt (by omega)]
    · intro x b used
      exact absurd used.1 (by simp)
  · rw [List.concat_eq_append] at *
    obtain ⟨c, rest, shape_eq⟩ : ∃ c rest, front ++ [p] = c :: rest := by
      cases front with
      | nil => exact ⟨p, [], rfl⟩
      | cons c front => exact ⟨c, front ++ [p], rfl⟩
    have last := (headers_append.mp headers).2.1
    have p_large := last.large
    unfold headerSize at p_large
    have tiles_p := tiles
    rw [total_append, total_cons, total_nil, Nat.add_zero] at tiles_p
    rw [linkTo_of_lt (by omega)] at first
    have walk : loop (lastPass (newBlock h.memory h.heapEnd size)) (2 ^ 32) h.heapFirst =
        some (h.heapStart + total HeapBlock.size front) := by
      have kept : Headers (newBlock h.memory h.heapEnd size) h.heapEnd 0 h.heapStart
          (front ++ [p]) := headers.frame_range fun y _ lt => newBlock_apply (by omega)
      have length := kept.length_le
      rw [← lastBlock_concat 0 h.heapStart front p, first]
      rw [shape_eq] at kept tiles length ⊢
      rw [List.length_cons] at length
      exact last_found rest c 0 h.heapStart (2 ^ 32) kept tiles positive (by omega)
    have result : appendBlock h size = some (h.heapEnd,
        { h with
          memory := setBlockPrev (setBlockNext (newBlock h.memory h.heapEnd size)
            (h.heapStart + total HeapBlock.size front) h.heapEnd) h.heapEnd
            (h.heapStart + total HeapBlock.size front)
          heapEnd := h.heapEnd + size }) := by
      have nonzero : h.heapFirst ≠ 0 := by omega
      simp only [appendBlock, nonzero, if_false, walk, grown]
    refine ⟨_, result, rfl, ?_, ?_⟩
    · refine ⟨append_headers headers tiles large (by omega), ?_, ?_, positive, aligned', fits, room⟩
      · rw [total_append, total_cons, total_nil, Nat.add_zero, ← Nat.add_assoc, tiles]
      · show h.heapFirst = linkTo (h.heapEnd + size) h.heapStart
        rw [linkTo_of_lt (by omega)]
        exact first
    · intro x b used i low high
      unfold headerSize at low
      have bounds := placed_bounds HeapBlock.size used.1
      have apart := placed_apart HeapBlock.size used.1
        ((mem_placed HeapBlock.size).mpr ⟨front, [], rfl, rfl⟩)
      dsimp only [setBlockPrev, setBlockNext]
      rw [store32_apply (by omega), store32_apply (by omega), newBlock_apply (by omega)]

/-- The size by which the heap grows. -/
theorem grown_size (bounded : size ≤ heapMaxSize) :
    ∃ grown, alignUp (u32 (size + headerSize)) (2 ^ 12) = grown ∧ size + headerSize ≤ grown ∧
      grown % pageSize = 0 ∧ grown / pageSize * pageSize = grown ∧ grown < 2 ^ 21 := by
  unfold heapMaxSize at bounded
  have address : u32 (size + headerSize) = size + headerSize :=
    u32_of_lt (by unfold headerSize; omega)
  refine ⟨_, rfl, ?_⟩
  rw [address, alignUp_of_le (by omega) (by unfold headerSize; omega)]
  unfold headerSize pageSize
  omega

/-- `expand_heap` fails: at the limit of the heap, or at one of the pages. -/
def ExpandFails (frames : Frames) (h : Heap) (size : ℕ) (h' : Heap) : Prop :=
  let size := alignUp (u32 (size + headerSize)) (2 ^ 12)
  if u32 (h.heapEnd + size) > h.heapMax then h' = h
  else scan (expandPage frames) 0 (size / pageSize) h = Sum.inr h'

/-- `expand_heap` appends a free block that is large enough, or changes nothing. -/
theorem expandHeap_spec (shape : HeapShape h bs) (bounded : size ≤ heapMaxSize) (frames : Frames) :
    ∃ block h', expandHeap frames h size = some (block, h') ∧
      ((block = 0 ∧ SameHeap h h' ∧ ExpandFails frames h size h') ∨
        ∃ grown, block = h.heapEnd ∧ size + headerSize ≤ grown ∧ h'.heapStart = h.heapStart ∧
          HeapShape h' (bs ++ [⟨grown, false⟩]) ∧ UsedKept h.heapStart h.memory h'.memory bs) := by
  obtain ⟨grown, grown_eq, enough, pages, whole, bounded'⟩ := grown_size bounded
  have small := shape.small
  have reach : u32 (h.heapEnd + grown) = h.heapEnd + grown := u32_of_lt (by omega)
  unfold expandHeap ExpandFails
  simp only [grown_eq, reach]
  by_cases beyond : h.heapEnd + grown > h.heapMax
  · exact ⟨0, h, if_pos beyond, Or.inl ⟨rfl, SameHeap.refl h, by rw [if_pos beyond]⟩⟩
  simp only [if_neg beyond]
  have reached : h.heapEnd + grown / pageSize * pageSize < 2 ^ 32 := by
    omega
  rcases expandPages_same frames shape.aligned reached with
    ⟨h₁, mapped, same⟩ | ⟨h₁, failed, same⟩
  · have fits : h₁.heapEnd + grown ≤ h₁.heapMax := by
      rw [same.heapEnd, same.heapMax]
      omega
    obtain ⟨h', appended, start, shape', kept⟩ :=
      appendBlock_spec (shape.of_same same) (by omega) pages fits
    refine ⟨h₁.heapEnd, h', by simp [mapped, appended], Or.inr ⟨grown, same.heapEnd, enough,
      start.trans same.heapStart, shape', ?_⟩⟩
    rw [same.heapStart] at kept
    intro x b used i low high
    have bounds := placed_bounds HeapBlock.size used.1
    have tiles := shape.tiles
    rw [kept x b used i low high]
    exact same.memory _ (by omega)
  · exact ⟨0, h₁, by simp [failed], Or.inl ⟨rfl, same, failed⟩⟩

/-! ## Allocation -/

/-- From the blocks `bs`, the block `b` at `x` was taken into use. -/
structure Allocates (h h' : Heap) (bs bs' : List HeapBlock) (x : ℕ) (b : HeapBlock) : Prop where
  rep : HeapRep h' bs'
  heapStart : h'.heapStart = h.heapStart
  used : ∀ y c, UsedAt h.heapStart bs' y c ↔ UsedAt h.heapStart bs y c ∨ (y = x ∧ c = b)
  fresh : ∀ c, ¬UsedAt h.heapStart bs x c
  kept : UsedKept h.heapStart h.memory h'.memory bs

/-- Two blocks in use are the same or lie apart, headers included. -/
theorem HeapShape.apart (shape : HeapShape h bs)
    (left : (x, b) ∈ placed HeapBlock.size h.heapStart bs)
    (right : (y, c) ∈ placed HeapBlock.size h.heapStart bs) :
    headerSize ≤ b.size ∧ headerSize ≤ c.size ∧
      ((x = y ∧ b = c) ∨ x + b.size ≤ y ∨ y + c.size ≤ x) := by
  obtain ⟨_, _, bs_eq, _⟩ := (mem_placed HeapBlock.size).mp left
  obtain ⟨_, _, bs_eq', _⟩ := (mem_placed HeapBlock.size).mp right
  refine ⟨shape.headers.large b ?_, shape.headers.large c ?_,
    placed_apart HeapBlock.size left right⟩
  · rw [bs_eq]
    simp
  · rw [bs_eq']
    simp

/-- Splitting changes nothing if the rest would be too small. -/
theorem splitBlock_of_small (small : size ≤ heapMaxSize) (tight : blockSize m x < size + 36) :
    splitBlock m x size = m := by
  unfold heapMaxSize at small
  refine if_pos ?_
  unfold headerSize heapMinSize
  rw [u32_of_lt (by omega)]
  omega

/-- Taking a free block into use, with or without a rest. -/
theorem takeBlock_spec (rep : HeapRep h (front ++ b :: back))
    (free : b.used = false) (fits : size ≤ b.size) (large : headerSize ≤ size)
    (bounded : size ≤ heapMaxSize) :
    ∃ c bs', size ≤ c.size ∧
      Allocates h
        { h with
          memory := splitBlock
            (setBlockAllocated h.memory (h.heapStart + total HeapBlock.size front) true)
            (h.heapStart + total HeapBlock.size front) size }
        (front ++ b :: back) bs' (h.heapStart + total HeapBlock.size front) c := by
  have headers₀ := rep.headers.setAllocated true
  obtain ⟨below₀, header₀, above₀⟩ := headers_append.mp headers₀
  obtain ⟨front_coalesced, back_coalesced, surrounded⟩ := coalesced_append_cons.mp rep.coalesced
  have here : (h.heapStart + total HeapBlock.size front, b) ∈
      placed HeapBlock.size h.heapStart (front ++ b :: back) :=
    (mem_placed HeapBlock.size).mpr ⟨front, back, rfl, rfl⟩
  have tiles := rep.tiles
  have small := rep.small
  have positive := rep.positive
  rw [total_append, total_cons] at tiles
  have fresh : ∀ c, ¬UsedAt h.heapStart (front ++ b :: back)
      (h.heapStart + total HeapBlock.size front) c := by
    rintro c ⟨mem, used⟩
    obtain ⟨b_large, c_large, ⟨_, rfl⟩ | apart⟩ := rep.apart here mem
    · simp [free] at used
    · unfold headerSize at b_large c_large
      omega
  have kept₀ : UsedKept h.heapStart h.memory
      (setBlockAllocated h.memory (h.heapStart + total HeapBlock.size front) true)
      (front ++ b :: back) := by
    intro y c used i low high
    obtain ⟨b_large, c_large, ⟨rfl, _⟩ | apart⟩ := rep.apart here used.1
    · exact absurd used (fresh c)
    · exact store32_apply (by unfold headerSize at b_large; omega) _ _
  by_cases room : size + 36 ≤ b.size
  · have frame : ∀ y, y < h.heapStart + total HeapBlock.size front ∨
        h.heapStart + total HeapBlock.size front + b.size ≤ y ∧
          (y < h.heapStart + total HeapBlock.size front + b.size + 16 ∨
            h.heapStart + total HeapBlock.size front + b.size + 20 ≤ y) → _ :=
      fun y apart => splitBlock_apply header₀ (by dsimp only; omega) large room apart
    have headers' := headers_append.mpr
      ⟨below₀.frame_range fun y _ lt => frame y (Or.inl lt),
        splitBlock_headers header₀ above₀ (by dsimp only; omega) small (by omega) large room⟩
    have behind : h.heapStart + total HeapBlock.size front + size + (b.size - size) =
        h.heapStart + total HeapBlock.size front + b.size := by omega
    refine ⟨⟨size, true⟩, front ++ ⟨size, true⟩ :: ⟨b.size - size, false⟩ :: back, le_rfl, ?_⟩
    refine ⟨⟨rep.withMemory headers' ?_, ?_⟩, rfl, ?_, fresh, ?_⟩
    · simp only [total_append, total_cons]
      omega
    · have rest : Coalesced ([] ++ ⟨b.size - size, false⟩ :: back) :=
        coalesced_append_cons.mpr ⟨List.IsChain.nil, back_coalesced, fun _ =>
          ⟨by simp [LastUsed], (surrounded free).2⟩⟩
      exact coalesced_append_cons.mpr ⟨front_coalesced, rest, by simp⟩
    · intro y c
      rw [usedAt_append, usedAt_append, usedAt_cons, usedAt_cons, usedAt_cons]
      simp [free, behind]
      tauto
    · intro y c used i low high
      refine (frame (y + i) ?_).trans (kept₀ y c used i low high)
      unfold headerSize at low
      obtain ⟨b_large, _, ⟨rfl, _⟩ | apart⟩ := rep.apart here used.1
      · exact absurd used (fresh c)
      · omega
  · have tight : splitBlock (setBlockAllocated h.memory
        (h.heapStart + total HeapBlock.size front) true)
        (h.heapStart + total HeapBlock.size front) size = _ :=
      splitBlock_of_small bounded (by rw [header₀.size]; dsimp only; omega)
    rw [tight]
    refine ⟨{ b with used := true }, _, fits,
      ⟨⟨rep.withMemory headers₀ ?_, ?_⟩, rfl, ?_, fresh, kept₀⟩⟩
    · simp
    · exact coalesced_append_cons.mpr ⟨front_coalesced, back_coalesced, by simp⟩
    · intro y c
      rw [usedAt_append, usedAt_append, usedAt_cons, usedAt_cons]
      tauto

/-- Taking the block into use that `expand_heap` appended. -/
theorem takeAppended_spec {grown : ℕ} (rep : HeapRep h bs) (start : h'.heapStart = h.heapStart)
    (shape : HeapShape h' (bs ++ [⟨grown, false⟩]))
    (kept : UsedKept h.heapStart h.memory h'.memory bs) :
    Allocates h { h' with memory := setBlockAllocated h'.memory h.heapEnd true } bs
      (bs ++ [⟨grown, true⟩]) h.heapEnd ⟨grown, true⟩ := by
  have tiles := rep.tiles
  have headers := shape.headers.setAllocated true
  rw [start, tiles] at headers
  refine ⟨⟨shape.withMemory (by rw [start]; exact headers) (by simp), ?_⟩, start, ?_, ?_, ?_⟩
  · exact coalesced_append_cons.mpr ⟨rep.coalesced, List.IsChain.nil, by simp⟩
  · intro y c
    rw [usedAt_append, usedAt_cons, tiles]
    simp [UsedAt]
  · rintro c ⟨mem, _⟩
    have bounds := placed_bounds HeapBlock.size mem
    have large := (rep.apart mem mem).1
    unfold headerSize at large
    omega
  · intro x b used i low high
    have bounds := placed_bounds HeapBlock.size used.1
    refine (store32_apply (by omega) _ _).trans (kept x b used i low high)

/-- The block a request needs: nothing wraps for requests up to `0xFFFFFFE8`. -/
theorem requestSize_of_le (bounded : n ≤ 0xFFFFFFE8) : n + headerSize ≤ requestSize n := by
  unfold requestSize headerSize
  rw [alignUp_of_le (by omega) (by omega), u32_of_lt (by omega)]
  omega

/-- The ways through `kmalloc`. -/
inductive KmallocOutcome (frames : Frames) (h : Heap) (bs : List HeapBlock) (n : ℕ) :
    Option (Allocation × Heap) → Prop
  | refused (why : n = 0 ∨ heapMaxSize < requestSize n) :
      KmallocOutcome frames h bs n (some (.returned 0, h))
  | found {front back : List HeapBlock} {b : HeapBlock} (split : bs = front ++ b :: back)
      (free : b.used = false) (fits : requestSize n ≤ b.size)
      (bounded : requestSize n ≤ heapMaxSize) :
      KmallocOutcome frames h bs n (some
        (.returned (h.heapStart + total HeapBlock.size front + headerSize), { h with
          memory := splitBlock
            (setBlockAllocated h.memory (h.heapStart + total HeapBlock.size front) true)
            (h.heapStart + total HeapBlock.size front) (requestSize n) }))
  | failed {h' : Heap} {result : Allocation} (failed : result.failed = true) (some_size : n ≠ 0)
      (bounded : requestSize n ≤ heapMaxSize) (same : SameHeap h h')
      (fails : ExpandFails frames h (requestSize n) h') :
      KmallocOutcome frames h bs n (some (result, h'))
  | grown {h' : Heap} {grown : ℕ} (larger : requestSize n + headerSize ≤ grown)
      (start : h'.heapStart = h.heapStart) (shape : HeapShape h' (bs ++ [⟨grown, false⟩]))
      (kept : UsedKept h.heapStart h.memory h'.memory bs) :
      KmallocOutcome frames h bs n (some (.returned (h.heapEnd + headerSize),
        { h' with memory := setBlockAllocated h'.memory h.heapEnd true }))

theorem kmalloc_outcome (rep : HeapRep h bs) (n : ℕ) (frames : Frames) :
    KmallocOutcome frames h bs n (kmalloc frames h n) := by
  unfold kmalloc
  by_cases zero : n = 0
  · rw [if_pos zero]
    exact .refused (Or.inl zero)
  rw [if_neg zero]
  by_cases huge : requestSize n > heapMaxSize
  · rw [if_pos huge]
    exact .refused (Or.inr huge)
  rw [if_neg huge]
  have bounded := Nat.le_of_not_gt huge
  have small := rep.small
  have length := rep.headers.length_le
  have tiles := rep.tiles
  have positive := rep.positive
  have search := search_cases (requestSize n) bs 0 h.heapStart (2 ^ 32) rep.headers rep.tiles
    rep.positive (by omega)
  rw [← rep.first] at search
  rcases search with found | ⟨front, b, back, rfl, free, fits, found⟩
  · obtain ⟨block, h', expanded, ⟨rfl, same, fails⟩ | ⟨grown, rfl, larger, start, shape, kept⟩⟩ :=
      expandHeap_spec rep.toHeapShape bounded frames
    · simp only [found, expanded, ne_eq, not_true_eq_false, if_false]
      exact .failed (by split <;> rfl) zero bounded same fails
    have nonzero : h.heapEnd ≠ 0 := by omega
    have address : u32 (h.heapEnd + headerSize) = h.heapEnd + headerSize :=
      u32_of_lt (by unfold headerSize; omega)
    simp only [found, expanded, ne_eq, not_true_eq_false, if_false, nonzero, not_false_eq_true,
      if_true, address]
    exact .grown larger start shape kept
  · have nonzero : h.heapStart + total HeapBlock.size front ≠ 0 := by omega
    have address : u32 (h.heapStart + total HeapBlock.size front + headerSize) =
        h.heapStart + total HeapBlock.size front + headerSize := by
      rw [total_append, total_cons] at tiles
      exact u32_of_lt (by unfold headerSize; omega)
    simp only [found, ne_eq, nonzero, not_false_eq_true, if_true, address]
    exact .found rfl free fits bounded

/-- `kmalloc` takes a block of the right size into use, or changes nothing. -/
theorem kmalloc_spec (rep : HeapRep h bs) (bounded : n ≤ 0xFFFFFFE8) (frames : Frames) :
    ∃ q h', kmalloc frames h n = some (q, h') ∧
      ((q.failed = true ∧ SameHeap h h') ∨ ∃ x b bs', q = .returned (x + headerSize) ∧
        n + headerSize ≤ b.size ∧ Allocates h h' bs bs' x b) := by
  have enough := requestSize_of_le bounded
  have outcome := kmalloc_outcome rep n frames
  generalize kmalloc frames h n = result at outcome ⊢
  cases outcome with
  | refused => exact ⟨_, h, rfl, Or.inl ⟨rfl, SameHeap.refl h⟩⟩
  | failed failed _ _ same => exact ⟨_, _, rfl, Or.inl ⟨failed, same⟩⟩
  | found split free fits limit =>
    subst split
    obtain ⟨c, bs', c_large, allocates⟩ := takeBlock_spec rep free fits (by omega) limit
    exact ⟨_, _, rfl, Or.inr ⟨_, c, bs', rfl, by omega, allocates⟩⟩
  | @grown _ grown larger start shape kept =>
    exact ⟨_, _, rfl, Or.inr ⟨h.heapEnd, ⟨grown, true⟩, _, rfl, by dsimp only; omega,
      takeAppended_spec rep start shape kept⟩⟩

/-! ## Release -/

/-- Writing inside the payloads of blocks in use leaves the heap as it is. -/
theorem HeapRep.write (rep : HeapRep h bs) (same : ∀ y, h.heapStart ≤ y → y < h.heapEnd →
      (∀ x b, UsedAt h.heapStart bs x b → ¬(x + headerSize ≤ y ∧ y < x + b.size)) →
        m y = h.memory y) : HeapRep { h with memory := m } bs := by
  refine ⟨rep.withMemory (rep.headers.frame fun x b mem y low high => ?_) rfl, rep.coalesced⟩
  have bounds := placed_bounds HeapBlock.size mem
  have large := (rep.apart mem mem).1
  have tiles := rep.tiles
  refine same y (by omega) (by omega) ?_
  rintro x' b' ⟨member', _⟩ inside
  obtain ⟨_, _, ⟨rfl, rfl⟩ | apart⟩ := rep.apart mem member' <;> omega

/-- The header of a block, read at its place. -/
theorem HeapShape.header (shape : HeapShape h bs)
    (mem : (x, b) ∈ placed HeapBlock.size h.heapStart bs) :
    (∃ prev, HeaderAt h.memory h.heapEnd prev x b) ∧ h.heapStart ≤ x ∧ x + b.size ≤ h.heapEnd := by
  have bounds := placed_bounds HeapBlock.size mem
  rw [shape.tiles] at bounds
  obtain ⟨front, back, rfl, rfl⟩ := (mem_placed HeapBlock.size).mp mem
  exact ⟨⟨_, (headers_append.mp shape.headers).2.1⟩, bounds⟩

/-- From a payload pointer back to the header. -/
theorem HeapShape.block_of_payload (shape : HeapShape h bs)
    (mem : (x, b) ∈ placed HeapBlock.size h.heapStart bs) :
    sub32 (x + headerSize) headerSize = x := by
  have bounds := (shape.header mem).2
  have large := (shape.apart mem mem).1
  have small := shape.small
  rw [sub32_of_le (by omega) (by omega)]
  omega

/-- Clearing the flag of one block takes that block away from those in use. -/
theorem usedAt_release (large : ∀ d ∈ front ++ b :: back, headerSize ≤ d.size) :
    UsedAt start (front ++ { b with used := false } :: back) y c ↔
      UsedAt start (front ++ b :: back) y c ∧ y ≠ start + total HeapBlock.size front := by
  have b_large := large b (by simp)
  unfold headerSize at large b_large
  rw [usedAt_append, usedAt_cons, usedAt_append, usedAt_cons]
  simp only [Bool.false_eq_true, and_false, false_or]
  constructor
  · rintro (inside | inside)
    · have bounds := placed_bounds HeapBlock.size inside.1
      obtain ⟨_, _, rfl, _⟩ := (mem_placed HeapBlock.size).mp inside.1
      have c_large := large c (by simp)
      exact ⟨Or.inl inside, by omega⟩
    · have bounds := placed_bounds HeapBlock.size inside.1
      exact ⟨Or.inr (Or.inr inside), by omega⟩
  · rintro ⟨inside | ⟨here, _⟩ | inside, elsewhere⟩
    · exact Or.inl inside
    · exact absurd here elsewhere
    · exact Or.inr inside

/-- The block at `x` was given back. -/
structure Frees (h h' : Heap) (bs bs' : List HeapBlock) (x : ℕ) : Prop where
  rep : HeapRep h' bs'
  heapStart : h'.heapStart = h.heapStart
  used : ∀ y c, UsedAt h.heapStart bs' y c ↔ UsedAt h.heapStart bs y c ∧ y ≠ x
  kept : UsedKept h.heapStart h.memory h'.memory bs'

/-- `kfree` gives a block in use back. -/
theorem kfree_spec (rep : HeapRep h bs) (used : UsedAt h.heapStart bs x b) :
    ∃ h' bs', kfree h (x + headerSize) = some h' ∧ Frees h h' bs bs' x := by
  obtain ⟨⟨prev, header⟩, low, high⟩ := rep.header used.1
  have block := rep.block_of_payload used.1
  have allocated : blockAllocated h.memory x = true := header.allocated.trans used.2
  have tiles := rep.tiles
  obtain ⟨front, back, rfl, rfl⟩ := (mem_placed HeapBlock.size).mp used.1
  have headers₀ := rep.headers.setAllocated false
  obtain ⟨front_coalesced, back_coalesced, _⟩ := coalesced_append_cons.mp rep.coalesced
  have tiles₀ : h.heapStart + total HeapBlock.size (front ++ { b with used := false } :: back) =
      h.heapEnd := by simpa using tiles
  obtain ⟨m', bs', merged, headers', tiles', coalesced', used', kept'⟩ :=
    mergeBlocks_spec headers₀ tiles₀ rep.small rep.positive rfl front_coalesced back_coalesced
  have freed : kfree h (h.heapStart + total HeapBlock.size front + headerSize) =
      some { h with memory := m' } := by
    simp only [kfree, payload_ne_zero, if_false, block, header.magic, ne_eq, not_true_eq_false,
      allocated, Bool.true_eq_false, merged]
  have used_iff : ∀ y c, UsedAt h.heapStart bs' y c ↔
      UsedAt h.heapStart (front ++ b :: back) y c ∧
        y ≠ h.heapStart + total HeapBlock.size front := fun y c =>
    (used' y c).trans (usedAt_release rep.headers.large)
  refine ⟨_, bs', freed, ⟨⟨rep.withMemory headers' ?_, coalesced'⟩, rfl, used_iff, ?_⟩⟩
  · omega
  intro y c still i low high
  obtain ⟨before, elsewhere⟩ := (used_iff y c).mp still
  refine (kept' y c still i low high).trans (store32_apply ?_ _ _)
  obtain ⟨b_large, _, ⟨here, _⟩ | apart⟩ := rep.apart used.1 before.1
  · exact absurd here.symm elsewhere
  · unfold headerSize at b_large
    omega

/-! ## Reallocation -/

theorem kmallocGetSize_eq (shape : HeapShape h bs)
    (mem : (x, b) ∈ placed HeapBlock.size h.heapStart bs) :
    kmallocGetSize h (x + headerSize) = b.size - headerSize := by
  obtain ⟨⟨prev, header⟩, low, high⟩ := shape.header mem
  have positive := shape.positive
  have small := shape.small
  simp only [kmallocGetSize, payload_ne_zero, if_false, shape.block_of_payload mem, header.magic,
    ne_eq, not_true_eq_false, header.size]
  exact sub32_of_le header.large (by omega)

/-- The block at `x` was exchanged for the block `c` at `y`, with its contents. -/
structure Moves (h h' : Heap) (bs bs' : List HeapBlock) (x y : ℕ) (b c : HeapBlock) : Prop where
  rep : HeapRep h' bs'
  heapStart : h'.heapStart = h.heapStart
  used : ∀ z d, UsedAt h.heapStart bs' z d ↔ (UsedAt h.heapStart bs z d ∧ z ≠ x) ∨ (z = y ∧ d = c)
  fresh : ∀ d, ¬UsedAt h.heapStart bs y d
  moved : ∀ i, headerSize ≤ i → i < b.size → h'.memory (y + i) = h.memory (x + i)

/-- The end of `krealloc`: copy the payload to the new block and free the old one. -/
theorem move_spec {h₁ : Heap} {bs₁ : List HeapBlock} (used : UsedAt h.heapStart bs x b)
    (allocates : Allocates h h₁ bs bs₁ y c) (b_large : headerSize ≤ b.size)
    (fits : b.size ≤ c.size) :
    ∃ h' bs',
      kfree { h₁ with
          memory := h₁.memory.copy (y + headerSize) (x + headerSize) (b.size - headerSize) }
        (x + headerSize) = some h' ∧ Moves h h' bs bs' x y b c := by
  obtain ⟨rep₁, start, used_iff, fresh, kept⟩ := allocates
  have used_x : UsedAt h₁.heapStart bs₁ x b := by
    rw [start]
    exact (used_iff x b).mpr (Or.inl used)
  have used_y : UsedAt h₁.heapStart bs₁ y c := by
    rw [start]
    exact (used_iff y c).mpr (Or.inr ⟨rfl, rfl⟩)
  have different : y ≠ x := by
    rintro rfl
    exact fresh b used
  have apart : x + b.size ≤ y ∨ y + c.size ≤ x := by
    obtain ⟨_, _, ⟨same, _⟩ | apart⟩ := rep₁.apart used_x.1 used_y.1
    · exact absurd same.symm different
    · exact apart
  have rep₂ : HeapRep { h₁ with
      memory := h₁.memory.copy (y + headerSize) (x + headerSize) (b.size - headerSize) } bs₁ := by
    refine rep₁.write fun z _ _ outside => copy_outside ?_ _
    have not_inside := outside y c used_y
    omega
  obtain ⟨h', bs', freed, frees⟩ := kfree_spec rep₂ used_x
  have used' : ∀ z d, UsedAt h.heapStart bs' z d ↔
      (UsedAt h.heapStart bs z d ∨ (z = y ∧ d = c)) ∧ z ≠ x := by
    intro z d
    have freed_iff := frees.used z d
    simp only [start] at freed_iff
    rw [freed_iff, used_iff]
  refine ⟨h', bs', freed, frees.rep, frees.heapStart.trans start, ?_, fresh, ?_⟩
  · intro z d
    rw [used' z d]
    constructor
    · rintro ⟨old | new, elsewhere⟩
      · exact Or.inl ⟨old, elsewhere⟩
      · exact Or.inr new
    · rintro (⟨old, elsewhere⟩ | ⟨rfl, rfl⟩)
      · exact ⟨Or.inl old, elsewhere⟩
      · exact ⟨Or.inr ⟨rfl, rfl⟩, different⟩
  · intro i low high
    have still : UsedAt h₁.heapStart bs' y c := by
      rw [start, used']
      exact ⟨Or.inr ⟨rfl, rfl⟩, different⟩
    have offset : ∀ z, z + i = z + headerSize + (i - headerSize) := fun z => by omega
    calc h'.memory (y + i)
        = h₁.memory.copy (y + headerSize) (x + headerSize) (b.size - headerSize) (y + i) :=
          frees.kept y c still i low (by omega)
      _ = h₁.memory (x + i) := by
          rw [offset y, offset x]
          exact copy_inside (by omega) (by omega) _
      _ = h.memory (x + i) := kept x b used i low high

/-- `krealloc` of a block in use. -/
theorem krealloc_spec (rep : HeapRep h bs) (used : UsedAt h.heapStart bs x b)
    (bounded : n ≤ 0xFFFFFFE8) (frames : Frames) :
    ∃ q h', krealloc frames h (x + headerSize) n = some (q, h') ∧
      ((n = 0 ∧ q = .returned 0 ∧ ∃ bs', Frees h h' bs bs' x) ∨
        (n ≠ 0 ∧ n + headerSize ≤ b.size ∧ q = .returned (x + headerSize) ∧ h' = h) ∨
        (n ≠ 0 ∧ q.failed = true ∧ SameHeap h h') ∨
        ∃ y c bs', n ≠ 0 ∧ q = .returned (y + headerSize) ∧ n + headerSize ≤ c.size ∧
          b.size < n + headerSize ∧ Moves h h' bs bs' x y b c) := by
  have get_size := kmallocGetSize_eq rep.toHeapShape used.1
  have b_large := (rep.apart used.1 used.1).1
  unfold krealloc
  simp only [payload_ne_zero, if_false, get_size]
  by_cases zero : n = 0
  · obtain ⟨h', bs', freed, frees⟩ := kfree_spec rep used
    exact ⟨_, h', by simp [zero, freed], Or.inl ⟨zero, rfl, bs', frees⟩⟩
  rw [if_neg zero]
  by_cases shrinks : n ≤ b.size - headerSize
  · exact ⟨_, h, if_pos shrinks, Or.inr (Or.inl ⟨zero, by omega, rfl, rfl⟩)⟩
  rw [if_neg shrinks]
  obtain ⟨q, h₁, allocated, ⟨failed, same⟩ | ⟨y, c, bs₁, rfl, c_large, allocates⟩⟩ :=
    kmalloc_spec rep bounded frames
  · refine ⟨q, h₁, ?_, Or.inr (Or.inr (Or.inl ⟨zero, failed, same⟩))⟩
    cases q <;> simp_all [Allocation.failed]
  simp only [allocated, payload_ne_zero, if_false]
  obtain ⟨h', bs', freed, moves⟩ := move_spec used allocates b_large (by omega)
  exact ⟨_, h', by rw [freed]; rfl,
    Or.inr (Or.inr (Or.inr ⟨y, c, bs', zero, rfl, c_large, by omega, moves⟩))⟩

end EduOS
