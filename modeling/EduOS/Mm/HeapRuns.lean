import EduOS.Mm.HeapOperations

/-!
# Sequences of heap calls

The kernel heap over whole runs: after `kmalloc_init`, any sequence of `kmalloc`,
`kzalloc`, `kfree` and `krealloc` in which only live payloads are freed or
reallocated, while the callers write into their payloads and the rest of the kernel
does what it likes outside the heap.

`heap_run_sound` is the structure of the heap, read off the headers in memory;
`heap_allocation_contract` is what an allocation promises.  Both need requests up to
`0xFFFFFFE8`: beyond that, rounding up and adding the header wraps around, and
`kmalloc` returns a block that is far too small.
-/

namespace EduOS

open List Option

/-! ## Calls -/

/-- The heap, with the payloads that were returned and not yet freed. -/
structure HeapRun where
  heap : Heap
  live : List ℕ

/-- The calls; `others` is everything that happens between them. -/
inductive HeapCall
  | kmalloc (frames : Frames) (size : ℕ)
  | kzalloc (frames : Frames) (size : ℕ)
  | kfree (ptr : ℕ)
  | krealloc (frames : Frames) (ptr newSize : ℕ)
  | others (memory : Bytes) (pmm : Pmm) (directory : ℕ → Bool) (mapping : ℕ → ℕ)

/-- A pointer that was returned becomes live. -/
def obtained : Allocation → List ℕ → List ℕ
  | .returned q, live => if q = 0 then live else q :: live
  | .panicked, live => live

/-- What is live after `krealloc(ptr, new_size)`: `ptr` is freed when something else was returned
for it, or on purpose. -/
def reobtained (ptr newSize : ℕ) (result : Allocation) (live : List ℕ) : List ℕ :=
  if ptr = 0 then obtained result live
  else if newSize ≠ 0 ∧ result.failed then live
  else obtained result (live.filter (· ≠ ptr))

/-- One call; a halted machine makes none. -/
def heapStep (r : HeapRun) (call : HeapCall) : Option HeapRun :=
  if r.heap.halted then some r
  else
    match call with
    | .kmalloc frames size =>
      (kmalloc frames r.heap size).map fun result => ⟨result.2, obtained result.1 r.live⟩
    | .kzalloc frames size =>
      (kzalloc frames r.heap size).map fun result => ⟨result.2, obtained result.1 r.live⟩
    | .kfree ptr => (kfree r.heap ptr).map fun h => ⟨h, r.live.filter (· ≠ ptr)⟩
    | .krealloc frames ptr newSize =>
      (krealloc frames r.heap ptr newSize).map fun result =>
        ⟨result.2, reobtained ptr newSize result.1 r.live⟩
    | .others memory pmm directory mapping =>
      some
        { r with
          heap :=
            { r.heap with memory := memory, pmm := pmm, directory := directory,
                          mapping := mapping } }

/-- Requests do not wrap around, only live payloads are freed or reallocated, and
inside the heap only the payloads are written. -/
def heapLegal (r : HeapRun) : HeapCall → Prop
  | .kmalloc _ size => size ≤ 0xFFFFFFE8
  | .kzalloc _ size => size ≤ 0xFFFFFFE8
  | .kfree ptr => ptr = 0 ∨ ptr ∈ r.live
  | .krealloc _ ptr newSize => newSize ≤ 0xFFFFFFE8 ∧ (ptr = 0 ∨ ptr ∈ r.live)
  | .others memory _ _ _ =>
    ∀ y, r.heap.heapStart ≤ y → y < r.heap.heapEnd →
      (∀ p ∈ r.live, ¬(p ≤ y ∧ y < p + kmallocGetSize r.heap p)) → memory y = r.heap.memory y

/-! ## What is promised -/

/-- The list from `p` through `next` visits exactly these blocks. -/
def Visits (m : Bytes) : ℕ → List ℕ → Prop
  | p, [] => p = 0
  | p, a :: rest => p ≠ 0 ∧ p = a ∧ Visits m (blockNext m a) rest

/-- The blocks on the list tile the heap: they are linked in both directions in the
order of their addresses, each begins where the one before it ends, and of two
neighbours one is allocated. -/
structure HeapSound (h : Heap) (blocks : List ℕ) : Prop where
  visits : Visits h.memory h.heapFirst blocks
  increasing : blocks.Pairwise (· < ·)
  empty : blocks = [] → h.heapStart = h.heapEnd
  first : ∀ a rest, blocks = a :: rest → a = h.heapStart ∧ blockPrev h.memory a = 0
  linked : ∀ front a b back, blocks = front ++ a :: b :: back →
    blockNext h.memory a = b ∧ b = a + blockSize h.memory a ∧ blockPrev h.memory b = a
  last : ∀ front a, blocks = front ++ [a] → a + blockSize h.memory a = h.heapEnd
  header : ∀ a ∈ blocks, blockMagic h.memory a = heapMagic ∧ headerSize ≤ blockSize h.memory a
  coalesced : ∀ front a b back, blocks = front ++ a :: b :: back →
    blockAllocated h.memory a = true ∨ blockAllocated h.memory b = true

/-- What holds of a pointer `q` returned for `n` bytes, next to other live payloads:
its block is large enough, and the bytes asked for belong to nobody else. -/
structure AllocationContract (h : Heap) (others : List ℕ) (q n : ℕ) : Prop where
  capacity : n + headerSize ≤ blockSize h.memory (q - headerSize)
  disjoint : ∀ p ∈ others, q + n ≤ p ∨ p + kmallocGetSize h p ≤ q

/-! ## From the blocks to the headers -/

/-- The addresses of the blocks. -/
def addresses (a : ℕ) (bs : List HeapBlock) : List ℕ := (placed HeapBlock.size a bs).map Prod.fst

theorem addresses_cons (a : ℕ) (b : HeapBlock) (bs : List HeapBlock) :
    addresses a (b :: bs) = a :: addresses (a + b.size) bs := rfl

variable {a x limit p n size q : ℕ} {bs bs' : List HeapBlock} {m : Bytes} {h h' : Heap}
    {live : List ℕ} {b : HeapBlock} {frames : Frames}

theorem mem_addresses : x ∈ addresses a bs ↔ ∃ b, (x, b) ∈ placed HeapBlock.size a bs := by
  simp [addresses]

variable {prev y start : ℕ} {c : HeapBlock}

theorem Headers.visits (headers : Headers m limit prev a bs)
    (tiles : a + total HeapBlock.size bs = limit) (positive : 0 < a) :
    Visits m (linkTo limit a) (addresses a bs) := by
  induction bs generalizing prev a with
  | nil =>
    rw [total_nil, Nat.add_zero] at tiles
    rw [tiles]
    exact linkTo_limit limit
  | cons b bs ih =>
    have large := headers.1.large
    unfold headerSize at large
    rw [total_cons] at tiles
    rw [linkTo_of_lt (by omega), addresses_cons]
    refine ⟨by omega, rfl, ?_⟩
    rw [headers.1.next]
    exact ih headers.2 (by omega) (by omega)

theorem Headers.increasing (headers : Headers m limit prev a bs) :
    (addresses a bs).Pairwise (· < ·) := by
  induction bs generalizing prev a with
  | nil => exact List.Pairwise.nil
  | cons b bs ih =>
    refine List.Pairwise.cons ?_ (ih headers.2)
    intro x mem
    obtain ⟨c, mem⟩ := mem_addresses.mp mem
    have bounds := placed_bounds HeapBlock.size mem
    have large := headers.1.large
    unfold headerSize at large
    omega

/-- Two blocks in a row. -/
theorem Headers.neighbours :
    ∀ (front : List ℕ) {prev a x y : ℕ} {back : List ℕ} {bs : List HeapBlock},
      Headers m limit prev a bs → a + total HeapBlock.size bs = limit → Coalesced bs →
      addresses a bs = front ++ x :: y :: back →
      (blockNext m x = y ∧ y = x + blockSize m x ∧ blockPrev m y = x) ∧
        (blockAllocated m x = true ∨ blockAllocated m y = true) := by
  intro front
  induction front with
  | nil =>
    intro prev a x y back bs headers tiles coalesced split
    obtain _ | ⟨b, _ | ⟨c, bs⟩⟩ := bs
    · simp [addresses] at split
    · simp [addresses] at split
    · obtain ⟨rfl, rfl, _⟩ := split
      obtain ⟨header, header', _⟩ := headers
      have large := header'.large
      unfold headerSize at large
      rw [total_cons, total_cons] at tiles
      refine ⟨⟨?_, ?_, header'.prev⟩, ?_⟩
      · rw [header.next, linkTo_of_lt (by omega)]
      · rw [header.size]
      · rw [header.allocated, header'.allocated]
        exact (isChain_cons_cons.mp coalesced).1
  | cons f front ih =>
    intro prev a x y back bs headers tiles coalesced split
    cases bs with
    | nil => simp [addresses] at split
    | cons b bs =>
      simp only [addresses_cons, cons_append, List.cons.injEq] at split
      rw [total_cons] at tiles
      exact ih headers.2 (by omega) coalesced.tail split.2

/-- The blocks of the heap, as the headers in memory show them. -/
theorem HeapRep.sound (rep : HeapRep h bs) : HeapSound h (addresses h.heapStart bs) where
  visits := by
    rw [rep.first]
    exact rep.headers.visits rep.tiles rep.positive
  increasing := rep.headers.increasing
  empty := by
    intro none
    have tiles := rep.tiles
    cases bs with
    | nil => simpa using tiles
    | cons b bs => simp [addresses_cons] at none
  first := by
    intro a rest split
    have headers := rep.headers
    cases bs with
    | nil => simp [addresses] at split
    | cons b bs =>
      obtain ⟨rfl, _⟩ := List.cons.inj split
      exact ⟨rfl, headers.1.prev⟩
  linked front a b back split :=
    (rep.headers.neighbours front rep.tiles rep.coalesced split).1
  last := by
    intro front a split
    rcases eq_nil_or_concat bs with rfl | ⟨bs, p, rfl⟩
    · simp [addresses] at split
    rw [concat_eq_append] at *
    have header := (headers_append.mp rep.headers).2.1
    have tiles := rep.tiles
    simp only [addresses, placed_append, placed_cons, placed_nil, map_append,
      map_cons, map_nil] at split
    obtain ⟨_, here⟩ := append_inj' split rfl
    obtain ⟨rfl, _⟩ := List.cons.inj here
    rw [header.size]
    simpa [Nat.add_assoc] using tiles
  header := by
    intro a mem
    obtain ⟨b, mem⟩ := mem_addresses.mp mem
    obtain ⟨⟨prev, header⟩, _⟩ := rep.toHeapShape.header mem
    exact ⟨header.magic, by rw [header.size]; exact header.large⟩
  coalesced front a b back split :=
    (rep.headers.neighbours front rep.tiles rep.coalesced split).2

/-! ## Every call keeps the heap -/

/-- The live payloads are those of the blocks in use. -/
def Owned (h : Heap) (live : List ℕ) (bs : List HeapBlock) : Prop :=
  ∀ p, p ∈ live ↔ ∃ x b, UsedAt h.heapStart bs x b ∧ p = x + headerSize

/-- The heap is made of blocks, of which the live ones are in use. -/
def HeapInv (r : HeapRun) : Prop := ∃ bs, HeapRep r.heap bs ∧ Owned r.heap r.live bs

theorem HeapRep.of_same (rep : HeapRep h bs) (same : SameHeap h h') : HeapRep h' bs :=
  ⟨rep.toHeapShape.of_same same, rep.coalesced⟩

section

variable (owned : Owned h live bs)
include owned

theorem Owned.of_start (start : h'.heapStart = h.heapStart) : Owned h' live bs := by
  intro p
  rw [start]
  exact owned p

theorem Owned.nonzero : 0 ∉ live := by
  intro mem
  obtain ⟨x, b, _, zero⟩ := (owned 0).mp mem
  exact payload_ne_zero x zero.symm

theorem Owned.obtain (allocates : Allocates h h' bs bs' x b) :
    Owned h' ((x + headerSize) :: live) bs' := by
  intro p
  rw [allocates.heapStart, mem_cons, owned p]
  constructor
  · rintro (rfl | ⟨y, c, used, rfl⟩)
    · exact ⟨x, b, (allocates.used x b).mpr (Or.inr ⟨rfl, rfl⟩), rfl⟩
    · exact ⟨y, c, (allocates.used y c).mpr (Or.inl used), rfl⟩
  · rintro ⟨y, c, used, rfl⟩
    rcases (allocates.used y c).mp used with old | ⟨rfl, _⟩
    · exact Or.inr ⟨y, c, old, rfl⟩
    · exact Or.inl rfl

theorem Owned.release (frees : Frees h h' bs bs' x) :
    Owned h' (live.filter (· ≠ x + headerSize)) bs' := by
  intro p
  rw [frees.heapStart, mem_filter, owned p, decide_eq_true_iff]
  constructor
  · rintro ⟨⟨y, c, used, rfl⟩, elsewhere⟩
    exact ⟨y, c, (frees.used y c).mpr ⟨used, by omega⟩, rfl⟩
  · rintro ⟨y, c, used, rfl⟩
    obtain ⟨old, elsewhere⟩ := (frees.used y c).mp used
    exact ⟨⟨y, c, old, rfl⟩, by omega⟩

theorem Owned.move (moves : Moves h h' bs bs' x y b c) :
    Owned h' ((y + headerSize) :: live.filter (· ≠ x + headerSize)) bs' := by
  intro p
  rw [moves.heapStart, mem_cons, mem_filter, owned p, decide_eq_true_iff]
  constructor
  · rintro (rfl | ⟨⟨z, d, used, rfl⟩, elsewhere⟩)
    · exact ⟨y, c, (moves.used y c).mpr (Or.inr ⟨rfl, rfl⟩), rfl⟩
    · exact ⟨z, d, (moves.used z d).mpr (Or.inl ⟨used, by omega⟩), rfl⟩
  · rintro ⟨z, d, used, rfl⟩
    rcases (moves.used z d).mp used with ⟨old, elsewhere⟩ | ⟨rfl, _⟩
    · exact Or.inr ⟨⟨z, d, old, rfl⟩, by omega⟩
    · exact Or.inl rfl

/-- A payload that is given out again in place of itself. -/
theorem Owned.replace (mem : p ∈ live) : Owned h (p :: live.filter (· ≠ p)) bs := by
  intro q
  rw [← owned q, mem_cons, mem_filter, decide_eq_true_iff]
  by_cases same : q = p
  · simp [same, mem]
  · simp [same]

/-- A live payload belongs to a block in use. -/
theorem Owned.block (mem : p ∈ live) :
    ∃ x b, UsedAt h.heapStart bs x b ∧ p = x + headerSize := (owned p).mp mem

end

section

variable (rep : HeapRep h bs) (owned : Owned h live bs)
include rep owned

omit rep owned in
theorem obtained_of_failed {result : Allocation} (failed : result.failed = true) :
    obtained result live = live := by
  cases result with
  | returned q => exact if_pos (failed_returned.mp failed)
  | panicked => rfl

theorem kmalloc_keeps (bounded : n ≤ 0xFFFFFFE8) (frames : Frames) :
    ∃ q h', kmalloc frames h n = some (q, h') ∧ HeapInv ⟨h', obtained q live⟩ := by
  obtain ⟨q, h', result, ⟨failed, same⟩ | ⟨x, b, bs', rfl, _, allocates⟩⟩ :=
    kmalloc_spec rep bounded frames
  · refine ⟨q, h', result, bs, rep.of_same same, ?_⟩
    rw [obtained_of_failed failed]
    exact owned.of_start same.heapStart
  · refine ⟨_, h', result, bs', allocates.rep, ?_⟩
    exact owned.obtain allocates

theorem kzalloc_keeps (bounded : n ≤ 0xFFFFFFE8) (frames : Frames) :
    ∃ q h', kzalloc frames h n = some (q, h') ∧ HeapInv ⟨h', obtained q live⟩ := by
  unfold kzalloc
  obtain ⟨q, h', result, ⟨failed, same⟩ | ⟨x, b, bs', rfl, large, allocates⟩⟩ :=
    kmalloc_spec rep bounded frames
  · refine ⟨q, h', ?_, bs, rep.of_same same, ?_⟩
    · cases q <;> simp_all [Allocation.failed]
    · rw [obtained_of_failed failed]
      exact owned.of_start same.heapStart
  refine ⟨.returned (x + headerSize), { h' with memory := h'.memory.fill (x + headerSize) 0 n },
    by simp only [result, payload_ne_zero, if_false], bs', ?_, ?_⟩
  · refine allocates.rep.write fun y _ _ outside => Bytes.fill_outside ?_ _
    have here := outside x b (by
      rw [allocates.heapStart]
      exact (allocates.used x b).mpr (Or.inr ⟨rfl, rfl⟩))
    omega
  · exact (owned.obtain allocates).of_start rfl

theorem kfree_keeps {ptr : ℕ} (legal : ptr = 0 ∨ ptr ∈ live) :
    ∃ h', kfree h ptr = some h' ∧ HeapInv ⟨h', live.filter (· ≠ ptr)⟩ := by
  rcases legal with rfl | mem
  · refine ⟨h, rfl, bs, rep, ?_⟩
    have all : live.filter (· ≠ 0) = live := by
      refine filter_eq_self.mpr fun p mem => decide_eq_true ?_
      rintro rfl
      exact owned.nonzero mem
    rw [all]
    exact owned
  · obtain ⟨x, b, used, rfl⟩ := owned.block mem
    obtain ⟨h', bs', result, frees⟩ := kfree_spec rep used
    exact ⟨h', result, bs', frees.rep, owned.release frees⟩

theorem krealloc_keeps {ptr : ℕ}
    (bounded : n ≤ 0xFFFFFFE8) (legal : ptr = 0 ∨ ptr ∈ live) (frames : Frames) :
    ∃ q h', krealloc frames h ptr n = some (q, h') ∧ HeapInv ⟨h', reobtained ptr n q live⟩ := by
  rcases legal with rfl | mem
  · exact kmalloc_keeps rep owned bounded frames
  obtain ⟨x, b, used, rfl⟩ := owned.block mem
  simp only [reobtained, payload_ne_zero, if_false]
  obtain ⟨q, h', result, ⟨zero, rfl, bs', frees⟩ | ⟨some_size, _, rfl, rfl⟩ |
    ⟨some_size, failed, same⟩ | ⟨y, c, bs', some_size, rfl, _, _, moves⟩⟩ :=
    krealloc_spec rep used bounded frames
  · refine ⟨_, h', result, bs', frees.rep, ?_⟩
    rw [if_neg (by simp [zero])]
    exact owned.release frees
  · refine ⟨_, h', result, bs, rep, ?_⟩
    rw [if_neg fun failed => payload_ne_zero x (failed_returned.mp failed.2)]
    exact owned.replace mem
  · refine ⟨q, h', result, bs, rep.of_same same, ?_⟩
    rw [if_pos ⟨some_size, failed⟩]
    exact owned.of_start same.heapStart
  · refine ⟨_, h', result, bs', moves.rep, ?_⟩
    rw [if_neg fun failed => payload_ne_zero y (failed_returned.mp failed.2)]
    exact owned.move moves

/-- Writing into live payloads, and anything outside the heap. -/
theorem others_keeps {memory : Bytes} (legal : ∀ y, h.heapStart ≤ y → y < h.heapEnd →
      (∀ p ∈ live, ¬(p ≤ y ∧ y < p + kmallocGetSize h p)) → memory y = h.memory y) (pmm : Pmm)
    (directory : ℕ → Bool) (mapping : ℕ → ℕ) :
    HeapInv ⟨{ h with memory := memory, pmm := pmm, directory := directory, mapping := mapping },
      live⟩ := by
  have written : HeapRep { h with memory := memory } bs := by
    refine rep.write fun y low high outside => legal y low high ?_
    rintro p mem ⟨above, below⟩
    obtain ⟨x, b, used, rfl⟩ := owned.block mem
    rw [kmallocGetSize_eq rep.toHeapShape used.1] at below
    exact outside x b used ⟨above, by omega⟩
  exact ⟨bs, written.of_same ⟨rfl, rfl, rfl, rfl, fun _ _ => rfl⟩, owned.of_start rfl⟩

end

theorem heapStep_keeps {r : HeapRun} {call : HeapCall} (inv : HeapInv r)
    (legal : heapLegal r call) : ∃ r', heapStep r call = some r' ∧ HeapInv r' := by
  unfold heapStep
  cases stopped : r.heap.halted with
  | true => exact ⟨r, rfl, inv⟩
  | false =>
    obtain ⟨bs, rep, owned⟩ := inv
    cases call with
    | kmalloc frames size =>
      obtain ⟨q, h', result, inv'⟩ := kmalloc_keeps rep owned legal frames
      exact ⟨_, by simp [result], inv'⟩
    | kzalloc frames size =>
      obtain ⟨q, h', result, inv'⟩ := kzalloc_keeps rep owned legal frames
      exact ⟨_, by simp [result], inv'⟩
    | kfree ptr =>
      obtain ⟨h', result, inv'⟩ := kfree_keeps rep owned legal
      exact ⟨_, by simp [result], inv'⟩
    | krealloc frames ptr newSize =>
      obtain ⟨q, h', result, inv'⟩ := krealloc_keeps rep owned legal.1 legal.2 frames
      exact ⟨_, by simp [result], inv'⟩
    | others memory pmm directory mapping =>
      exact ⟨_, rfl, others_keeps rep owned legal pmm directory mapping⟩

/-- `kmalloc_init` sets up an empty heap, or one with a single free block. -/
theorem kmallocInit_inv (aligned : start % pageSize = 0) (nonzero : start ≠ 0)
    (room : start + size + 2 ^ 21 < 2 ^ 32) (h : Heap) (frames : Frames) :
    ∃ h₀, kmallocInit frames h start size = some h₀ ∧ HeapInv ⟨h₀, []⟩ := by
  have limit : u32 (start + size) = start + size := u32_of_lt (by omega)
  have blank : HeapRep
      { h with heapStart := start, heapEnd := start, heapMax := u32 (start + size), heapFirst := 0 }
      [] := by
    refine ⟨⟨trivial, rfl, (linkTo_limit start).symm, Nat.pos_of_ne_zero nonzero, aligned, ?_, ?_⟩,
      List.IsChain.nil⟩ <;> dsimp only <;> omega
  unfold kmallocInit
  dsimp only
  obtain ⟨block, h₀, expanded, ⟨_, same, _⟩ | ⟨grown, _, _, _, shape, _⟩⟩ :=
    expandHeap_spec blank.toHeapShape (by decide : pageSize * 16 ≤ heapMaxSize) frames
  · refine ⟨h₀, by rw [expanded]; rfl, [], blank.of_same same, ?_⟩
    simp [Owned, UsedAt]
  · refine ⟨h₀, by rw [expanded]; rfl, [⟨grown, false⟩], ⟨shape, isChain_singleton _⟩, ?_⟩
    simp [Owned, UsedAt]

/-- Every legal sequence of calls returns, in a heap that is described by its blocks. -/
theorem heapRun_inv (aligned : start % pageSize = 0) (nonzero : start ≠ 0)
    (room : start + size + 2 ^ 21 < 2 ^ 32) (h : Heap) (frames : Frames) :
    ∃ h₀, kmallocInit frames h start size = some h₀ ∧
      ∀ calls, Allowed heapStep heapLegal ⟨h₀, []⟩ calls →
        ∃ r, exec heapStep ⟨h₀, []⟩ calls = some r ∧ HeapInv r := by
  obtain ⟨h₀, init, inv⟩ := kmallocInit_inv aligned nonzero room h frames
  exact ⟨h₀, init, fun calls legal =>
    exec_total HeapInv (fun _ _ inv legal => heapStep_keeps inv legal) calls _ inv legal⟩

/-! ## The structure of the heap -/

/-- **The kernel heap stays whole.**  After `kmalloc_init` on a page-aligned range
that does not begin at address 0, every sequence of calls returns, and the blocks on
the list tile the heap. -/
theorem heap_run_sound (start size : ℕ) (aligned : start % pageSize = 0) (nonzero : start ≠ 0)
    (room : start + size + 2 ^ 21 < 2 ^ 32) (h : Heap) (frames : Frames) :
    ∃ h₀, kmallocInit frames h start size = some h₀ ∧
      ∀ calls, Allowed heapStep heapLegal ⟨h₀, []⟩ calls →
        ∃ r, exec heapStep ⟨h₀, []⟩ calls = some r ∧ ∃ blocks, HeapSound r.heap blocks := by
  obtain ⟨h₀, init, runs⟩ := heapRun_inv aligned nonzero room h frames
  refine ⟨h₀, init, fun calls legal => ?_⟩
  obtain ⟨r, run, bs, rep, _⟩ := runs calls legal
  exact ⟨r, run, _, rep.sound⟩

/-- A machine with 64 frames of memory, for the runs below. -/
def smallMachine : Heap where
  heapStart := 0
  heapEnd := 0
  heapMax := 0
  heapFirst := 0
  memory := fun _ => 0
  pmm := { pmmAllUsed 0x40000 0 0 with bitmap := Words.zero.set 0 }
  directory := fun _ => false
  mapping := fun _ => 0
  halted := false

def zeroFrames : Frames := fun _ _ => 0

/-- A heap of up to 1 MiB on it. -/
abbrev smallHeap : Option Heap := kmallocInit zeroFrames smallMachine 0xD0000000 0x100000

/-- Two blocks are taken and the first one is given back. -/
theorem heap_run_sound_two_blocks :
    ∃ h₀ r, smallHeap = some h₀ ∧
      exec heapStep ⟨h₀, []⟩
        [.kmalloc zeroFrames 100, .kzalloc zeroFrames 50, .kfree 0xD0000014] = some r ∧
      ∃ blocks, HeapSound r.heap blocks := by
  have taken : (smallHeap.bind fun h =>
      exec heapStep ⟨h, []⟩ [.kmalloc zeroFrames 100, .kzalloc zeroFrames 50]).map HeapRun.live =
        some [0xD0000090, 0xD0000014] := by decide +kernel
  obtain ⟨h₀, (init : smallHeap = _), runs⟩ :=
    heap_run_sound 0xD0000000 0x100000 (by decide) (by decide) (by decide) smallMachine zeroFrames
  rw [init, bind_some] at taken
  obtain ⟨r, run, sound⟩ := runs
    [.kmalloc zeroFrames 100, .kzalloc zeroFrames 50, .kfree 0xD0000014] <| by
      refine ⟨(by decide : 100 ≤ 0xFFFFFFE8), fun r₁ first => ⟨(by decide : 50 ≤ 0xFFFFFFE8),
        fun r₂ second => ⟨Or.inr ?_, fun _ _ => trivial⟩⟩⟩
      rw [exec_cons, first, bind_some, exec_cons, second] at taken
      rw [Option.some.inj taken]
      decide
  exact ⟨h₀, r, init, run, sound⟩

/-- A heap that begins at address 0: its first block has the address `NULL`, so it is
not on the list, and nothing tiles the range up to `heap_end`. -/
theorem heap_at_zero_unsound :
    ∃ h₀, kmallocInit zeroFrames smallMachine 0 0x100000 = some h₀ ∧
      ¬∃ blocks, HeapSound h₀ blocks := by
  have state : (kmallocInit zeroFrames smallMachine 0 0x100000).map
      (fun h => (h.heapFirst, h.heapStart, h.heapEnd)) = some (0, 0, 0x11000) := by decide +kernel
  obtain ⟨h₀, init, values⟩ := map_eq_some_iff.mp state
  simp only [Prod.mk.injEq] at values
  refine ⟨h₀, init, ?_⟩
  rintro ⟨blocks, sound⟩
  cases blocks with
  | nil =>
    have same := sound.empty rfl
    omega
  | cons a rest => exact sound.visits.1 values.1

/-- **No memory is lost**: when everything has been freed, one free block is the whole heap. -/
theorem heap_freed_whole (start size : ℕ) (aligned : start % pageSize = 0) (nonzero : start ≠ 0)
    (room : start + size + 2 ^ 21 < 2 ^ 32) (h : Heap) (frames : Frames) :
    ∃ h₀, kmallocInit frames h start size = some h₀ ∧
      ∀ calls, Allowed heapStep heapLegal ⟨h₀, []⟩ calls →
        ∃ r, exec heapStep ⟨h₀, []⟩ calls = some r ∧
          (r.live = [] → ∃ bs, HeapRep r.heap bs ∧ bs.length ≤ 1 ∧ ∀ b ∈ bs, b.used = false) := by
  obtain ⟨h₀, init, runs⟩ := heapRun_inv aligned nonzero room h frames
  refine ⟨h₀, init, fun calls legal => ?_⟩
  obtain ⟨r, run, bs, rep, owned⟩ := runs calls legal
  refine ⟨r, run, fun freed => ?_⟩
  have unused : ∀ b ∈ bs, b.used = false := by
    intro b mem
    obtain ⟨front, back, rfl⟩ := append_of_mem mem
    rw [← Bool.not_eq_true]
    intro used
    have live := (owned _).mpr ⟨_, b, ⟨(mem_placed _).mpr ⟨front, back, rfl, rfl⟩, used⟩, rfl⟩
    simp [freed] at live
  refine ⟨bs, rep, ?_, unused⟩
  obtain _ | ⟨b, _ | ⟨c, bs⟩⟩ := bs
  · exact Nat.zero_le 1
  · exact le_rfl
  · have apart := (isChain_cons_cons.mp rep.coalesced).1
    simp [unused] at apart

/-- A block is taken and given back. -/
theorem heap_freed_whole_one :
    ∃ h₀ r bs, smallHeap = some h₀ ∧
      exec heapStep ⟨h₀, []⟩ [.kmalloc zeroFrames 100, .kfree 0xD0000014] = some r ∧
      HeapRep r.heap bs ∧ bs.length ≤ 1 := by
  have lives : (smallHeap.bind fun h =>
      (heapStep ⟨h, []⟩ (.kmalloc zeroFrames 100)).bind fun r₁ =>
        (heapStep r₁ (.kfree 0xD0000014)).map fun r => (r₁.live, r.live)) =
          some ([0xD0000014], []) := by
    decide +kernel
  obtain ⟨h₀, (init : smallHeap = _), runs⟩ :=
    heap_freed_whole 0xD0000000 0x100000 (by decide) (by decide) (by decide) smallMachine zeroFrames
  rw [init, bind_some] at lives
  obtain ⟨r₁, first, lives⟩ := bind_eq_some_iff.mp lives
  obtain ⟨r', second, lives⟩ := map_eq_some_iff.mp lives
  obtain ⟨live, none_live⟩ := Prod.mk.inj lives
  obtain ⟨r, run, whole⟩ := runs [.kmalloc zeroFrames 100, .kfree 0xD0000014] <| by
    simp [Allowed, heapLegal, first, live]
  obtain rfl : r' = r := by simpa [exec, first, second] using run
  obtain ⟨bs, rep, few, -⟩ := whole none_live
  exact ⟨h₀, r', bs, init, run, rep, few⟩

/-! ## The allocation contract -/

/-- The capacity of a block in use, as `kmalloc_get_size` reads it. -/
theorem HeapRep.apart_payloads (rep : HeapRep h bs)
    (left : UsedAt h.heapStart bs x b) (right : UsedAt h.heapStart bs y c) (different : x ≠ y)
    (fits : n + headerSize ≤ b.size) :
    x + headerSize + n ≤ y + headerSize ∨
      y + headerSize + kmallocGetSize h (y + headerSize) ≤ x + headerSize := by
  obtain ⟨_, c_large, ⟨same, _⟩ | apart⟩ := rep.apart left.1 right.1
  · exact absurd same different
  · rw [kmallocGetSize_eq rep.toHeapShape right.1]
    omega

/-- The contract, for a block in use that is large enough. -/
theorem HeapRep.contract (rep : HeapRep h bs) {others : List ℕ} (used : UsedAt h.heapStart bs x b)
    (fits : n + headerSize ≤ b.size)
    (owned : ∀ p ∈ others, ∃ y c, UsedAt h.heapStart bs y c ∧ y ≠ x ∧ p = y + headerSize) :
    AllocationContract h others (x + headerSize) n where
  capacity := by
    obtain ⟨⟨prev, header⟩, _⟩ := rep.toHeapShape.header used.1
    rw [Nat.add_sub_cancel, header.size]
    exact fits
  disjoint := by
    intro p mem
    obtain ⟨y, c, used', different, rfl⟩ := owned p mem
    exact rep.apart_payloads used used' different.symm fits

theorem kmalloc_contract (rep : HeapRep h bs) (owned : Owned h live bs) (bounded : n ≤ 0xFFFFFFE8)
    (result : kmalloc frames h n = some (.returned q, h')) (nonzero : q ≠ 0) :
    AllocationContract h' live q n := by
  obtain ⟨q', h'', result', ⟨failed, _⟩ | ⟨x, b, bs', rfl, large, allocates⟩⟩ :=
    kmalloc_spec rep bounded frames
  · cases Option.mem_unique result result'
    exact absurd (failed_returned.mp failed) nonzero
  cases Option.mem_unique result result'
  obtain ⟨rep', start, used, fresh, _⟩ := allocates
  refine rep'.contract (by rw [start, used]; exact Or.inr ⟨rfl, rfl⟩) large ?_
  intro p mem
  obtain ⟨y, c, used', rfl⟩ := owned.block mem
  refine ⟨y, c, by rw [start, used]; exact Or.inl used', ?_, rfl⟩
  rintro rfl
  exact fresh c used'

theorem krealloc_contract (rep : HeapRep h bs) (owned : Owned h live bs) (mem : p ∈ live)
    (bounded : n ≤ 0xFFFFFFE8) (result : krealloc frames h p n = some (.returned q, h'))
    (nonzero : q ≠ 0) :
    AllocationContract h' (live.filter (· ≠ p)) q n ∧
      ∀ i, i < min (kmallocGetSize h p) n → h'.memory (q + i) = h.memory (p + i) := by
  obtain ⟨x, b, used, rfl⟩ := owned.block mem
  have elsewhere : ∀ p ∈ live.filter (· ≠ x + headerSize),
      ∃ y c, UsedAt h.heapStart bs y c ∧ y ≠ x ∧ p = y + headerSize := by
    intro p kept
    obtain ⟨old, different⟩ := mem_filter.mp kept
    obtain ⟨y, c, used', rfl⟩ := owned.block old
    refine ⟨y, c, used', ?_, rfl⟩
    rintro rfl
    simp at different
  obtain ⟨q', h'', result', cases⟩ := krealloc_spec rep used bounded frames
  cases Option.mem_unique result result'
  rcases cases with ⟨_, ⟨⟩, _⟩ | ⟨_, fits, ⟨⟩, rfl⟩ | ⟨_, failed, _⟩ |
    ⟨y, c, bs', _, ⟨⟩, fits, smaller, moves⟩
  · exact absurd rfl nonzero
  · exact ⟨rep.contract used fits elsewhere, fun _ _ => rfl⟩
  · exact absurd (failed_returned.mp failed) nonzero
  · obtain ⟨rep', start, used_iff, fresh, moved⟩ := moves
    refine ⟨rep'.contract (by rw [start, used_iff]; exact Or.inr ⟨rfl, rfl⟩) fits ?_, ?_⟩
    · intro p kept
      obtain ⟨z, d, used', different, rfl⟩ := elsewhere p kept
      refine ⟨z, d, by rw [start, used_iff]; exact Or.inl ⟨used', different⟩, ?_, rfl⟩
      rintro rfl
      exact fresh d used'
    · intro i lt
      rw [kmallocGetSize_eq rep.toHeapShape used.1] at lt
      have moved_i := moved (headerSize + i) (by omega) (by omega)
      rw [← Nat.add_assoc, ← Nat.add_assoc] at moved_i
      exact moved_i

/-! ## Requests that wrap around -/

/-- `split_block` leaves the size it was asked for, or the block as it was. -/
theorem splitBlock_size (small : size < 2 ^ 32) :
    blockSize (splitBlock m x size) x = size ∨ splitBlock m x size = m := by
  unfold splitBlock
  split
  · exact Or.inr rfl
  · exact Or.inl (Bytes.load32_store32_self small ..)

/-- A request that wraps around gets a block that is too small for it. -/
theorem kmalloc_wrapped (rep : HeapRep h bs) (wraps : 0xFFFFFFE8 < n) (small : n < 2 ^ 32)
    (result : kmalloc frames h n = some (.returned q, h')) (nonzero : q ≠ 0) :
    blockSize h'.memory (q - headerSize) < n + headerSize := by
  have outcome := kmalloc_outcome rep n frames
  rw [result] at outcome
  cases outcome with
  | refused => exact absurd rfl nonzero
  | failed failed => exact absurd (failed_returned.mp failed) nonzero
  | @grown h₁ grown larger start shape =>
    have mem : (h.heapEnd, (⟨grown, false⟩ : HeapBlock)) ∈
        placed HeapBlock.size h₁.heapStart (bs ++ [⟨grown, false⟩]) :=
      (mem_placed HeapBlock.size).mpr ⟨bs, [], rfl, by rw [start, rep.tiles]⟩
    obtain ⟨⟨prev, header⟩, _, below⟩ := shape.header mem
    have limit := shape.small
    have size_eq : blockSize (setBlockAllocated h₁.memory h.heapEnd true) h.heapEnd = grown :=
      (Bytes.load32_store32 (by omega) ..).trans header.size
    rw [Nat.add_sub_cancel, size_eq]
    dsimp only at below
    omega
  | found split =>
    subst split
    have header := (headers_append.mp rep.headers).2.1
    have limit := rep.small
    have tiles := rep.tiles
    rw [total_append, total_cons] at tiles
    have request_small : requestSize n < 2 ^ 32 := u32_lt _
    rw [Nat.add_sub_cancel]
    rcases splitBlock_size request_small with split | whole
    · rw [split]
      omega
    · rw [whole, (header.setAllocated true).size]
      dsimp only
      omega

/-- **The allocation contract.**  In every state that a legal sequence of calls
reaches, an allocation of `n` bytes by `kmalloc` that returns a pointer keeps the
contract exactly if `n` is at most `0xFFFFFFE8`; for such `n`, `kmalloc` and `krealloc`
return, and `krealloc` keeps the contract and the contents. -/
theorem heap_allocation_contract (start size : ℕ) (aligned : start % pageSize = 0)
    (nonzero : start ≠ 0) (room : start + size + 2 ^ 21 < 2 ^ 32) (h : Heap) (frames₀ : Frames) :
    ∃ h₀, kmallocInit frames₀ h start size = some h₀ ∧
      ∀ calls, Allowed heapStep heapLegal ⟨h₀, []⟩ calls →
        ∃ r, exec heapStep ⟨h₀, []⟩ calls = some r ∧
          (∀ frames n, n < 2 ^ 32 → ∀ q h', kmalloc frames r.heap n = some (.returned q, h') →
            q ≠ 0 → (AllocationContract h' r.live q n ↔ n ≤ 0xFFFFFFE8)) ∧
          (∀ frames n, n ≤ 0xFFFFFFE8 → ∃ q h', kmalloc frames r.heap n = some (q, h')) ∧
          ∀ frames p n, p ∈ r.live → n ≤ 0xFFFFFFE8 →
            ∃ result h', krealloc frames r.heap p n = some (result, h') ∧
              ∀ q, result = .returned q → q ≠ 0 →
                AllocationContract h' (r.live.filter (· ≠ p)) q n ∧
                  ∀ i, i < min (kmallocGetSize r.heap p) n →
                    h'.memory (q + i) = r.heap.memory (p + i) := by
  obtain ⟨h₀, init, runs⟩ := heapRun_inv aligned nonzero room h frames₀
  refine ⟨h₀, init, fun calls legal => ?_⟩
  obtain ⟨r, run, bs, rep, owned⟩ := runs calls legal
  refine ⟨r, run, ?_, ?_, ?_⟩
  · intro frames n small q h' result returned
    constructor
    · intro contract
      by_contra wraps
      have too_small := kmalloc_wrapped rep (Nat.lt_of_not_le wraps) small result returned
      have capacity := contract.capacity
      omega
    · intro bounded
      exact kmalloc_contract rep owned bounded result returned
  · intro frames n bounded
    obtain ⟨q, h', result, _⟩ := kmalloc_spec rep bounded frames
    exact ⟨q, h', result⟩
  · intro frames p n member bounded
    obtain ⟨q, h', result, _⟩ := krealloc_keeps rep owned bounded (Or.inr member) frames
    refine ⟨q, h', result, ?_⟩
    rintro q rfl returned
    exact krealloc_contract rep owned member bounded result returned

/-- A payload is moved behind another live one, with its contents. -/
theorem heap_allocation_contract_moved :
    ∃ h₀ r, smallHeap = some h₀ ∧
      exec heapStep ⟨h₀, []⟩ [.kmalloc zeroFrames 100, .kmalloc zeroFrames 50] = some r ∧
      ∃ h', krealloc zeroFrames r.heap 0xD0000014 300 = some (.returned 0xD00000DC, h') ∧
        AllocationContract h' (r.live.filter (· ≠ 0xD0000014)) 0xD00000DC 300 := by
  have evaluated : (smallHeap.bind fun h =>
      (exec heapStep ⟨h, []⟩ [.kmalloc zeroFrames 100, .kmalloc zeroFrames 50]).bind fun r =>
        (krealloc zeroFrames r.heap 0xD0000014 300).map fun result => (r.live, result.1)) =
        some ([0xD0000090, 0xD0000014], .returned 0xD00000DC) := by decide +kernel
  obtain ⟨h₀, (init : smallHeap = _), runs⟩ :=
    heap_allocation_contract 0xD0000000 0x100000 (by decide) (by decide) (by decide) smallMachine
      zeroFrames
  obtain ⟨r, run, _, _, reallocated⟩ := runs [.kmalloc zeroFrames 100, .kmalloc zeroFrames 50]
    ⟨(by decide : 100 ≤ 0xFFFFFFE8), fun _ _ => ⟨(by decide : 50 ≤ 0xFFFFFFE8), fun _ _ => trivial⟩⟩
  rw [init, bind_some, run, bind_some] at evaluated
  obtain ⟨⟨q, h'⟩, moved, values⟩ := map_eq_some_iff.mp evaluated
  obtain ⟨live_eq, rfl⟩ := Prod.mk.inj values
  obtain ⟨q, h'', moved', kept⟩ := reallocated zeroFrames 0xD0000014 300
    (by rw [live_eq]; decide) (by decide)
  obtain ⟨rfl, rfl⟩ := Prod.mk.inj (mem_unique moved moved')
  exact ⟨h₀, r, init, run, h', moved, (kept _ rfl (by decide)).1⟩

/-- A request of `0xFFFFFFF9` bytes wraps around to nothing but a header: it is
granted, with a payload of no bytes at all. -/
theorem heap_allocation_wraps :
    ∃ h₀ h', smallHeap = some h₀ ∧
      kmalloc zeroFrames h₀ 0xFFFFFFF9 = some (.returned 0xD0000014, h') ∧
      blockSize h'.memory 0xD0000000 - headerSize = 0 ∧
      ¬AllocationContract h' [] 0xD0000014 0xFFFFFFF9 := by
  have evaluated : (smallHeap.bind fun h =>
      (kmalloc zeroFrames h 0xFFFFFFF9).map fun result =>
        (result.1, blockSize result.2.memory 0xD0000000)) = some (.returned 0xD0000014, 20) := by
    decide +kernel
  obtain ⟨h₀, init, rest⟩ := bind_eq_some_iff.mp evaluated
  obtain ⟨⟨q, h'⟩, granted, values⟩ := map_eq_some_iff.mp rest
  obtain ⟨rfl, size⟩ := Prod.mk.inj values
  refine ⟨h₀, h', init, granted, by rw [size]; rfl, fun contract => ?_⟩
  have capacity := contract.capacity
  rw [show 0xD0000014 - headerSize = 0xD0000000 from rfl, size] at capacity
  exact absurd capacity (by decide)

/-! ## Failed requests -/

/-- The heap, the frames and the mappings are as before. -/
structure HeapUnchanged (h h' : Heap) : Prop extends SameHeap h h' where
  bitmap : h'.pmm.bitmap = h.pmm.bitmap
  usedFrames : h'.pmm.usedFrames = h.pmm.usedFrames
  directory : h'.directory = h.directory
  mapping : h'.mapping = h.mapping

theorem HeapUnchanged.refl (h : Heap) : HeapUnchanged h h := ⟨.refl h, rfl, rfl, rfl, rfl⟩

/-- The request is turned down before a frame is allocated for it. -/
def TurnedDown (h : Heap) (n : ℕ) : Prop :=
  n = 0 ∨ heapMaxSize < requestSize n ∨
    h.heapMax < u32 (h.heapEnd + alignUp (u32 (requestSize n + headerSize)) (2 ^ 12)) ∨
    ∀ f < h.pmm.totalFrames, h.pmm.testBit f = true

theorem expandPage_used {i f : ℕ}
    (pass : expandPage frames i h = Sum.inl h' ∨ expandPage frames i h = Sum.inr h')
    (used : (pmmAllocFrame h.pmm).2.testBit f = true) : h'.pmm.testBit f = true := by
  rcases expandPage_eq pass with rfl | rfl
  · exact used
  unfold vmmMapPage vmmPageTable
  dsimp only
  split_ifs
  · exact used
  · exact used
  all_goals exact pmmAllocFrame_used used

/-- The page loop fails at once, or leaves a frame that it has allocated. -/
theorem expandPages_failed {pages : ℕ} (failed : scan (expandPage frames) 0 pages h = Sum.inr h') :
    ((∀ f < h.pmm.totalFrames, h.pmm.testBit f = true) ∧ h' = h) ∨
      ∃ f < h.pmm.totalFrames, h.pmm.testBit f = false ∧ h'.pmm.testBit f = true := by
  rcases pmmAllocFrame_cases h.pmm with ⟨f, inside, free, -, taken⟩ | ⟨full, taken⟩
  · have step : ∀ i h₁ h₂, (h₁ = h ∨ h₁.pmm.testBit f = true) →
        (expandPage frames i h₁ = Sum.inl h₂ ∨ expandPage frames i h₁ = Sum.inr h₂) →
        h₂.pmm.testBit f = true := by
      intro i h₁ h₂ seen pass
      refine expandPage_used pass ?_
      rcases seen with rfl | used
      · rw [taken, testBit_taken]
        simp
      · exact pmmAllocFrame_used used
    have pages_used := scan_rule (expandPage frames) (fun _ h₁ => h₁ = h ∨ h₁.pmm.testBit f = true)
      (fun h₁ => h₁.pmm.testBit f = true) pages
      (fun i h₁ h₂ _ seen pass => Or.inr (step i h₁ h₂ seen (Or.inl pass)))
      (fun i h₁ h₂ _ seen pass => step i h₁ h₂ seen (Or.inr pass)) pages 0 h (Nat.zero_add _)
      (Or.inl rfl)
    rw [failed] at pages_used
    obtain ⟨_, mapped, _⟩ | ⟨_, same, used⟩ := pages_used
    · cases mapped
    · cases same
      exact Or.inr ⟨f, inside, free, used⟩
  · cases pages with
    | zero => cases failed
    | succ pages =>
      have first : expandPage frames 0 h = Sum.inr h := by simp [expandPage, taken]
      rw [scan_succ, first] at failed
      exact Or.inl ⟨full, (Sum.inr.inj failed).symm⟩

theorem kmalloc_unchanged_iff (rep : HeapRep h bs) {result : Allocation}
    (ran : kmalloc frames h n = some (result, h')) (failed : result.failed = true) :
    HeapUnchanged h h' ↔ TurnedDown h n := by
  have outcome := kmalloc_outcome rep n frames
  rw [ran] at outcome
  cases outcome with
  | refused why => exact iff_of_true (.refl h) (why.imp_right Or.inl)
  | found | grown => exact absurd (failed_returned.mp failed) (payload_ne_zero _)
  | failed _ some_size bounded _ fails =>
    unfold ExpandFails at fails
    dsimp only at fails
    split_ifs at fails with beyond
    · subst fails
      exact iff_of_true (.refl _) (Or.inr (Or.inr (Or.inl beyond)))
    rcases expandPages_failed fails with ⟨full, rfl⟩ | ⟨f, inside, free, used⟩
    · exact iff_of_true (.refl _) (Or.inr (Or.inr (Or.inr full)))
    refine iff_of_false (fun unchanged => ?_) ?_
    · rw [Pmm.testBit, unchanged.bitmap] at used
      exact absurd (used.symm.trans free) (by simp)
    rintro (zero | huge | limit | full)
    · exact some_size zero
    · exact Nat.not_lt.mpr bounded huge
    · exact beyond limit
    · exact absurd ((full f inside).symm.trans free) (by simp)

/-- **A request that fails** leaves everything as it was exactly if it is turned down before a
frame is allocated for it: the frames that were allocated before one was missing are kept. -/
theorem kmalloc_failure_iff (start size : ℕ) (aligned : start % pageSize = 0) (nonzero : start ≠ 0)
    (room : start + size + 2 ^ 21 < 2 ^ 32) (h : Heap) (frames₀ : Frames) :
    ∃ h₀, kmallocInit frames₀ h start size = some h₀ ∧
      ∀ calls, Allowed heapStep heapLegal ⟨h₀, []⟩ calls →
        ∃ r, exec heapStep ⟨h₀, []⟩ calls = some r ∧
          ∀ frames n result h', kmalloc frames r.heap n = some (result, h') →
            result.failed = true → (HeapUnchanged r.heap h' ↔ TurnedDown r.heap n) := by
  obtain ⟨h₀, init, runs⟩ := heapRun_inv aligned nonzero room h frames₀
  refine ⟨h₀, init, fun calls legal => ?_⟩
  obtain ⟨r, run, bs, rep, _⟩ := runs calls legal
  exact ⟨r, run, fun _ _ _ _ ran failed => kmalloc_unchanged_iff rep ran failed⟩

/-- A request for more than 1 MiB. -/
theorem kmalloc_failure_huge :
    ∃ h₀ h', smallHeap = some h₀ ∧
      kmalloc zeroFrames h₀ 0x100000 = some (.returned 0, h') ∧ HeapUnchanged h₀ h' := by
  obtain ⟨h₀, (init : smallHeap = _), runs⟩ :=
    kmalloc_failure_iff 0xD0000000 0x100000 (by decide) (by decide) (by decide) smallMachine
      zeroFrames
  obtain ⟨r, run, failed⟩ := runs [] trivial
  cases run
  have refused : kmalloc zeroFrames h₀ 0x100000 = some (.returned 0, h₀) :=
    (if_neg (by decide)).trans (if_pos (by decide))
  exact ⟨h₀, h₀, init, refused, (failed _ _ _ _ refused rfl).mpr (Or.inr (Or.inl (by decide)))⟩

/-- A request for 256 KiB, with 45 frames left. -/
theorem kmalloc_failure_keeps_frames :
    ∃ h₀ h', smallHeap = some h₀ ∧
      kmalloc zeroFrames h₀ 0x40000 = some (.returned 0, h') ∧ h'.halted = false ∧
      h'.pmm.usedFrames = h₀.pmm.usedFrames + 45 ∧ ¬HeapUnchanged h₀ h' := by
  have evaluated : (smallHeap.bind fun h =>
      (kmalloc zeroFrames h 0x40000).map fun result =>
        (result.1, result.2.halted, decide (result.2.pmm.usedFrames = h.pmm.usedFrames + 45))) =
        some (.returned 0, false, true) := by
    decide +kernel
  obtain ⟨h₀, init, rest⟩ := bind_eq_some_iff.mp evaluated
  obtain ⟨⟨q, h'⟩, failed, values⟩ := map_eq_some_iff.mp rest
  simp only [Prod.mk.injEq, decide_eq_true_eq] at values
  obtain ⟨rfl, running, more⟩ := values
  refine ⟨h₀, h', init, failed, running, more, fun unchanged => ?_⟩
  have same := unchanged.usedFrames
  omega

end EduOS
