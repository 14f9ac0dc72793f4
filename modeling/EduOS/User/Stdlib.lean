import EduOS.Library.Word

/-!
# The heap of user programs

`malloc`, `calloc` and `realloc` of `user/libc/stdlib/stdlib.c`.  Blocks are cut off the front of
one array and never given back.  Rounding, the test for room and the product of `calloc` are
32-bit arithmetic.
-/

namespace EduOS

/-- `HEAP_SIZE` -/
def userHeapSize : ℕ := 64 * 1024

/-- `malloc`: the offset of the block in `heap`, and `heap_ptr`. -/
def malloc (size heapPtr : ℕ) : Option ℕ × ℕ :=
  if size = 0 then (none, heapPtr)
  else
    let size := alignUp size 8
    if userHeapSize < u32 (heapPtr + size) then (none, heapPtr)
    else (some heapPtr, u32 (heapPtr + size))

/-- The calls that ask for memory. -/
inductive UserHeapCall
  | malloc (size : ℕ)
  | calloc (nmemb size : ℕ)
  /-- `realloc(NULL, size)` -/
  | realloc (size : ℕ)

/-- The bytes a call asks for. -/
def UserHeapCall.bytes : UserHeapCall → ℕ
  | .malloc size | .realloc size => size
  | .calloc nmemb size => nmemb * size

/-- `heap_ptr`, and the blocks that were handed out with the bytes asked for, latest first. -/
structure UserHeap where
  heapPtr : ℕ
  blocks : List (ℕ × ℕ)

/-- What the call returns, and the heap pointer after it. -/
def UserHeapCall.run : UserHeapCall → ℕ → Option ℕ × ℕ
  | .malloc size | .realloc size => EduOS.malloc size
  | .calloc nmemb size => EduOS.malloc (u32 (nmemb * size))

/-- One call, and the blocks handed out so far. -/
def userHeapStep (h : UserHeap) (call : UserHeapCall) : UserHeap :=
  match call.run h.heapPtr with
  | (none, heapPtr) => { h with heapPtr }
  | (some start, heapPtr) => ⟨heapPtr, (start, call.bytes) :: h.blocks⟩

/-- The blocks lie in the heap, apart from each other. -/
def BlocksApart (blocks : List (ℕ × ℕ)) : Prop :=
  (∀ b ∈ blocks, b.1 + b.2 ≤ userHeapSize) ∧
    blocks.Pairwise fun b c => b.1 + b.2 ≤ c.1 ∨ c.1 + c.2 ≤ b.1

instance (blocks : List (ℕ × ℕ)) : Decidable (BlocksApart blocks) :=
  inferInstanceAs (Decidable (_ ∧ _))

/-- All blocks lie below `heap_ptr`. -/
structure UserHeap.Sound (h : UserHeap) : Prop where
  inside : h.heapPtr ≤ userHeapSize
  below : ∀ b ∈ h.blocks, b.1 + b.2 ≤ h.heapPtr
  apart : BlocksApart h.blocks

theorem malloc_spec {size heapPtr : ℕ} (inside : heapPtr ≤ userHeapSize)
    (small : size ≤ 0xFFFEFFF8) :
    malloc size heapPtr = (none, heapPtr) ∨ ∃ stop, malloc size heapPtr = (some heapPtr, stop) ∧
      heapPtr + size ≤ stop ∧ stop ≤ userHeapSize := by
  have rounded : alignUp size 8 = _ := alignUp_of_le (k := 3) (by omega) (by omega)
  unfold userHeapSize at inside
  rw [malloc, rounded]
  dsimp only
  rw [u32_of_lt (by omega)]
  split_ifs with empty full
  · exact Or.inl rfl
  · exact Or.inl rfl
  · exact Or.inr ⟨_, rfl, by omega, Nat.not_lt.mp full⟩

theorem UserHeap.Sound.step {h : UserHeap} (sound : h.Sound) {call : UserHeapCall}
    (small : call.bytes ≤ 0xFFFEFFF8) : (userHeapStep h call).Sound := by
  have run : call.run = malloc call.bytes := by
    cases call with
    | malloc | realloc => rfl
    | calloc nmemb size => exact congrArg malloc (u32_of_lt (Nat.lt_of_le_of_lt small (by decide)))
  rw [userHeapStep, run]
  rcases malloc_spec sound.inside small with failed | ⟨stop, taken, covers, inside⟩
  · rw [failed]
    exact sound
  rw [taken]
  have below : ∀ b ∈ (h.heapPtr, call.bytes) :: h.blocks, b.1 + b.2 ≤ stop :=
    List.forall_mem_cons.mpr ⟨covers, fun b mem => by have := sound.below b mem; omega⟩
  exact ⟨inside, below, fun b mem => (below b mem).trans inside,
    List.pairwise_cons.mpr ⟨fun b mem => Or.inr (sound.below b mem), sound.apart.2⟩⟩

/-- **Blocks of the user heap** lie inside it and apart from each other, as long as no call asks
for more than `0xFFFEFFF8` bytes. -/
theorem user_heap_apart (calls : List UserHeapCall)
    (small : ∀ call ∈ calls, call.bytes ≤ 0xFFFEFFF8) :
    BlocksApart (calls.foldl userHeapStep ⟨0, []⟩).blocks := by
  have start : UserHeap.Sound ⟨0, []⟩ := ⟨by decide, by simp, by decide⟩
  have sound : UserHeap.Sound (calls.foldl userHeapStep ⟨0, []⟩) :=
    List.foldlRecOn calls userHeapStep start fun _ sound call mem => sound.step (small call mem)
  exact sound.apart

theorem user_heap_apart_two :
    BlocksApart ([UserHeapCall.malloc 5, .calloc 3 4].foldl userHeapStep ⟨0, []⟩).blocks :=
  user_heap_apart _ (by decide)

/-- The size `0xFFFFFFFF` is rounded to 0. -/
theorem user_heap_overlap :
    ¬BlocksApart ([UserHeapCall.malloc 0xFFFFFFFF].foldl userHeapStep ⟨0, []⟩).blocks := by
  decide

end EduOS
