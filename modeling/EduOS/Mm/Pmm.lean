import EduOS.Library.Run
import EduOS.Library.Word
import EduOS.Library.Bitmap

/-!
# The physical frame allocator

`kernel/mm/pmm.c`: one bit per 4 KiB frame, set when the frame is in use, and
three counters kept beside the bitmap.

The counters are the point of the module.  They are updated by hand at every
bit that flips, in seven places, and nothing in the code ever recomputes them;
`Accounted` says that they agree with the bitmap, `pmmStep_accounted` that no
call can make them disagree, whatever it is given (double frees, frees beyond
the end of memory, multi-frame frees whose addresses wrap around).

Exclusivity is a statement about two calls far apart: a frame handed out by
one allocation is not handed out again until a free call names it.  It follows
from the fact that a set bit stays set until it is named
(`pmmRun_test_of_not_named`), because an allocation only covers clear bits.

The bitmap lives in the pages just above the kernel image; no call of this
module writes anything else, so the model keeps it as an array of its own.
-/

namespace EduOS

open Words

def pageSize : ℕ := 4096

/-- `PAGE_ALIGN_UP(addr)` -/
def pageAlignUp (addr : ℕ) : ℕ := alignUp addr (2 ^ 12)

/-- The static variables of `pmm.c`, with `struct pmm_stats` inlined. -/
structure Pmm where
  /-- The words at `pmm_bitmap`. -/
  bitmap : Words
  /-- `pmm_bitmap_size`, in bytes. -/
  bitmapSize : ℕ
  totalFrames : ℕ
  usedFrames : ℕ
  freeFrames : ℕ
  reservedFrames : ℕ
  kernelFrames : ℕ
  memorySize : ℕ
  kernelStartPhys : ℕ
  kernelEndPhys : ℕ

namespace Pmm

def setBit (s : Pmm) (frame : ℕ) : Pmm := { s with bitmap := s.bitmap.set frame }

def clearBit (s : Pmm) (frame : ℕ) : Pmm := { s with bitmap := s.bitmap.clear frame }

def testBit (s : Pmm) (frame : ℕ) : Bool := s.bitmap.test frame

/-- `used_frames += count; free_frames -= count` -/
def countUsed (s : Pmm) (count : ℕ) : Pmm :=
  { s with usedFrames := u32 (s.usedFrames + count), freeFrames := sub32 s.freeFrames count }

/-- `used_frames--; free_frames++` -/
def countFree (s : Pmm) : Pmm :=
  { s with usedFrames := sub32 s.usedFrames 1, freeFrames := u32 (s.freeFrames + 1) }

end Pmm

/-! ## Initialisation -/

/-- The state `pmm_init` has set up when it starts releasing memory: every
frame marked used. -/
def pmmAllUsed (memSize kernelStart kernelEnd : ℕ) : Pmm where
  bitmap := Words.full
  bitmapSize := pageAlignUp ((memSize / pageSize + 7) / 8)
  totalFrames := memSize / pageSize
  usedFrames := memSize / pageSize
  freeFrames := 0
  reservedFrames := 0x100000 / pageSize
  kernelFrames :=
    let size := sub32 kernelEnd kernelStart
    if size % pageSize ≠ 0 then size / pageSize + 1 else size / pageSize
  memorySize := memSize
  kernelStartPhys := kernelStart
  kernelEndPhys := kernelEnd

/-- One pass of the release loop
`for (addr = available_start; addr < available_end; addr += PAGE_SIZE)`. -/
def pmmReleasePass (availableEnd : ℕ) : ℕ × Pmm → Option ((ℕ × Pmm) ⊕ Pmm)
  | (addr, s) =>
    if addr < availableEnd then
      let frame := addr / pageSize
      let s' := if frame < s.totalFrames then (s.clearBit frame).countFree else s
      some (Sum.inl (u32 (addr + pageSize), s'))
    else
      some (Sum.inr s)

/-- `pmm_init`, its release loop cut after `passes` passes. -/
def pmmInitWith (passes memSize kernelStart kernelEnd : ℕ) : Option Pmm :=
  let s := pmmAllUsed memSize kernelStart kernelEnd
  let availableStart := pageAlignUp (u32 (kernelEnd + s.bitmapSize))
  loop (pmmReleasePass memSize) passes (availableStart, s)

/-- `pmm_init`.  An address takes one of `2 ^ 32` values, so a loop that has
not left after that many passes never does. -/
def pmmInit (memSize kernelStart kernelEnd : ℕ) : Option Pmm :=
  pmmInitWith (2 ^ 32) memSize kernelStart kernelEnd

/-! ## Allocation -/

/-- `pmm_alloc_frame`: the first clear bit; address `0` when there is none. -/
def pmmAllocFrame (s : Pmm) : ℕ × Pmm :=
  let body (i : ℕ) (_ : Unit) : Unit ⊕ (ℕ × Pmm) :=
    if !s.testBit i then
      Sum.inr (u32 (i * pageSize), (s.setBit i).countUsed 1)
    else
      Sum.inl ()
  match scan body 0 s.totalFrames () with
  | Sum.inr result => result
  | Sum.inl _ => (0, s)

/-- `for (j = 0; j < count; j++) pmm_set_bit(start_frame + j)` -/
def pmmSetBits (s : Pmm) (startFrame count : ℕ) : Pmm :=
  { s with bitmap := s.bitmap.setRange startFrame count }

/-- One pass of the search for `count` consecutive clear bits; the accumulator
is `(found, start_frame)`. -/
def pmmAllocFramesPass (s : Pmm) (count i : ℕ) : ℕ × ℕ → (ℕ × ℕ) ⊕ (ℕ × Pmm)
  | (found, startFrame) =>
    if !s.testBit i then
      let startFrame := if found = 0 then i else startFrame
      let found := found + 1
      if found = count then
        Sum.inr (u32 (startFrame * pageSize), (pmmSetBits s startFrame count).countUsed count)
      else
        Sum.inl (found, startFrame)
    else
      Sum.inl (0, startFrame)

/-- `pmm_alloc_frames` -/
def pmmAllocFrames (s : Pmm) (count : ℕ) : ℕ × Pmm :=
  if count = 0 then (0, s)
  else if count = 1 then pmmAllocFrame s
  else
    match scan (pmmAllocFramesPass s count) 0 s.totalFrames (0, 0) with
    | Sum.inr result => result
    | Sum.inl _ => (0, s)

/-! ## Release and marking -/

/-- `pmm_free_frame` -/
def pmmFreeFrame (s : Pmm) (frameAddr : ℕ) : Pmm :=
  if frameAddr = 0 then s
  else
    let frame := frameAddr / pageSize
    if s.totalFrames ≤ frame then s
    else if !s.testBit frame then s
    else (s.clearBit frame).countFree

/-- `pmm_free_frames` -/
def pmmFreeFrames (s : Pmm) (frameAddr count : ℕ) : Pmm :=
  (List.range count).foldl (fun s i => pmmFreeFrame s (u32 (frameAddr + i * pageSize))) s

/-- `pmm_mark_frame_used` -/
def pmmMarkFrameUsed (s : Pmm) (frameAddr : ℕ) : Pmm :=
  let frame := frameAddr / pageSize
  if s.totalFrames ≤ frame then s
  else if !s.testBit frame then (s.setBit frame).countUsed 1
  else s

/-- `pmm_mark_frame_free` -/
def pmmMarkFrameFree (s : Pmm) (frameAddr : ℕ) : Pmm := pmmFreeFrame s frameAddr

/-- `pmm_is_frame_used`: frames beyond the end of memory count as used. -/
def pmmIsFrameUsed (s : Pmm) (frameAddr : ℕ) : Bool :=
  let frame := frameAddr / pageSize
  if s.totalFrames ≤ frame then true else s.testBit frame

/-! ## Calls -/

/-- The calls other kernel code makes. -/
inductive PmmCall where
  | allocFrame
  | allocFrames (count : ℕ)
  | freeFrame (frameAddr : ℕ)
  | freeFrames (frameAddr count : ℕ)
  | markFrameUsed (frameAddr : ℕ)
  | markFrameFree (frameAddr : ℕ)
  deriving DecidableEq, Repr

/-- One call. -/
def pmmStep (s : Pmm) : PmmCall → Pmm
  | .allocFrame => (pmmAllocFrame s).2
  | .allocFrames count => (pmmAllocFrames s count).2
  | .freeFrame frameAddr => pmmFreeFrame s frameAddr
  | .freeFrames frameAddr count => pmmFreeFrames s frameAddr count
  | .markFrameUsed frameAddr => pmmMarkFrameUsed s frameAddr
  | .markFrameFree frameAddr => pmmMarkFrameFree s frameAddr

def pmmRun (s : Pmm) (calls : List PmmCall) : Pmm := calls.foldl pmmStep s

/-- The call, made in state `s`, succeeds and hands out `frame`. -/
def Covers (s : Pmm) (call : PmmCall) (frame : ℕ) : Prop :=
  match call with
  | .allocFrame =>
    (pmmAllocFrame s).1 ≠ 0 ∧ frame = (pmmAllocFrame s).1 / pageSize
  | .allocFrames count =>
    (pmmAllocFrames s count).1 ≠ 0 ∧
      (pmmAllocFrames s count).1 / pageSize ≤ frame ∧
      frame < (pmmAllocFrames s count).1 / pageSize + count
  | _ => False

/-- The call is a free call one of whose addresses lies in `frame`. -/
def Names (call : PmmCall) (frame : ℕ) : Prop :=
  match call with
  | .freeFrame frameAddr => frameAddr / pageSize = frame
  | .freeFrames frameAddr count =>
    ∃ i, i < count ∧ u32 (frameAddr + i * pageSize) / pageSize = frame
  | .markFrameFree frameAddr => frameAddr / pageSize = frame
  | _ => False

/-! ## What one call does -/

/-- `pmm_alloc_frame` takes the first clear bit, or reports that there is
none. -/
theorem pmmAllocFrame_cases (s : Pmm) :
    (∃ i, i < s.totalFrames ∧ s.testBit i = false ∧
        (∀ j, j < i → s.testBit j = true) ∧
        pmmAllocFrame s = (u32 (i * pageSize), (s.setBit i).countUsed 1)) ∨
      ((∀ j, j < s.totalFrames → s.testBit j = true) ∧ pmmAllocFrame s = (0, s)) := by
  unfold pmmAllocFrame
  have search := scan_first_each (fun i _ => if !s.testBit i then
      Sum.inr (u32 (i * pageSize), (s.setBit i).countUsed 1) else Sum.inl ())
    (fun i => (u32 (i * pageSize), (s.setBit i).countUsed 1)) s.testBit false 0
    (Nat.zero_add s.totalFrames) (fun j below => absurd below (Nat.not_lt_zero j))
    fun i _ => by simp
  rw [Nat.zero_add] at search
  rcases search with ⟨run, used⟩ | ⟨i, run, below, free, used⟩
  · right
    exact ⟨used, by simp only [run]⟩
  · left
    exact ⟨i, below, free, used, by simp only [run]⟩

theorem testBit_taken (p : Pmm) (frame other : ℕ) :
    ((p.setBit frame).countUsed 1).testBit other = (decide (frame = other) || p.testBit other) :=
  Words.test_set p.bitmap frame other

theorem pmmAllocFrame_used {p : Pmm} {frame : ℕ} (used : p.testBit frame = true) :
    (pmmAllocFrame p).2.testBit frame = true := by
  rcases pmmAllocFrame_cases p with ⟨i, -, -, -, result⟩ | ⟨-, result⟩
  · rw [result, testBit_taken, used, Bool.or_true]
  · rwa [result]

variable {s : Pmm} {call : PmmCall} {start count frame : ℕ}

/-- The `count` frames from `start` on are free. -/
structure FreeWindow (s : Pmm) (start count : ℕ) : Prop where
  inside : start + count ≤ s.totalFrames
  free : ∀ j, j < count → s.testBit (start + j) = false

theorem freeWindow_one :
    FreeWindow s frame 1 ↔ frame < s.totalFrames ∧ s.testBit frame = false := by
  refine ⟨fun window => ⟨window.inside, window.free 0 Nat.one_pos⟩, fun ⟨inside, free⟩ =>
    ⟨inside, fun j lt => ?_⟩⟩
  rwa [Nat.lt_one_iff.mp lt]

theorem pmmSetBits_one (s : Pmm) (i : ℕ) : pmmSetBits s i 1 = s.setBit i := by
  simp [pmmSetBits, Pmm.setBit, setRange_succ]

/-- What the accumulator of the search for `count` consecutive frames knows
before it looks at bit `i`: the last `found` bits are clear and preceded by a
set one, and no full window ended before `i`. -/
structure FrameSearch (s : Pmm) (count i : ℕ) (acc : ℕ × ℕ) : Prop where
  short : acc.1 < count
  fits : acc.1 ≤ i
  start : acc.1 ≠ 0 → acc.2 + acc.1 = i
  clear : ∀ j, i ≤ j + acc.1 → j < i → s.testBit j = false
  stop : acc.1 < i → s.testBit (i - acc.1 - 1) = true
  none_earlier : ∀ first, first + count ≤ i → ∃ j, j < count ∧ s.testBit (first + j) = true

/-- A window that starts before the clear bits is not free. -/
theorem FrameSearch.before {i first : ℕ} {acc : ℕ × ℕ} (search : FrameSearch s count i acc)
    (starts : first + acc.1 < i) : ∃ j, j < count ∧ s.testBit (first + j) = true := by
  by_cases ended : first + count ≤ i
  · exact search.none_earlier first ended
  · refine ⟨i - acc.1 - 1 - first, by omega, ?_⟩
    have last : first + (i - acc.1 - 1 - first) = i - acc.1 - 1 := by omega
    rw [last]
    exact search.stop (by omega)

/-- The search takes the first window of `count` clear bits, or reports that there is none. -/
theorem pmmAllocFrames_search (s : Pmm) {count : ℕ} (many : 2 ≤ count) :
    (∃ start, FreeWindow s start count ∧
        (∀ first, first < start → ∃ j, j < count ∧ s.testBit (first + j) = true) ∧
        pmmAllocFrames s count =
          (u32 (start * pageSize), (pmmSetBits s start count).countUsed count)) ∨
      ((∀ first, first + count ≤ s.totalFrames → ∃ j, j < count ∧ s.testBit (first + j) = true) ∧
        pmmAllocFrames s count = (0, s)) := by
  have ne_zero : count ≠ 0 := by omega
  have ne_one : count ≠ 1 := by omega
  unfold pmmAllocFrames
  simp only [ne_zero, ne_one, if_false]
  have search := scan_rule (pmmAllocFramesPass s count) (FrameSearch s count)
    (fun result => ∃ start, FreeWindow s start count ∧
      (∀ first, first < start → ∃ j, j < count ∧ s.testBit (first + j) = true) ∧
      result = (u32 (start * pageSize), (pmmSetBits s start count).countUsed count))
    s.totalFrames ?go ?leave s.totalFrames 0 (0, 0) (by omega) ?init
  case init =>
    exact ⟨by simp; omega, by simp, by simp, by intro j _ lt; omega, by simp, by
      intro first fits; omega⟩
  case go =>
    rintro i ⟨found, startFrame⟩ acc' below search pass
    have ⟨short, fits, start, clear, stop, none_earlier⟩ := search
    -- the windows ending at `i + 1` are the new ones to rule out
    cases bit : s.testBit i with
    | true =>
      simp [pmmAllocFramesPass, bit] at pass
      subst pass
      refine ⟨by simp; omega, by simp, by simp, ?_, by simpa using bit, ?_⟩
      · intro j low high
        omega
      intro first ends
      by_cases before : first + count ≤ i
      · exact none_earlier first before
      · refine ⟨i - first, by omega, ?_⟩
        have : first + (i - first) = i := by omega
        rw [this]
        exact bit
    | false =>
      have not_full : found + 1 ≠ count := by
        intro full
        simp [pmmAllocFramesPass, bit, full] at pass
      simp [pmmAllocFramesPass, bit, not_full] at pass
      subst pass
      refine ⟨by simp; omega, by simp; omega, ?_, ?_, ?_, fun first ends =>
        search.before (by simp only; omega)⟩
      · by_cases zero : found = 0
        · simp [zero]
        · simp [zero]; omega
      · intro j low high
        by_cases last : j = i
        · rw [last]; exact bit
        · exact clear j (by omega) (by omega)
      · intro more
        have same : i + 1 - (found + 1) - 1 = i - found - 1 := by omega
        rw [same]
        exact stop (by omega)
  case leave =>
    rintro i ⟨found, startFrame⟩ result below search pass
    have ⟨short, fits, start, clear, _, _⟩ := search
    cases bit : s.testBit i with
    | true => simp [pmmAllocFramesPass, bit] at pass
    | false =>
      have full : found + 1 = count := by
        by_contra not_full
        simp [pmmAllocFramesPass, bit, not_full] at pass
      have found_ne : found ≠ 0 := by omega
      simp [pmmAllocFramesPass, bit, full, found_ne] at pass
      refine ⟨startFrame, ⟨by omega, fun j lt => ?_⟩, fun first lt =>
        search.before (by simp only; omega), pass.symm⟩
      by_cases last : startFrame + j = i
      · rw [last]; exact bit
      · exact clear _ (by omega) (by omega)
  rcases search with ⟨_, run, final⟩ | ⟨result, run, start, window, least, rfl⟩
  · right
    exact ⟨final.none_earlier, by simp [run]⟩
  · left
    exact ⟨start, window, least, by simp [run]⟩

/-- `pmm_alloc_frames` takes the first window of `count` free frames, or reports that there is
none.  One frame is left to `pmm_alloc_frame`. -/
theorem pmmAllocFrames_cases (s : Pmm) {count : ℕ} (some_frames : count ≠ 0) :
    (∃ start, FreeWindow s start count ∧ (∀ first, first < start → ¬FreeWindow s first count) ∧
        pmmAllocFrames s count =
          (u32 (start * pageSize), (pmmSetBits s start count).countUsed count)) ∨
      ((∀ first, ¬FreeWindow s first count) ∧ pmmAllocFrames s count = (0, s)) := by
  have not_free : ∀ first, (∃ j, j < count ∧ s.testBit (first + j) = true) →
      ¬FreeWindow s first count := by
    rintro first ⟨j, lt, used⟩ window
    rw [window.free j lt] at used
    cases used
  by_cases one : count = 1
  · subst one
    rcases pmmAllocFrame_cases s with ⟨i, inside, free, least, result⟩ | ⟨used, result⟩
    · refine Or.inl ⟨i, freeWindow_one.mpr ⟨inside, free⟩, fun first lt =>
        not_free _ ⟨0, Nat.one_pos, least first lt⟩, ?_⟩
      exact result
    · exact Or.inr ⟨fun first window =>
        not_free first ⟨0, Nat.one_pos, used _ window.inside⟩ window, result⟩
  · rcases pmmAllocFrames_search s (by omega : 2 ≤ count) with
      ⟨start, window, least, result⟩ | ⟨none_free, result⟩
    · exact Or.inl ⟨start, window, fun first lt => not_free first (least first lt), result⟩
    · exact Or.inr ⟨fun first window =>
        not_free first (none_free first window.inside) window, result⟩

/-! ## Accounting -/

/-- The counters agree with the bitmap. -/
structure Accounted (s : Pmm) : Prop where
  total_lt : s.totalFrames < 2 ^ 20
  sum : s.usedFrames + s.freeFrames = s.totalFrames
  free_eq : s.freeFrames = s.bitmap.clearCount s.totalFrames

/-- Marking `count` free frames used, bits and counters together. -/
theorem Accounted.take (acc : Accounted s) (window : FreeWindow s start count) :
    Accounted ((pmmSetBits s start count).countUsed count) := by
  obtain ⟨total_lt, sum, free_eq⟩ := acc
  have counted := clearCount_setRange (w := s.bitmap) window.inside window.free
  refine ⟨total_lt, ?_, ?_⟩
  · simp only [Pmm.countUsed, pmmSetBits, u32, sub32]
    omega
  · simp only [Pmm.countUsed, pmmSetBits, u32, sub32]
    omega

/-- Marking one used frame free. -/
theorem Accounted.release (acc : Accounted s) {i : ℕ} (inside : i < s.totalFrames)
    (used : s.testBit i = true) : Accounted ((s.clearBit i).countFree) := by
  obtain ⟨total_lt, sum, free_eq⟩ := acc
  have counted := clearCount_clear (w := s.bitmap) inside used
  have bounded := clearCount_le (s.bitmap.clear i) s.totalFrames
  refine ⟨total_lt, ?_, ?_⟩
  · simp only [Pmm.countFree, Pmm.clearBit, u32, sub32]
    omega
  · simp only [Pmm.countFree, Pmm.clearBit, u32]
    omega

theorem pmmAllocFrames_accounted (acc : Accounted s) (count : ℕ) :
    Accounted (pmmAllocFrames s count).2 := by
  by_cases zero : count = 0
  · rw [zero]
    exact acc
  rcases pmmAllocFrames_cases s zero with ⟨start, window, -, result⟩ | ⟨-, result⟩
  · rw [result]
    exact acc.take window
  · rw [result]
    exact acc

theorem pmmFreeFrame_accounted (acc : Accounted s) (frameAddr : ℕ) :
    Accounted (pmmFreeFrame s frameAddr) := by
  unfold pmmFreeFrame
  by_cases null : frameAddr = 0
  · simpa [null] using acc
  by_cases outside : s.totalFrames ≤ frameAddr / pageSize
  · simpa [null, outside] using acc
  · cases bit : s.testBit (frameAddr / pageSize) with
    | false => simpa [null, outside, bit] using acc
    | true =>
      simpa [null, outside, bit] using acc.release (by omega) bit

/-- A property every single-frame release keeps is kept by
`pmm_free_frames`. -/
theorem pmmFreeFrames_induction {P : Pmm → Prop} (frameAddr count : ℕ) (start : P s)
    (release : ∀ s i, i < count → P s → P (pmmFreeFrame s (u32 (frameAddr + i * pageSize)))) :
    P (pmmFreeFrames s frameAddr count) := by
  unfold pmmFreeFrames
  induction count with
  | zero => exact start
  | succ count ih =>
    rw [List.range_succ, List.foldl_append]
    exact release _ count (by omega) (ih fun s i lt => release s i (by omega))

theorem pmmMarkFrameUsed_accounted (acc : Accounted s) (frameAddr : ℕ) :
    Accounted (pmmMarkFrameUsed s frameAddr) := by
  unfold pmmMarkFrameUsed
  by_cases outside : s.totalFrames ≤ frameAddr / pageSize
  · simpa [outside] using acc
  cases bit : s.testBit (frameAddr / pageSize) with
  | true => simpa [outside, bit] using acc
  | false =>
    simpa [outside, bit, pmmSetBits_one] using acc.take (freeWindow_one.mpr ⟨by omega, bit⟩)

/-- No call, whatever its arguments, makes the counters disagree with the
bitmap. -/
theorem pmmStep_accounted (acc : Accounted s) (call : PmmCall) : Accounted (pmmStep s call) := by
  cases call with
  | allocFrame => exact pmmAllocFrames_accounted acc 1
  | allocFrames count => exact pmmAllocFrames_accounted acc count
  | freeFrame frameAddr => exact pmmFreeFrame_accounted acc frameAddr
  | freeFrames frameAddr count =>
    exact pmmFreeFrames_induction frameAddr count acc fun s i _ acc => pmmFreeFrame_accounted acc _
  | markFrameUsed frameAddr => exact pmmMarkFrameUsed_accounted acc frameAddr
  | markFrameFree frameAddr => exact pmmFreeFrame_accounted acc frameAddr

theorem pmmRun_accounted (acc : Accounted s) (calls : List PmmCall) : Accounted (pmmRun s calls) :=
  List.foldlRecOn calls pmmStep acc fun _ acc call _ => pmmStep_accounted acc call

/-! ## Exclusivity -/

/-- A successful allocation, seen as a whole: the frames it covers form a free window, and
its only effect is to take that window. -/
theorem Covers.window (acc : Accounted s) (covers : Covers s call frame) :
    ∃ start count, start ≤ frame ∧ frame < start + count ∧ FreeWindow s start count ∧
      pmmStep s call = (pmmSetBits s start count).countUsed count := by
  have total_lt := acc.total_lt
  have several : ∀ count, Covers s (.allocFrames count) frame →
      ∃ start, start ≤ frame ∧ frame < start + count ∧ FreeWindow s start count ∧
        (pmmAllocFrames s count).2 = (pmmSetBits s start count).countUsed count := by
    rintro count ⟨success, low, high⟩
    have some_frames : count ≠ 0 := by omega
    rcases pmmAllocFrames_cases s some_frames with ⟨start, window, -, result⟩ | ⟨-, result⟩
    · have inside := window.inside
      rw [result] at low high
      simp only [u32, pageSize] at low high
      exact ⟨start, by omega, by omega, window, by rw [result]⟩
    · exact absurd (by rw [result]) success
  cases call with
  | allocFrame =>
    -- `pmm_alloc_frames(1)` is `pmm_alloc_frame()`
    obtain ⟨start, window⟩ := several 1 ⟨covers.1, covers.2.ge, Nat.lt_succ_of_le covers.2.le⟩
    exact ⟨start, 1, window⟩
  | allocFrames count =>
    obtain ⟨start, window⟩ := several count covers
    exact ⟨start, count, window⟩
  | freeFrame _ => exact covers.elim
  | freeFrames _ _ => exact covers.elim
  | markFrameUsed _ => exact covers.elim
  | markFrameFree _ => exact covers.elim

/-- An allocation only covers frames that were free. -/
theorem Covers.free (acc : Accounted s) (covers : Covers s call frame) :
    frame < s.totalFrames ∧ s.testBit frame = false := by
  obtain ⟨start, count, low, high, ⟨inside, free⟩, _⟩ := covers.window acc
  have bit := free (frame - start) (by omega)
  have back : start + (frame - start) = frame := by omega
  rw [back] at bit
  exact ⟨by omega, bit⟩

/-- What an allocation covers is marked used afterwards. -/
theorem Covers.taken (acc : Accounted s) (covers : Covers s call frame) :
    (pmmStep s call).testBit frame = true := by
  obtain ⟨start, count, low, high, _, step⟩ := covers.window acc
  rw [step]
  show (s.bitmap.setRange start count).test frame = true
  simp [test_setRange, low, high]

/-- The bitmap after a frame is given back. -/
theorem pmmFreeFrame_testBit (s : Pmm) (frameAddr frame : ℕ) :
    (pmmFreeFrame s frameAddr).testBit frame =
      (s.testBit frame && !decide (frameAddr ≠ 0 ∧ frame = frameAddr / pageSize ∧
        frame < s.totalFrames)) := by
  unfold pmmFreeFrame
  by_cases null : frameAddr = 0
  · simp [null]
  by_cases outside : s.totalFrames ≤ frameAddr / pageSize
  · have not_here : ¬(frame = frameAddr / pageSize ∧ frame < s.totalFrames) := by omega
    simp [null, outside, not_here]
  rw [if_neg null, if_neg outside]
  cases bit : s.testBit (frameAddr / pageSize) with
  | false =>
    by_cases here : frame = frameAddr / pageSize
    · simp [here, bit]
    · simp [here]
  | true =>
    show (s.bitmap.clear (frameAddr / pageSize)).test frame = _
    by_cases here : frame = frameAddr / pageSize
    · have inside : frameAddr / pageSize < s.totalFrames := by omega
      simp [here, null, inside]
    · simp [test_clear_of_ne _ (Ne.symm here), here, Pmm.testBit]

theorem pmmFreeFrame_test {frameAddr : ℕ} (used : s.testBit frame = true)
    (other : frameAddr / pageSize ≠ frame) : (pmmFreeFrame s frameAddr).testBit frame = true := by
  rw [pmmFreeFrame_testBit, used]
  simp [Ne.symm other]

/-- A used frame stays used under every call that is not a free call naming
it. -/
theorem pmmStep_test_of_not_names (used : s.testBit frame = true) (silent : ¬Names call frame) :
    (pmmStep s call).testBit frame = true := by
  have alloc : ∀ count, (pmmAllocFrames s count).2.testBit frame = true := by
    intro count
    by_cases zero : count = 0
    · rw [zero]
      exact used
    rcases pmmAllocFrames_cases s zero with ⟨start, -, -, result⟩ | ⟨-, result⟩
    · rw [result]
      exact (test_setRange ..).trans (Bool.or_eq_true_iff.mpr (.inr used))
    · rw [result]
      exact used
  cases call with
  | allocFrame => exact alloc 1
  | allocFrames count => exact alloc count
  | freeFrame frameAddr => exact pmmFreeFrame_test used silent
  | freeFrames frameAddr count =>
    refine pmmFreeFrames_induction (P := fun s => s.testBit frame = true) frameAddr count used ?_
    intro s i lt used
    exact pmmFreeFrame_test used fun named => silent ⟨i, lt, named⟩
  | markFrameUsed frameAddr =>
    simp only [pmmStep, pmmMarkFrameUsed]
    by_cases outside : s.totalFrames ≤ frameAddr / pageSize
    · simpa [outside] using used
    cases bit : s.testBit (frameAddr / pageSize) with
    | true => simpa [outside, bit] using used
    | false =>
      simp [outside]
      exact (test_set ..).trans (Bool.or_eq_true_iff.mpr (.inr used))
  | markFrameFree frameAddr => exact pmmFreeFrame_test used silent

/-- A used frame stays used along every run none of whose calls names it. -/
theorem pmmRun_test_of_not_named {calls : List PmmCall} {s : Pmm} (used : s.testBit frame = true)
    (silent : ∀ call ∈ calls, ¬Names call frame) : (pmmRun s calls).testBit frame = true :=
  List.foldlRecOn (motive := fun s => s.testBit frame = true) calls pmmStep used
    fun _ used call mem => pmmStep_test_of_not_names used (silent call mem)

/-! ## Giving a window back -/

/-- `pmm_free_frames` at its first frame. -/
theorem pmmFreeFrames_succ (s : Pmm) (frameAddr count : ℕ) :
    pmmFreeFrames s frameAddr (count + 1) =
      pmmFreeFrames (pmmFreeFrame s (u32 frameAddr)) (frameAddr + pageSize) count := by
  unfold pmmFreeFrames
  rw [List.range_succ_eq_map, List.foldl_cons, List.foldl_map]
  congr 2
  · funext s i
    rw [Nat.succ_mul, Nat.add_comm _ pageSize, Nat.add_assoc]

/-- Giving back the first frame of a window that was taken. -/
theorem pmmFreeFrame_taken (total : s.totalFrames ≤ 2 ^ 20)
    (window : FreeWindow s start (count + 1)) (nonzero : start ≠ 0) :
    pmmFreeFrame ((pmmSetBits s start (count + 1)).countUsed (count + 1)) (start * pageSize) =
      (pmmSetBits s (start + 1) count).countUsed count := by
  have inside := window.inside
  have address : start * pageSize ≠ 0 := Nat.mul_ne_zero nonzero (by decide)
  have index : start * pageSize / pageSize = start := Nat.mul_div_cancel _ (by decide)
  have taken : (s.bitmap.setRange start (count + 1)).test start = true := by
    simp [test_setRange]
  have free : s.bitmap.test start = false := window.free 0 (Nat.succ_pos _)
  have used_eq : sub32 (u32 (s.usedFrames + (count + 1))) 1 = u32 (s.usedFrames + count) := by
    unfold sub32 u32
    omega
  have free_eq : u32 (sub32 s.freeFrames (count + 1) + 1) = sub32 s.freeFrames count := by
    unfold sub32 u32
    omega
  have not_outside : ¬s.totalFrames ≤ start := by omega
  simp [pmmFreeFrame, Pmm.testBit, Pmm.countUsed, pmmSetBits, Pmm.clearBit, Pmm.countFree, address,
    index, not_outside, taken, clear_setRange free, used_eq, free_eq]

/-- Giving back a window restores the state that it was taken from. -/
theorem pmmFreeFrames_taken (total : s.totalFrames ≤ 2 ^ 20) (used : s.usedFrames < 2 ^ 32)
    (free : s.freeFrames < 2 ^ 32) (window : FreeWindow s start count) (nonzero : start ≠ 0) :
    pmmFreeFrames ((pmmSetBits s start count).countUsed count) (start * pageSize) count = s := by
  induction count generalizing start with
  | zero =>
    simp [pmmFreeFrames, pmmSetBits, Pmm.countUsed, u32_of_lt used,
      sub32_of_le (Nat.zero_le _) free]
  | succ count ih =>
    have inside := window.inside
    have small : start * pageSize < 2 ^ 32 := by
      simp only [pageSize]
      omega
    rw [pmmFreeFrames_succ, u32_of_lt small, pmmFreeFrame_taken total window nonzero,
      ← Nat.succ_mul]
    refine ih ⟨by omega, fun j lt => ?_⟩ (Nat.succ_ne_zero _)
    rw [Nat.succ_add_eq_add_succ]
    exact window.free (j + 1) (by omega)

/-- **Several frames.**  If frame 0 is in use, `pmm_alloc_frames` returns the first window of
free frames, marks its frames used and no others, and giving them back restores the state;
without a window it returns 0 and changes nothing. -/
theorem pmm_alloc_frames_least (s : Pmm) (total : s.totalFrames ≤ 2 ^ 20)
    (used : s.usedFrames < 2 ^ 32) (free : s.freeFrames < 2 ^ 32) (zero : s.testBit 0 = true)
    (count : ℕ) (some_frames : 1 ≤ count) :
    (∀ start, IsLeast {first | FreeWindow s first count} start →
      (pmmAllocFrames s count).1 = pageSize * start ∧
        (∀ i, (pmmAllocFrames s count).2.testBit i =
          (decide (start ≤ i ∧ i < start + count) || s.testBit i)) ∧
        pmmFreeFrames (pmmAllocFrames s count).2 (pmmAllocFrames s count).1 count = s) ∧
      ((¬∃ first, FreeWindow s first count) → pmmAllocFrames s count = (0, s)) := by
  rcases pmmAllocFrames_cases s (by omega : count ≠ 0) with
    ⟨first, window, least, result⟩ | ⟨none_free, result⟩
  · refine ⟨fun start ⟨is_window, lower⟩ => ?_, fun none_free => absurd ⟨first, window⟩ none_free⟩
    have same : first = start := by
      refine le_antisymm (Nat.le_of_not_lt fun lt => least start lt is_window) (lower window)
    subst same
    have inside := window.inside
    have nonzero : first ≠ 0 := by
      rintro rfl
      exact absurd (window.free 0 some_frames) (by simp [zero])
    have small : first * pageSize < 2 ^ 32 := by
      simp only [pageSize]
      omega
    rw [result, u32_of_lt small]
    exact ⟨Nat.mul_comm _ _, test_setRange s.bitmap first count,
      pmmFreeFrames_taken total used free window nonzero⟩
  · exact ⟨fun start least => absurd least.1 (none_free start), fun _ => result⟩

/-- Eight frames, of which the first is in use. -/
def eightFrames : Pmm := ⟨Words.zero.set 0, 4096, 8, 1, 7, 0, 0, 0x8000, 0, 0⟩

theorem pmm_alloc_frames_least_two :
    (pmmAllocFrames eightFrames 2).1 = 0x1000 ∧
      pmmFreeFrames (pmmAllocFrames eightFrames 2).2 (pmmAllocFrames eightFrames 2).1 2 =
        eightFrames := by
  have least : IsLeast {first | FreeWindow eightFrames first 2} 1 := by
    refine ⟨⟨by decide, by decide⟩, fun first window => Nat.one_le_iff_ne_zero.mpr ?_⟩
    rintro rfl
    exact absurd (window.free 0 (by decide)) (by decide)
  obtain ⟨address, -, restored⟩ := (pmm_alloc_frames_least eightFrames (by decide) (by decide)
    (by decide) (by decide) 2 (by decide)).1 1 least
  exact ⟨address, restored⟩

/-! ## The allocator after initialisation -/

/-- What the release loop of `pmm_init` knows: the counters agree with the bitmap, the address
is page aligned, and the frames from `first` up to it have been released, so releasing the next
one flips a bit. -/
structure Releasing (total first addr : ℕ) (s : Pmm) : Prop where
  accounted : Accounted s
  total_eq : s.totalFrames = total
  aligned : addr % pageSize = 0
  free : ∀ i, s.testBit i = false ↔ first ≤ i ∧ i < addr / pageSize ∧ i < total
  begun : first ≤ addr / pageSize

theorem pageAlignUp_aligned (addr : ℕ) :
    pageAlignUp addr % pageSize = 0 ∧ pageAlignUp addr < 2 ^ 32 := by
  have wraps := u32_lt (addr + 2 ^ 12 - 1)
  rw [pageAlignUp, alignUp_eq (by omega), pageSize]
  omega

theorem pmmReleasePass_step {memSize total first addr : ℕ} (small : memSize ≤ 0xFFFFF000)
    (inv : Releasing total first addr s) (below : addr < memSize) :
    ∃ s', pmmReleasePass memSize (addr, s) = some (Sum.inl (addr + pageSize, s')) ∧
      Releasing total first (addr + pageSize) s' := by
  obtain ⟨accounted, rfl, aligned, free, begun⟩ := inv
  have next : u32 (addr + pageSize) = addr + pageSize := by
    apply u32_of_lt
    simp only [pageSize] at aligned ⊢
    omega
  have aligned' : (addr + pageSize) % pageSize = 0 := by
    rw [Nat.add_mod_right]
    exact aligned
  have frames : (addr + pageSize) / pageSize = addr / pageSize + 1 :=
    Nat.add_div_right _ (by decide)
  by_cases inside : addr / pageSize < s.totalFrames
  · have used : s.testBit (addr / pageSize) = true := by
      rw [← Bool.not_eq_false, free]
      omega
    refine ⟨(s.clearBit (addr / pageSize)).countFree, by simp [pmmReleasePass, below, inside, next],
      accounted.release inside used, rfl, aligned', fun i => ?_, by omega⟩
    show (s.bitmap.clear (addr / pageSize)).test i = false ↔ _
    have before : s.bitmap.test i = false ↔ _ := free i
    rw [test_clear, Bool.and_eq_false_iff, Bool.not_eq_false', decide_eq_true_eq, before, frames]
    omega
  · refine ⟨s, by simp [pmmReleasePass, below, inside, next], accounted, rfl, aligned', fun i => ?_,
      by omega⟩
    rw [free, frames]
    omega

/-- `pmm_init` returns, with counters that agree with the bitmap and the memory behind the
bitmap free, whenever the memory does not reach into the last page of the address space. -/
theorem pmmInit_released {memSize : ℕ} (small : memSize ≤ 0xFFFFF000) (kernelStart kernelEnd : ℕ) :
    ∃ s, pmmInit memSize kernelStart kernelEnd = some s ∧ Accounted s ∧ ∀ i,
      s.testBit i = false ↔
        pageAlignUp (u32 (kernelEnd + pageAlignUp ((memSize / pageSize + 7) / 8))) / pageSize ≤ i ∧
          i < memSize / pageSize := by
  generalize available :
    pageAlignUp (u32 (kernelEnd + pageAlignUp ((memSize / pageSize + 7) / 8))) = availableStart
  have start : Releasing (memSize / pageSize) (availableStart / pageSize) availableStart
      (pmmAllUsed memSize kernelStart kernelEnd) := by
    refine ⟨⟨?_, ?_, ?_⟩, rfl, ?_, fun i => ?_, le_rfl⟩
    · simp only [pmmAllUsed, pageSize]
      omega
    · simp [pmmAllUsed]
    · simp [pmmAllUsed]
    · rw [← available]
      exact (pageAlignUp_aligned _).1
    · have used : (pmmAllUsed memSize kernelStart kernelEnd).testBit i = true := test_full i
      rw [used]
      exact iff_of_false (by simp) (by omega)
  obtain ⟨s, ran, accounted, free⟩ := loop_total (pmmReleasePass memSize)
    (fun p => Releasing (memSize / pageSize) (availableStart / pageSize) p.1 p.2)
    (fun s => Accounted s ∧ ∀ i, s.testBit i = false ↔
      availableStart / pageSize ≤ i ∧ i < memSize / pageSize) (fun p => memSize - p.1)
    (by
      rintro ⟨addr, s⟩ inv
      by_cases below : addr < memSize
      · obtain ⟨s', pass, inv'⟩ := pmmReleasePass_step small inv below
        refine Or.inl ⟨_, pass, inv', ?_⟩
        simp only [pageSize]
        omega
      · refine Or.inr ⟨s, by simp [pmmReleasePass, below], inv.accounted, fun i => ?_⟩
        have reached : memSize / pageSize ≤ addr / pageSize := Nat.div_le_div_right (by omega)
        rw [inv.free]
        dsimp only
        omega)
    (2 ^ 32) (_, _) start (by simp only; omega)
  refine ⟨s, ?_, accounted, free⟩
  rw [← available] at ran
  exact ran

/-- In the last page of the address space, the address of the release loop wraps around. -/
theorem pmmInit_diverges {memSize : ℕ} (large : 0xFFFFF000 < memSize) (kernelStart kernelEnd : ℕ) :
    pmmInit memSize kernelStart kernelEnd = none := by
  refine Option.eq_none_iff_forall_ne_some.mpr fun s ran => ?_
  refine loop_post (fun p => p.1 % pageSize = 0 ∧ p.1 < 2 ^ 32) (fun _ => False) ?_ ?_ _ _ s ?_ ran
  · rintro ⟨addr, s⟩ s' ⟨aligned, word⟩ pass
    simp only [pageSize] at aligned
    have below : addr < memSize := by omega
    simp only [pmmReleasePass, below, if_true, Option.some.injEq, Sum.inl.injEq] at pass
    subst pass
    simp only [pageSize, u32]
    omega
  · rintro ⟨addr, s⟩ r ⟨aligned, word⟩ pass
    simp only [pageSize] at aligned
    have below : addr < memSize := by omega
    simp [pmmReleasePass, below] at pass
  · exact pageAlignUp_aligned _

/-- **Initialisation.**  For a kernel and a bitmap that fit below `mem_size`, `pmm_init` returns
with the frames behind the bitmap free and all others used, if and only if the memory does not
reach into the last page of the address space. -/
theorem pmm_init_iff (memSize kernelStart kernelEnd : ℕ)
    (fits : kernelEnd + pageAlignUp ((memSize / pageSize + 7) / 8) ≤ memSize) :
    (∃ s, pmmInit memSize kernelStart kernelEnd = some s ∧
        (∀ i, s.testBit i = false ↔
          pageAlignUp (kernelEnd + pageAlignUp ((memSize / pageSize + 7) / 8)) / pageSize ≤ i ∧
            i < memSize / pageSize) ∧
        s.usedFrames + s.freeFrames = s.totalFrames) ↔
      memSize ≤ 0xFFFFF000 := by
  constructor
  · rintro ⟨s, ran, -⟩
    by_contra large
    rw [pmmInit_diverges (by omega)] at ran
    cases ran
  · intro small
    obtain ⟨s, ran, accounted, free⟩ := pmmInit_released small kernelStart kernelEnd
    rw [u32_of_lt (by omega)] at free
    exact ⟨s, ran, free, accounted.sum⟩

theorem pmm_init_iff_128M :
    ∃ s, pmmInit 0x8000000 0x100000 0x200000 = some s ∧
      s.usedFrames + s.freeFrames = s.totalFrames := by
  obtain ⟨s, ran, -, sum⟩ := (pmm_init_iff 0x8000000 0x100000 0x200000 (by decide)).mpr (by decide)
  exact ⟨s, ran, sum⟩

/-- On a machine of `0xFFFFFFFF` bytes, `pmm_init` does not return. -/
theorem pmm_init_hangs :
    0x200000 + pageAlignUp ((0xFFFFFFFF / pageSize + 7) / 8) ≤ 0xFFFFFFFF ∧
      pmmInit 0xFFFFFFFF 0x100000 0x200000 = none :=
  ⟨by decide, pmmInit_diverges (by decide) _ _⟩

/-- The frame allocator is sound in state `s`: its counters add up and agree
with the bitmap, and what the next successful allocation covers was free and
is not covered again by any allocation of the run that follows, until a free
call of that run names it. -/
structure FrameAllocatorSound (s : Pmm) : Prop where
  sum : s.usedFrames + s.freeFrames = s.totalFrames
  free_eq : s.freeFrames = s.bitmap.clearCount s.totalFrames
  covers_free : ∀ call frame, Covers s call frame → frame < s.totalFrames ∧ s.testBit frame = false
  exclusive : ∀ call frame later call', Covers s call frame →
    Covers (pmmRun (pmmStep s call) later) call' frame → ∃ c ∈ later, Names c frame

theorem Accounted.sound (acc : Accounted s) : FrameAllocatorSound s := by
  refine ⟨acc.sum, acc.free_eq, fun _ _ covers => covers.free acc, ?_⟩
  intro call frame later call' covers again
  by_contra unnamed
  have silent : ∀ c ∈ later, ¬Names c frame := by
    intro c mem named
    exact unnamed ⟨c, mem, named⟩
  have used := pmmRun_test_of_not_named (covers.taken acc) silent
  have free := (again.free (pmmRun_accounted (pmmStep_accounted acc call) later)).2
  rw [used] at free
  cases free

/-- **Frame accounting and exclusivity.**  After `pmm_init` on at most
`0xFFFFF000` bytes of memory, and after every finite sequence of calls with
arbitrary arguments, the allocator is sound. -/
theorem pmm_run_sound (memSize kernelStart kernelEnd : ℕ) (small : memSize ≤ 0xFFFFF000) :
    ∃ s₀, pmmInit memSize kernelStart kernelEnd = some s₀ ∧
      ∀ calls : List PmmCall, FrameAllocatorSound (pmmRun s₀ calls) := by
  obtain ⟨s₀, init, acc, -⟩ := pmmInit_released small kernelStart kernelEnd
  exact ⟨s₀, init, fun calls => (pmmRun_accounted acc calls).sound⟩

/-- The machine the kernel boots on: 128 MiB, kernel image from 1 MiB to
2 MiB. -/
theorem pmm_run_sound_128M :
    0x8000000 ≤ 0xFFFFF000 ∧
      ∃ s₀, pmmInit 0x8000000 0x100000 0x200000 = some s₀ ∧
        ∀ calls : List PmmCall, FrameAllocatorSound (pmmRun s₀ calls) :=
  ⟨by decide, pmm_run_sound 0x8000000 0x100000 0x200000 (by decide)⟩

end EduOS
