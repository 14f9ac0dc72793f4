import EduOS.Include.Bitmap
import EduOS.Mm.Pmm

/-!
# The swap manager

`kernel/mm/swap.c` and `include/mm/swap.h`: 4096 slots of one page each, a bitmap
of the slots in use, and a page-table encoding of the slot a page went to.

`swap_out_page` copies a frame into the first free slot, frees the frame and
returns the slot as a non-present page-table entry; `swap_in_page` decodes the
entry, copies the slot into a new frame and releases the slot.  Whatever the
history of slot reuse, a page comes back with the bytes it left with.

The recogniser `is_swap_entry` takes the all-zero entry for an unmapped page, and
`swap_entry_to_pte` encodes slot 0 as exactly that.  So an entry handed out is
recognised precisely when it is not slot 0's, and slot 0 is handed out precisely
when it is free (`swap_run_law_iff`).

Swap space is memory of its own here: `swap_storage` is a buffer that the swap
manager alone writes, and frames are reached through `kmap`, which either maps
the frame's own bytes or finds no free window (`mapped`).
-/

namespace EduOS

open Function

/-! ## Page-table entries of swapped pages -/

/-- `struct swap_entry` -/
structure SwapEntry where
  type : BitVec 7
  offset : BitVec 24
  present : BitVec 1
deriving DecidableEq

/-- `is_swap_entry` -/
def isSwapEntry (pte : BitVec 32) : Bool :=
  pte != 0#32 && !hasFlag pte 0x01#32

/-- `pte_to_swap_entry` -/
def pteToSwapEntry (pte : BitVec 32) : SwapEntry where
  present := (pte &&& 0x01#32).setWidth 1
  type := ((pte >>> 1) &&& 0x7F#32).setWidth 7
  offset := ((pte >>> 8) &&& 0xFFFFFF#32).setWidth 24

/-- `swap_entry_to_pte` -/
def swapEntryToPte (entry : SwapEntry) : BitVec 32 :=
  (entry.offset.setWidth 32 <<< 8) ||| (entry.type.setWidth 32 <<< 1) ||| 0#32

/-- The entry `swap_out_page` returns for a slot. -/
def slotPte (slot : ℕ) : BitVec 32 :=
  swapEntryToPte { present := 0, type := 0, offset := BitVec.ofNat 24 slot }

/-! ## The manager -/

def swapMaxPages : ℕ := 4096

def swapEntryValid : BitVec 32 := 0x01

def swapEntryDirty : BitVec 32 := 0x02

/-- `struct swap_slot` -/
structure SwapSlot where
  flags : BitVec 32
  refcount : ℕ
  pid : ℕ
  vaddr : ℕ

/-- `struct swap_manager`, the bytes at `swap_storage`, the bytes of physical
memory and the frame allocator. -/
structure Swap where
  slotBitmap : Words
  slots : ℕ → SwapSlot
  totalSlots : ℕ
  usedSlots : ℕ
  freeSlots : ℕ
  swapInCount : ℕ
  swapOutCount : ℕ
  swapInPages : ℕ
  swapOutPages : ℕ
  storage : ℕ → BitVec 8
  memory : ℕ → BitVec 8
  pmm : Pmm

/-- `swap_init`, with the buffer `kmalloc` returns: `-1` if it is `NULL`. -/
def swapInit (s : Swap) (buffer : Option (ℕ → BitVec 8)) : ℤ × Swap :=
  match buffer with
  | none => (-1, s)
  | some storage =>
    (0,
      { s with
        storage := storage
        slotBitmap := bitmapZero
        slots := fun _ => { flags := 0, refcount := 0, pid := 0, vaddr := 0 }
        totalSlots := swapMaxPages
        usedSlots := 0
        freeSlots := swapMaxPages
        swapInCount := 0
        swapOutCount := 0
        swapInPages := 0
        swapOutPages := 0 })

/-- `g_swap_manager.slots[slot] = …` -/
def Swap.setSlot (s : Swap) (slot : ℕ) (descriptor : SwapSlot) : Swap :=
  { s with slots := update s.slots slot descriptor }

/-- What `swap_alloc_slot` does to the slot it found. -/
def Swap.takeSlot (s : Swap) (slot : ℕ) : Swap :=
  { s with
    slotBitmap := setBit slot s.slotBitmap
    slots := update s.slots slot { flags := swapEntryValid, refcount := 1, pid := 0, vaddr := 0 }
    usedSlots := u32 (s.usedSlots + 1)
    freeSlots := sub32 s.freeSlots 1 }

/-- `swap_alloc_slot` -/
def swapAllocSlot (s : Swap) : ℤ × Swap :=
  let slot := findFirstZeroBit s.slotBitmap swapMaxPages
  if swapMaxPages ≤ slot then (-1, s) else (slot, s.takeSlot slot)

/-- What `swap_free_slot` does to a slot that nobody refers to any more. -/
def Swap.dropSlot (s : Swap) (slot : ℕ) : Swap :=
  { s with
    slotBitmap := clearBit slot s.slotBitmap
    slots := update s.slots slot { s.slots slot with flags := 0 }
    usedSlots := sub32 s.usedSlots 1
    freeSlots := u32 (s.freeSlots + 1) }

/-- `swap_free_slot` -/
def swapFreeSlot (s : Swap) (slot : ℤ) : Swap :=
  if slot < 0 ∨ swapMaxPages ≤ slot then s
  else
    let slot := slot.toNat
    if !testBit slot s.slotBitmap then s
    else
      let s :=
        if 0 < (s.slots slot).refcount then
          s.setSlot slot { s.slots slot with refcount := (s.slots slot).refcount - 1 }
        else s
      if (s.slots slot).refcount = 0 then s.dropSlot slot else s

/-- `memcpy(dest + offset, src + start, 4096)` -/
def copyPage (dest : ℕ → BitVec 8) (offset : ℕ) (src : ℕ → BitVec 8) (start : ℕ) : ℕ → BitVec 8 :=
  fun a => if offset ≤ a ∧ a < offset + pageSize then src (start + (a - offset)) else dest a

/-- `swap_out_page`; `mapped` says whether `kmap(phys_addr)` succeeds. -/
def swapOutPage (s : Swap) (vaddr physAddr pid : ℕ) (mapped : Bool) : BitVec 32 × Swap :=
  let (slot, s) := swapAllocSlot s
  if slot < 0 then (-1, s)
  else if !mapped then (-1, swapFreeSlot s slot)
  else
    let slot := slot.toNat
    let s := { s with storage := copyPage s.storage (slot * pageSize) s.memory physAddr }
    let s := s.setSlot slot
      { s.slots slot with
        pid := pid
        vaddr := vaddr
        flags := (s.slots slot).flags ||| swapEntryDirty }
    let s :=
      { s with
        swapOutCount := u64 (s.swapOutCount + 1)
        swapOutPages := u64 (s.swapOutPages + 1)
        pmm := pmmFreeFrame s.pmm physAddr }
    (slotPte slot, s)

/-- `swap_in_page`: `none` for `-1`, `some q` for `0` with `*phys_addr = q`. -/
def swapInPage (s : Swap) (swapPte : BitVec 32) (mapped : Bool) : Option ℕ × Swap :=
  let slot := (pteToSwapEntry swapPte).offset.toNat
  if swapMaxPages ≤ slot then (none, s)
  else if !testBit slot s.slotBitmap then (none, s)
  else
    let (newPhys, pmm) := pmmAllocFrame s.pmm
    let s := { s with pmm := pmm }
    if newPhys = 0 then (none, s)
    else if !mapped then (none, { s with pmm := pmmFreeFrame s.pmm newPhys })
    else
      let s := { s with memory := copyPage s.memory newPhys s.storage (slot * pageSize) }
      let s :=
        { s with
          swapInCount := u64 (s.swapInCount + 1)
          swapInPages := u64 (s.swapInPages + 1) }
      (some newPhys, swapFreeSlot s slot)

/-! ## Runs -/

/-- A swap manager with the entries it has handed out and not taken back, each
with the page it stands for. -/
structure SwapRun where
  swap : Swap
  outstanding : List (BitVec 32 × (ℕ → BitVec 8))

/-- The calls, and what the rest of the kernel does in between: it writes memory
and allocates and frees frames. -/
inductive SwapCall
  | swapOut (vaddr physAddr pid : ℕ) (mapped : Bool)
  | swapIn (swapPte : BitVec 32) (mapped : Bool)
  | others (memory : ℕ → BitVec 8) (pmm : Pmm)

/-- One call.  A non-negative result of `swap_out_page` becomes outstanding, a
successful `swap_in_page` takes its entry back. -/
def swapStep (r : SwapRun) : SwapCall → Option SwapRun
  | .swapOut vaddr physAddr pid mapped =>
    let (e, s) := swapOutPage r.swap vaddr physAddr pid mapped
    let page := fun i => r.swap.memory (physAddr + i)
    some ⟨s, if e.toInt < 0 then r.outstanding else (e, page) :: r.outstanding⟩
  | .swapIn swapPte mapped =>
    match swapInPage r.swap swapPte mapped with
    | (none, s) => some ⟨s, r.outstanding⟩
    | (some _, s) => some ⟨s, r.outstanding.filter fun entry => entry.1 ≠ swapPte⟩
  | .others memory pmm => some ⟨{ r.swap with memory := memory, pmm := pmm }, r.outstanding⟩

/-- Only entries that were handed out are swapped in, and none of them twice. -/
def swapLegal (r : SwapRun) : SwapCall → Prop
  | .swapIn swapPte _ => ∃ page, (swapPte, page) ∈ r.outstanding
  | _ => True

/-- The state `swap_init` sets up with its buffer allocated. -/
def swapRunInit (s : Swap) (buffer : ℕ → BitVec 8) : SwapRun :=
  ⟨(swapInit s (some buffer)).2, []⟩

/-- A successful `swap_in_page` of an outstanding entry yields a frame with the
bytes of the page. -/
def SwapRestores (r : SwapRun) : Prop :=
  ∀ e page, (e, page) ∈ r.outstanding →
    ∀ mapped q s', swapInPage r.swap e mapped = (some q, s') →
      ∀ i, i < pageSize → s'.memory (q + i) = page i

/-! ## The encoding -/

/-- A non-present entry survives its encoding. -/
theorem pteToSwapEntry_swapEntryToPte {entry : SwapEntry} (absent : entry.present = 0) :
    pteToSwapEntry (swapEntryToPte entry) = entry := by
  obtain ⟨type, offset, present⟩ := entry
  obtain rfl : present = 0 := absent
  simp only [pteToSwapEntry, swapEntryToPte, SwapEntry.mk.injEq]
  have ones7 : ∀ i (below : i < 7), (0x7F#7)[i] = true := by decide
  have ones24 : ∀ i (below : i < 24), (0xFFFFFF#24)[i] = true := by decide
  refine ⟨?_, ?_, ?_⟩
  · ext i below
    have low : 1 + i < 8 := by omega
    have inside : 1 + i < 32 := by omega
    simp [below, ones7 i below, low, inside]
  · ext i below
    have inside : 8 + i < 32 := by omega
    have inside' : i < 32 := by omega
    simp [ones24 i below, inside, inside', BitVec.getLsbD_eq_getElem below]
  · ext i below
    simp

variable {slot : ℕ} {s : Swap} {r : SwapRun}

theorem slotPte_offset (below : slot < swapMaxPages) :
    (pteToSwapEntry (slotPte slot)).offset.toNat = slot := by
  have small : slot < 2 ^ 24 := lt_trans below (by decide)
  rw [slotPte, pteToSwapEntry_swapEntryToPte rfl, BitVec.toNat_ofNat, Nat.mod_eq_of_lt small]

theorem slotPte_toNat (below : slot < swapMaxPages) : (slotPte slot).toNat = slot * 256 := by
  unfold swapMaxPages at below
  simp [slotPte, swapEntryToPte, Nat.shiftLeft_eq]
  omega

theorem slotPte_nonneg (below : slot < swapMaxPages) : ¬(slotPte slot).toInt < 0 := by
  have value := slotPte_toNat below
  unfold swapMaxPages at below
  rw [BitVec.toInt_eq_toNat_of_lt (by omega)]
  omega

/-- The entry of a slot is recognised unless the slot is slot 0. -/
theorem slotPte_isSwapEntry (below : slot < swapMaxPages) :
    isSwapEntry (slotPte slot) = true ↔ slot ≠ 0 := by
  have value := slotPte_toNat below
  have clear : slotPte slot &&& 0x01#32 = 0#32 := by
    apply BitVec.eq_of_toNat_eq
    simp [Nat.and_one_is_mod]
    omega
  have null : slotPte slot = 0#32 ↔ slot = 0 := by
    rw [BitVec.toNat_eq, value]
    simp
  simp [isSwapEntry, hasFlag, clear, null]

/-! ## One call -/

theorem swapAllocSlot_cases (s : Swap) :
    (∃ slot : ℕ, FirstZero s.slotBitmap swapMaxPages slot ∧
        swapAllocSlot s = (↑slot, s.takeSlot slot)) ∨
      SetBelow s.slotBitmap swapMaxPages ∧ swapAllocSlot s = (-1, s) := by
  rcases findFirstZeroBit_cases s.slotBitmap swapMaxPages with first | ⟨none_left, full⟩
  · exact Or.inl ⟨_, first, if_neg (Nat.not_le.mpr first.1)⟩
  · exact Or.inr ⟨full, if_pos none_left.ge⟩

/-- Releasing the only reference to a slot frees the slot. -/
theorem swapFreeSlot_eq (below : slot < swapMaxPages) (used : s.slotBitmap.test slot = true)
    (single : (s.slots slot).refcount = 1) :
    swapFreeSlot s slot = (s.setSlot slot { s.slots slot with refcount := 0 }).dropSlot slot := by
  have inside : ¬((slot : ℤ) < 0 ∨ (swapMaxPages : ℤ) ≤ slot) := by omega
  unfold swapFreeSlot
  rw [if_neg inside]
  simp [testBit_eq_test, used, single, Swap.setSlot]

/-- Slot `slot` is in use by one page, and holds it. -/
structure SlotHolds (s : Swap) (slot : ℕ) (page : ℕ → BitVec 8) : Prop where
  used : s.slotBitmap.test slot = true
  single : (s.slots slot).refcount = 1
  bytes : ∀ i, i < pageSize → s.storage (slot * pageSize + i) = page i

/-- A slot keeps its page while nobody touches the slot. -/
theorem SlotHolds.frame {s' : Swap} {page : ℕ → BitVec 8} (holds : SlotHolds s slot page)
    (bit : s'.slotBitmap.test slot = s.slotBitmap.test slot)
    (descriptor : s'.slots slot = s.slots slot) (bytes : ∀ i, i < pageSize →
      s'.storage (slot * pageSize + i) = s.storage (slot * pageSize + i)) :
    SlotHolds s' slot page where
  used := bit.trans holds.used
  single := by rw [descriptor]; exact holds.single
  bytes i lt := (bytes i lt).trans (holds.bytes i lt)

theorem copyPage_inside (dest src : ℕ → BitVec 8) (offset start : ℕ) {i : ℕ}
    (lt : i < pageSize) : copyPage dest offset src start (offset + i) = src (start + i) := by
  have inside : offset ≤ offset + i ∧ offset + i < offset + pageSize := by omega
  rw [copyPage, if_pos inside, Nat.add_sub_cancel_left]

/-- Copying into one slot leaves the bytes of the others. -/
theorem copyPage_other_slot (dest src : ℕ → BitVec 8) (start : ℕ) {other i : ℕ}
    (different : other ≠ slot) (lt : i < pageSize) :
    copyPage dest (slot * pageSize) src start (other * pageSize + i) =
      dest (other * pageSize + i) := by
  unfold pageSize at *
  have outside : ¬(slot * 4096 ≤ other * 4096 + i ∧ other * 4096 + i < slot * 4096 + 4096) := by
    omega
  rw [copyPage, pageSize, if_neg outside]

/-- `swap_out_page` finds no slot, or finds the first free one and gives it up
because the frame cannot be mapped, or stores the page there. -/
theorem swapOutPage_cases (s : Swap) (vaddr physAddr pid : ℕ) (mapped : Bool) :
    (SetBelow s.slotBitmap swapMaxPages ∧ swapOutPage s vaddr physAddr pid mapped = (-1, s)) ∨
      ∃ slot s', FirstZero s.slotBitmap swapMaxPages slot ∧
        (∀ other page, other ≠ slot → SlotHolds s other page → SlotHolds s' other page) ∧
        (mapped = false ∧ swapOutPage s vaddr physAddr pid mapped = (-1, s') ∨
          mapped = true ∧ swapOutPage s vaddr physAddr pid mapped = (slotPte slot, s') ∧
            SlotHolds s' slot fun i => s.memory (physAddr + i)) := by
  rcases swapAllocSlot_cases s with ⟨slot, first, alloc⟩ | ⟨full, alloc⟩
  · refine Or.inr ⟨slot, (swapOutPage s vaddr physAddr pid mapped).2, first, ?_⟩
    have natural : ¬(slot : ℤ) < 0 := by omega
    cases mapped with
    | false =>
      have release : swapFreeSlot (s.takeSlot slot) slot = _ :=
        swapFreeSlot_eq first.1 (by simp [Swap.takeSlot, setBit]) (by simp [Swap.takeSlot])
      have result : swapOutPage s vaddr physAddr pid false =
          (-1, swapFreeSlot (s.takeSlot slot) slot) := by
        simp [swapOutPage, alloc, natural]
      rw [result, release]
      refine ⟨?_, Or.inl ⟨rfl, rfl⟩⟩
      intro other page different holds
      refine holds.frame ?_ ?_ fun i lt => rfl
      · simp [Swap.dropSlot, Swap.setSlot, Swap.takeSlot, setBit, clearBit,
          Words.test_clear_of_ne _ different.symm, Words.test_set_of_ne _ different.symm]
      · simp [Swap.dropSlot, Swap.setSlot, Swap.takeSlot, different]
    | true =>
      simp only [swapOutPage, alloc, natural, if_false, Int.toNat_natCast, Bool.not_true,
        Bool.false_eq_true]
      refine ⟨?_, Or.inr ⟨trivial, trivial, ?_⟩⟩
      · intro other page different holds
        refine holds.frame ?_ ?_ fun i lt => ?_
        · simp [Swap.setSlot, Swap.takeSlot, setBit, Words.test_set_of_ne _ different.symm]
        · simp [Swap.setSlot, Swap.takeSlot, different]
        · exact copyPage_other_slot _ _ _ different lt
      · refine ⟨?_, ?_, fun i lt => ?_⟩
        · simp [Swap.setSlot, Swap.takeSlot, setBit]
        · simp [Swap.setSlot, Swap.takeSlot]
        · exact copyPage_inside _ _ _ _ lt
  · refine Or.inl ⟨full, ?_⟩
    simp [swapOutPage, alloc]

/-- `swap_in_page` of a slot in use leaves the swap space alone, or moves the page
into a frame and frees the slot. -/
theorem swapInPage_cases {page : ℕ → BitVec 8} (below : slot < swapMaxPages)
    (holds : SlotHolds s slot page) (mapped : Bool) :
    (∃ pmm, swapInPage s (slotPte slot) mapped = (none, { s with pmm := pmm })) ∨
      ∃ q s', swapInPage s (slotPte slot) mapped = (some q, s') ∧
        (∀ i, i < pageSize → s'.memory (q + i) = page i) ∧
        ∀ other page', other ≠ slot → SlotHolds s other page' → SlotHolds s' other page' := by
  have inside : ¬swapMaxPages ≤ slot := Nat.not_le.mpr below
  have used : (!testBit slot s.slotBitmap) = false := by
    rw [testBit_eq_test, holds.used, Bool.not_true]
  simp only [swapInPage, slotPte_offset below, inside, used, if_false, Bool.false_eq_true]
  by_cases no_frame : (pmmAllocFrame s.pmm).1 = 0
  · exact Or.inl ⟨_, if_pos no_frame⟩
  rw [if_neg no_frame]
  cases mapped with
  | false => exact Or.inl ⟨_, rfl⟩
  | true =>
    refine Or.inr ⟨_, _, rfl, ?_⟩
    rw [swapFreeSlot_eq below (by exact holds.used) (by exact holds.single)]
    refine ⟨fun i lt => ?_, fun other page' different holds' => ?_⟩
    · exact (copyPage_inside _ _ _ _ lt).trans (holds.bytes i lt)
    · refine holds'.frame ?_ ?_ fun i lt => rfl
      · simp [Swap.dropSlot, Swap.setSlot, clearBit, Words.test_clear_of_ne _ different.symm]
      · simp [Swap.dropSlot, Swap.setSlot, different]

/-! ## Whole runs -/

/-- Every outstanding entry is the entry of a slot that holds its page. -/
def Stored (r : SwapRun) : Prop :=
  ∀ e page, (e, page) ∈ r.outstanding →
    ∃ slot, slot < swapMaxPages ∧ e = slotPte slot ∧ SlotHolds r.swap slot page

theorem swapRunInit_stored (s : Swap) (buffer : ℕ → BitVec 8) : Stored (swapRunInit s buffer) := by
  intro e page mem
  simp [swapRunInit] at mem

/-- A page that is stored comes back as it was. -/
theorem Stored.restores (stored : Stored r) : SwapRestores r := by
  intro e page mem mapped q s' result
  obtain ⟨slot, below, rfl, holds⟩ := stored e page mem
  rcases swapInPage_cases below holds mapped with ⟨pmm, failed⟩ | ⟨q', t, moved, bytes, _⟩
  · rw [failed] at result
    simp at result
  · rw [moved] at result
    cases result
    exact bytes

/-- Stored pages survive a call that only touches a free slot. -/
theorem Stored.keep {s' : Swap} (stored : Stored r)
    (first : FirstZero r.swap.slotBitmap swapMaxPages slot)
    (others : ∀ other page, other ≠ slot → SlotHolds r.swap other page → SlotHolds s' other page) :
    Stored ⟨s', r.outstanding⟩ := by
  intro e page mem
  obtain ⟨slot', below, same, holds⟩ := stored e page mem
  refine ⟨slot', below, same, others slot' page ?_ holds⟩
  rintro rfl
  simpa [first.2.1] using holds.used

theorem swapStep_stored {call : SwapCall} (stored : Stored r) (legal : swapLegal r call) :
    ∃ r', swapStep r call = some r' ∧ Stored r' := by
  cases call with
  | swapOut vaddr physAddr pid mapped =>
    rcases swapOutPage_cases r.swap vaddr physAddr pid mapped with
      ⟨_, result⟩ | ⟨slot, s', first, others, ⟨_, result⟩ | ⟨rfl, result, holds⟩⟩
    · have step : swapStep r (.swapOut vaddr physAddr pid mapped) =
          some ⟨r.swap, r.outstanding⟩ := by
        simp only [swapStep, result]
        rfl
      exact ⟨_, step, stored⟩
    · have step : swapStep r (.swapOut vaddr physAddr pid mapped) = some ⟨s', r.outstanding⟩ := by
        simp only [swapStep, result]
        rfl
      exact ⟨_, step, stored.keep first others⟩
    · have step : swapStep r (.swapOut vaddr physAddr pid true) =
          some ⟨s', (slotPte slot, fun i => r.swap.memory (physAddr + i)) :: r.outstanding⟩ := by
        simp [swapStep, result, slotPte_nonneg first.1]
      refine ⟨_, step, ?_⟩
      intro e page mem
      rcases List.mem_cons.mp mem with new | old
      · cases new
        exact ⟨slot, first.1, rfl, holds⟩
      · exact stored.keep first others e page old
  | swapIn swapPte mapped =>
    obtain ⟨page, mem⟩ := legal
    obtain ⟨slot, below, rfl, holds⟩ := stored swapPte page mem
    rcases swapInPage_cases below holds mapped with ⟨pmm, result⟩ | ⟨q, s', result, _, others⟩
    · have step : swapStep r (.swapIn (slotPte slot) mapped) =
          some ⟨{ r.swap with pmm := pmm }, r.outstanding⟩ := by
        simp [swapStep, result]
      refine ⟨_, step, ?_⟩
      intro e page' member'
      obtain ⟨slot', below', same, holds'⟩ := stored e page' member'
      exact ⟨slot', below', same, holds'.frame rfl rfl fun i lt => rfl⟩
    · have step : swapStep r (.swapIn (slotPte slot) mapped) =
          some ⟨s', r.outstanding.filter fun entry => entry.1 ≠ slotPte slot⟩ := by
        simp [swapStep, result]
      refine ⟨_, step, ?_⟩
      intro e page' member'
      obtain ⟨old, different⟩ := List.mem_filter.mp member'
      obtain ⟨slot', below', rfl, holds'⟩ := stored e page' old
      refine ⟨slot', below', rfl, others slot' page' ?_ holds'⟩
      rintro rfl
      simp at different
  | others memory pmm =>
    refine ⟨_, rfl, ?_⟩
    intro e page mem
    obtain ⟨slot, below, same, holds⟩ := stored e page mem
    exact ⟨slot, below, same, holds.frame rfl rfl fun i lt => rfl⟩

/-- An entry that `swap_out_page` hands out is recognised exactly if slot 0 was in
use when it was called: only the first free slot is handed out, and only slot 0
has an entry that is not recognised. -/
theorem swapOutPage_isSwapEntry {vaddr physAddr pid : ℕ} {mapped : Bool}
    (handed_out : 0 ≤ (swapOutPage s vaddr physAddr pid mapped).1.toInt) :
    isSwapEntry (swapOutPage s vaddr physAddr pid mapped).1 = true ↔
      testBit 0 s.slotBitmap = true := by
  have failed : ¬0 ≤ (-1 : BitVec 32).toInt := by decide
  rw [testBit_eq_test]
  rcases swapOutPage_cases s vaddr physAddr pid mapped with
    ⟨_, result⟩ | ⟨slot, s', first, _, ⟨_, result⟩ | ⟨_, result, _⟩⟩
  · rw [result] at handed_out
    exact absurd handed_out failed
  · rw [result] at handed_out
    exact absurd handed_out failed
  · rw [result, slotPte_isSwapEntry first.1]
    constructor
    · intro positive
      exact first.2.2 0 (Nat.pos_of_ne_zero positive)
    · rintro used rfl
      simp [first.2.1] at used

/-- **The swap round trip.**  After every sequence of calls that swaps in only what
was swapped out, a successful `swap_in_page` of an outstanding entry yields a frame
with the bytes the page was swapped out with; and an entry that the next
`swap_out_page` hands out is recognised exactly if slot 0 is in use. -/
theorem swap_run_law_iff (s : Swap) (buffer : ℕ → BitVec 8) (calls : List SwapCall)
    (legal : Allowed swapStep swapLegal (swapRunInit s buffer) calls) :
    ∃ r, exec swapStep (swapRunInit s buffer) calls = some r ∧ SwapRestores r ∧
      ∀ vaddr physAddr pid mapped,
        0 ≤ (swapOutPage r.swap vaddr physAddr pid mapped).1.toInt →
          (isSwapEntry (swapOutPage r.swap vaddr physAddr pid mapped).1 = true ↔
            testBit 0 r.swap.slotBitmap = true) := by
  obtain ⟨r, run, stored⟩ :=
    exec_total Stored (fun _ _ stored legal => swapStep_stored stored legal)
    calls _ (swapRunInit_stored s buffer) legal
  exact ⟨r, run, stored.restores, fun _ _ _ _ handed_out => swapOutPage_isSwapEntry handed_out⟩

/-- An untouched swap manager on a machine with eight frames, for the runs below. -/
def blankSwap : Swap where
  slotBitmap := Words.full
  slots := fun _ => { flags := 0, refcount := 0, pid := 0, vaddr := 0 }
  totalSlots := 0
  usedSlots := 0
  freeSlots := 0
  swapInCount := 0
  swapOutCount := 0
  swapInPages := 0
  swapOutPages := 0
  storage := fun _ => 0
  memory := fun a => BitVec.ofNat 8 a
  pmm := pmmAllUsed 0x8000 0x1000 0x2000

/-- A second page is swapped out while the first one holds slot 0: its entry is
recognised, and swapping it in brings its bytes back. -/
theorem swap_run_law_second_page :
    isSwapEntry 0x100#32 = true ∧
      ∃ r, exec swapStep (swapRunInit blankSwap fun _ => 0)
          [.swapOut 0x8000 0x4000 1 true, .swapOut 0x9000 0x5000 1 true] = some r ∧
        ∀ mapped q s', swapInPage r.swap 0x100#32 mapped = (some q, s') →
          ∀ i, i < pageSize → s'.memory (q + i) = BitVec.ofNat 8 (0x5000 + i) := by
  have first : ∃ r, exec swapStep (swapRunInit blankSwap fun _ => 0)
      [.swapOut 0x8000 0x4000 1 true] = some r ∧
        testBit 0 r.swap.slotBitmap = true ∧
        (swapOutPage r.swap 0x9000 0x5000 1 true).1 = 0x100#32 :=
    ⟨_, rfl, by decide, by decide⟩
  obtain ⟨r₁, run₁, used, entry⟩ := first
  constructor
  · obtain ⟨r, run, _, exact⟩ := swap_run_law_iff blankSwap (fun _ => 0)
      [.swapOut 0x8000 0x4000 1 true] ⟨trivial, fun _ _ => trivial⟩
    obtain rfl := Option.mem_unique run₁ run
    have recognised := (exact 0x9000 0x5000 1 true (by rw [entry]; decide)).mpr used
    rwa [entry] at recognised
  · obtain ⟨r, run, restores, _⟩ := swap_run_law_iff blankSwap (fun _ => 0)
      [.swapOut 0x8000 0x4000 1 true, .swapOut 0x9000 0x5000 1 true]
      ⟨trivial, fun _ _ => ⟨trivial, fun _ _ => trivial⟩⟩
    refine ⟨r, run, restores 0x100#32 (fun i => BitVec.ofNat 8 (0x5000 + i)) ?_⟩
    cases run
    exact List.mem_cons_self ..

/-- The first page swapped out: the entry returned is 0, which `is_swap_entry`
rejects. -/
theorem swap_out_first_unrecognised :
    (swapOutPage (swapRunInit blankSwap fun _ => 0).swap 0x8000 0x4000 1 true).1 = 0#32 ∧
      0 ≤ (0#32).toInt ∧ isSwapEntry 0#32 = false := by
  refine ⟨?_, ?_, ?_⟩ <;> decide

/-! ## Slot accounting -/

/-- The calls that take and release slots. -/
inductive SlotCall
  | alloc
  | free (slot : ℤ)

/-- One call. -/
def slotStep (s : Swap) : SlotCall → Swap
  | .alloc => (swapAllocSlot s).2
  | .free slot => swapFreeSlot s slot

/-- The counters and the reference counts agree with the bitmap. -/
structure SlotsAccounted (s : Swap) : Prop where
  used : s.usedSlots + s.slotBitmap.clearCount swapMaxPages = swapMaxPages
  free : s.freeSlots = s.slotBitmap.clearCount swapMaxPages
  refcount : ∀ slot, (s.slots slot).refcount = if s.slotBitmap.test slot then 1 else 0

theorem SlotsAccounted.take (acc : SlotsAccounted s)
    (first : FirstZero s.slotBitmap swapMaxPages slot) : SlotsAccounted (s.takeSlot slot) := by
  obtain ⟨used, free, refcount⟩ := acc
  have counted := Words.clearCount_set first.1 first.2.1
  unfold swapMaxPages at *
  refine ⟨?_, ?_, fun other => ?_⟩
  · simp only [Swap.takeSlot, setBit, u32, swapMaxPages]
    omega
  · simp only [Swap.takeSlot, setBit, sub32, u32, swapMaxPages]
    omega
  · by_cases same : other = slot
    · simp [Swap.takeSlot, setBit, same]
    · simp [Swap.takeSlot, setBit, Words.test_set_of_ne _ (Ne.symm same), same, refcount]

/-- A slot in use has one reference, so releasing it frees it. -/
theorem SlotsAccounted.release (acc : SlotsAccounted s) (slot : ℤ) :
    SlotsAccounted (swapFreeSlot s slot) := by
  by_cases outside : slot < 0 ∨ (swapMaxPages : ℤ) ≤ slot
  · rwa [swapFreeSlot, if_pos outside]
  obtain ⟨slot, rfl⟩ := Int.eq_ofNat_of_zero_le (show 0 ≤ slot by omega)
  have below : slot < swapMaxPages := by omega
  cases bit : s.slotBitmap.test slot with
  | false => simpa [swapFreeSlot, testBit_eq_test, bit] using acc
  | true =>
    obtain ⟨used, free, refcount⟩ := acc
    rw [swapFreeSlot_eq below bit (by rw [refcount, bit, if_pos rfl])]
    have counted := Words.clearCount_clear below bit
    have bounded := Words.clearCount_le (s.slotBitmap.clear slot) swapMaxPages
    unfold swapMaxPages at *
    refine ⟨?_, ?_, fun other => ?_⟩
    · simp only [Swap.dropSlot, Swap.setSlot, clearBit, sub32, u32, swapMaxPages]
      omega
    · simp only [Swap.dropSlot, Swap.setSlot, clearBit, u32, swapMaxPages]
      omega
    · by_cases same : other = slot
      · simp [Swap.dropSlot, Swap.setSlot, clearBit, same]
      · simp [Swap.dropSlot, Swap.setSlot, clearBit, Words.test_clear_of_ne _ (Ne.symm same), same,
          refcount]

theorem slotStep_accounted (acc : SlotsAccounted s) (call : SlotCall) :
    SlotsAccounted (slotStep s call) := by
  cases call with
  | alloc =>
    rcases swapAllocSlot_cases s with ⟨slot, first, result⟩ | ⟨_, result⟩
    · rw [slotStep, result]
      exact acc.take first
    · rwa [slotStep, result]
  | free slot => exact acc.release slot

/-- **Slot accounting.**  After every sequence of allocations and releases the
counters add up to the 4096 slots, `used_slots` counts the bits set, a bit is set
exactly if its slot is referred to, and the next allocation returns the least
clear slot, or `-1` exactly if there is none. -/
theorem swap_slots_accounted (s : Swap) (buffer : ℕ → BitVec 8) (calls : List SlotCall) :
    let t := calls.foldl slotStep (swapInit s (some buffer)).2
    t.usedSlots + t.freeSlots = 4096 ∧
      t.usedSlots = Nat.count (fun slot => t.slotBitmap.test slot = true) 4096 ∧
      (∀ slot, t.slotBitmap.test slot = true ↔ 0 < (t.slots slot).refcount) ∧
      ((∃ slot : ℕ, FirstZero t.slotBitmap 4096 slot ∧ (swapAllocSlot t).1 = slot) ∨
        (swapAllocSlot t).1 = -1) ∧
      ((swapAllocSlot t).1 = -1 ↔ SetBelow t.slotBitmap 4096) := by
  intro t
  have init : SlotsAccounted (swapInit s (some buffer)).2 :=
    ⟨by simp [swapInit, bitmapZero], by simp [swapInit, bitmapZero],
      fun slot => by simp [swapInit, bitmapZero]⟩
  obtain ⟨used, free, refcount⟩ : SlotsAccounted t :=
    List.foldlRecOn calls slotStep init fun _ acc call _ => slotStep_accounted acc call
  have counted := t.slotBitmap.count_test_add_clearCount 4096
  unfold swapMaxPages at used free
  refine ⟨by omega, by omega, fun slot => by rw [refcount]; split <;> simp_all, ?_⟩
  rcases swapAllocSlot_cases t with ⟨first, least, result⟩ | ⟨full, result⟩
  · rw [result]
    refine ⟨Or.inl ⟨first, least, rfl⟩, fun absent => by omega, fun full => ?_⟩
    simpa [least.2.1] using full first least.1
  · rw [result]
    exact ⟨Or.inr rfl, iff_of_true rfl full⟩

end EduOS
