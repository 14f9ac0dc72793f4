import EduOS.Library.Paging
import EduOS.Mm.Pmm

/-!
# The virtual memory manager

`kernel/mm/vmm.c`: the mappings of the loaded page directory are edited through
the directory itself.  Its last entry names the directory, so the page tables are
found in the window at `0xFFC00000` and the directory at `0xFFFFF000`; every access
below goes through the page walk, as the code's does.

A page table that is missing is allocated and cleared through the same window.
Addresses are natural numbers below `2 ^ 32`; an access to an unmapped window and a
call of `panic` are `none`.  The processor's translation cache is left out: the code
invalidates every page whose entry it changes.
-/

namespace EduOS

open Memory Option

def pagePresent : BitVec 32 := 0x001

def pageWrite : BitVec 32 := 0x002

def pageUser : BitVec 32 := 0x004

def pageDirVirtAddr : ℕ := 0xFFFFF000

/-- `GET_PAGE_TABLE(pd_idx)` -/
def getPageTable (pdIndex : ℕ) : ℕ := 0xFFC00000 + 4096 * pdIndex

def pdeCreate (ptPhys : ℕ) (flags : BitVec 32) : BitVec 32 := makeEntry ptPhys flags

def pteCreate (pagePhys : ℕ) (flags : BitVec 32) : BitVec 32 := makeEntry pagePhys flags

def pdeGetAddr (pde : BitVec 32) : ℕ := (pde &&& 0xFFFFF000#32).toNat

def pteGetAddr (pte : BitVec 32) : ℕ := (pte &&& 0xFFFFF000#32).toNat

def pteIsPresent (pte : BitVec 32) : Bool := pte &&& pagePresent != 0

/-- Physical memory, the frame of the loaded directory, and the frame allocator. -/
structure Vmm where
  mem : Memory
  cr3 : ℕ
  pmm : Pmm

namespace Vmm

/-- `*(uint32_t *)virt` -/
def load (s : Vmm) (virt : ℕ) : Option (BitVec 32) := s.mem.load s.cr3 virt

/-- `*(uint32_t *)virt = word` -/
def store (s : Vmm) (virt : ℕ) (word : BitVec 32) : Option Vmm :=
  (s.mem.store s.cr3 virt word).map fun mem => { s with mem := mem }

/-- `memset(virt, 0, PAGE_SIZE)` of a page -/
def clearPage (s : Vmm) (virt : ℕ) : Option Vmm :=
  (s.mem.fillPage s.cr3 virt fun _ => 0).map fun mem => { s with mem := mem }

end Vmm

/-- `vmm_map_page` up to the point where the page table exists. -/
def Vmm.ensureTable (pdIndex : ℕ) (flags : BitVec 32) (s : Vmm) : Option Vmm := do
  let pde ← s.load (pageDirVirtAddr + 4 * pdIndex)
  if pteIsPresent pde then some s
  else
    let (ptPhys, pmm) := pmmAllocFrame s.pmm
    if ptPhys = 0 then none
    else do
      let s := { s with pmm := pmm }
      let s ← s.store (pageDirVirtAddr + 4 * pdIndex)
        (pdeCreate ptPhys (pagePresent ||| pageWrite ||| flags))
      s.clearPage (getPageTable pdIndex)

/-- `vmm_map_page` -/
def Vmm.mapPage (virt phys : ℕ) (flags : BitVec 32) (s : Vmm) : Option Vmm := do
  let s ← Vmm.ensureTable (dirIndex virt) flags s
  s.store (getPageTable (dirIndex virt) + 4 * tableIndex virt)
    (pteCreate phys (pagePresent ||| flags))

/-- `vmm_unmap_page` -/
def Vmm.unmapPage (virt : ℕ) (s : Vmm) : Option Vmm := do
  let pde ← s.load (pageDirVirtAddr + 4 * dirIndex virt)
  if !pteIsPresent pde then some s
  else do
    let pte ← s.load (getPageTable (dirIndex virt) + 4 * tableIndex virt)
    if pteIsPresent pte then s.store (getPageTable (dirIndex virt) + 4 * tableIndex virt) 0
    else some s

/-- `vmm_virt_to_phys` -/
def Vmm.virtToPhys (virt : ℕ) (s : Vmm) : Option ℕ := do
  let pde ← s.load (pageDirVirtAddr + 4 * dirIndex virt)
  if !pteIsPresent pde then some 0
  else do
    let pte ← s.load (getPageTable (dirIndex virt) + 4 * tableIndex virt)
    if !pteIsPresent pte then some 0 else some (u32 (pteGetAddr pte + virt % 4096))

/-! ## Entries -/

@[simp] theorem pteIsPresent_eq (pte : BitVec 32) : pteIsPresent pte = entryPresent pte := by
  unfold pteIsPresent entryPresent pagePresent
  rw [show (0x001 : BitVec 32) = 1#32 from rfl, BitVec.and_one_eq_setWidth_ofBool_getLsbD]
  cases pte.getLsbD 0 <;> rfl

@[simp] theorem pteGetAddr_eq (pte : BitVec 32) : pteGetAddr pte = 4096 * entryFrame pte := by
  have cleared : pte &&& 0xFFFFF000#32 = (pte >>> 12) <<< 12 := by
    refine BitVec.eq_of_getLsbD_eq fun i small => ?_
    rw [BitVec.getLsbD_and, BitVec.getLsbD_shiftLeft, BitVec.getLsbD_ushiftRight,
      getLsbD_pageMask small]
    by_cases high : 12 ≤ i
    · simp [high, small, Nat.not_lt.mpr high]
    · simp [high, Nat.lt_of_not_le high]
  rw [pteGetAddr, cleared, BitVec.toNat_shiftLeft, BitVec.toNat_ushiftRight, entryFrame,
    Nat.shiftRight_eq_div_pow, Nat.shiftLeft_eq]
  omega

/-- An address in the frame that an entry names. -/
@[simp] theorem u32_entryAddress (entry : BitVec 32) (virt : ℕ) :
    u32 (4096 * entryFrame entry + virt % 4096) = 4096 * entryFrame entry + virt % 4096 := by
  refine u32_of_lt ?_
  unfold entryFrame
  omega

theorem entryPresent_create (address : ℕ) (flags : BitVec 32) :
    entryPresent (makeEntry address (pagePresent ||| flags)) = true := by
  rw [entryPresent, makeEntry_flag (by omega)]
  simp [pagePresent]

/-! ## Frames -/

/-- An allocation returns 0, or takes the first free frame. -/
theorem pmmAllocFrame_taken {p : Pmm} (bounded : p.totalFrames ≤ 2 ^ 20)
    (succeeded : (pmmAllocFrame p).1 ≠ 0) :
    ∃ frame, (pmmAllocFrame p).1 = 4096 * frame ∧ frame < p.totalFrames ∧
      p.testBit frame = false ∧ pmmAllocFrame p = (4096 * frame, (p.setBit frame).countUsed 1) := by
  rcases pmmAllocFrame_cases p with ⟨i, inside, free, -, result⟩ | ⟨-, result⟩
  · have address : u32 (i * pageSize) = 4096 * i := by
      rw [u32_of_lt (by unfold pageSize; omega), pageSize, Nat.mul_comm]
    rw [address] at result
    exact ⟨i, by rw [result], inside, free, result⟩
  · rw [result] at succeeded
    exact absurd rfl succeeded

theorem pmmAllocFrame_totalFrames (p : Pmm) : (pmmAllocFrame p).2.totalFrames = p.totalFrames := by
  rcases pmmAllocFrame_cases p with ⟨i, -, -, -, result⟩ | ⟨-, result⟩
  · rw [result]
    rfl
  · rw [result]

theorem pmmFreeFrame_totalFrames (p : Pmm) (frameAddr : ℕ) :
    (pmmFreeFrame p frameAddr).totalFrames = p.totalFrames := by
  unfold pmmFreeFrame
  dsimp only
  split_ifs <;> rfl

theorem pmmAllocFrame_aligned (p : Pmm) :
    (pmmAllocFrame p).1 = 4096 * ((pmmAllocFrame p).1 / 4096) ∧
      (pmmAllocFrame p).1 / 4096 < 2 ^ 20 := by
  rcases pmmAllocFrame_cases p with ⟨i, -, -, -, result⟩ | ⟨-, result⟩
  · rw [result]
    unfold u32 pageSize
    omega
  · simp [result]

/-! ## What the calls do to memory -/

section

variable {s : Vmm} {virt phys : ℕ} {flags : BitVec 32}

theorem dirIndex_lt_1024 {virt : ℕ} (below : virt < 0x100000000) : dirIndex virt < 1024 := by
  unfold dirIndex
  omega

theorem dirIndex_lt {virt : ℕ} (below : virt < 0xFFC00000) : dirIndex virt < 1023 := by
  unfold dirIndex
  omega

theorem dirIndex_lt_768 {virt : ℕ} (below : virt < 0xC0000000) : dirIndex virt < 768 := by
  unfold dirIndex
  omega

theorem tableIndex_lt (virt : ℕ) : tableIndex virt < 1024 := Nat.mod_lt _ (by omega)

/-- Virtual addresses with the same indices are on the same page. -/
theorem page_eq_iff (a b : ℕ) :
    a / 4096 = b / 4096 ↔ dirIndex a = dirIndex b ∧ tableIndex a = tableIndex b := by
  unfold dirIndex tableIndex
  omega

variable {pdIndex frame : ℕ} {m : Memory}

theorem Vmm.ensureTable_of_present (self : SelfMapped s.mem s.cr3)
    (small : pdIndex < 1024) (present : entryPresent (s.mem s.cr3 pdIndex) = true) :
    Vmm.ensureTable pdIndex flags s = some s := by
  simp [Vmm.ensureTable, Vmm.load, pageDirVirtAddr, load_self self small, present]

/-- The memory after a page table was allocated in frame `table` and cleared. -/
def withTable (m : Memory) (dir pdIndex table : ℕ) (flags : BitVec 32) : Memory :=
  (m.write dir pdIndex
    (pdeCreate (4096 * table) (pagePresent ||| pageWrite ||| flags))).writePage table fun _ => 0

/-- The frame that `pmm_alloc_frame` hands out next. -/
def nextFrame (s : Vmm) : ℕ := (pmmAllocFrame s.pmm).1 / 4096

theorem pmmAllocFrame_eq (s : Vmm) : (pmmAllocFrame s.pmm).1 = 4096 * nextFrame s :=
  (pmmAllocFrame_aligned s.pmm).1

theorem nextFrame_lt (s : Vmm) : nextFrame s < 2 ^ 20 := (pmmAllocFrame_aligned s.pmm).2

theorem pmmAllocFrame_failed (no_frame : nextFrame s = 0) : (pmmAllocFrame s.pmm).1 = 0 := by
  rw [pmmAllocFrame_eq, no_frame]

theorem nextFrame_taken (bounded : s.pmm.totalFrames ≤ 2 ^ 20) (some_frame : nextFrame s ≠ 0) :
    nextFrame s < s.pmm.totalFrames ∧ s.pmm.testBit (nextFrame s) = false ∧
      (pmmAllocFrame s.pmm).2 = (s.pmm.setBit (nextFrame s)).countUsed 1 := by
  have succeeded : (pmmAllocFrame s.pmm).1 ≠ 0 := by
    intro failed
    exact some_frame (by rw [nextFrame, failed])
  obtain ⟨frame, address, inside, free, taken⟩ := pmmAllocFrame_taken bounded succeeded
  have next : nextFrame s = frame := by
    rw [nextFrame, address, Nat.mul_div_cancel_left _ (by omega)]
  rw [next, taken]
  exact ⟨inside, free, rfl⟩

/-- The allocator does not hand the frame out. -/
def Vmm.InUse (s : Vmm) (frame : ℕ) : Prop :=
  s.pmm.testBit frame = true ∨ s.pmm.totalFrames ≤ frame

theorem Vmm.InUse.ne_next (used : s.InUse frame)
    (bounded : s.pmm.totalFrames ≤ 2 ^ 20) (some_frame : nextFrame s ≠ 0) :
    nextFrame s ≠ frame := by
  obtain ⟨inside, free, -⟩ := nextFrame_taken bounded some_frame
  rintro rfl
  rcases used with marked | outside
  · rw [marked] at free
    cases free
  · omega

theorem Vmm.InUse.alloc (used : s.InUse frame) :
    Vmm.InUse { s with mem := m, pmm := (pmmAllocFrame s.pmm).2 } frame :=
  used.imp pmmAllocFrame_used fun outside => (pmmAllocFrame_totalFrames _).trans_le outside

theorem Vmm.inUse_next (bounded : s.pmm.totalFrames ≤ 2 ^ 20) (some_frame : nextFrame s ≠ 0) :
    Vmm.InUse { s with mem := m, pmm := (pmmAllocFrame s.pmm).2 } (nextFrame s) := by
  obtain ⟨-, -, taken⟩ := nextFrame_taken bounded some_frame
  refine Or.inl ?_
  rw [taken, testBit_taken]
  simp

theorem SelfMapped.write {dir : ℕ} {word : BitVec 32} (self : SelfMapped m dir)
    (low : pdIndex ≠ 1023) : SelfMapped (m.write dir pdIndex word) dir :=
  self.of_last (write_of_index_ne low.symm)

theorem Vmm.ensureTable_of_absent (self : SelfMapped s.mem s.cr3)
    (low : pdIndex < 1023) (absent : entryPresent (s.mem s.cr3 pdIndex) = false)
    (some_frame : nextFrame s ≠ 0) :
    Vmm.ensureTable pdIndex flags s =
      some { s with
        mem := withTable s.mem s.cr3 pdIndex (nextFrame s) flags
        pmm := (pmmAllocFrame s.pmm).2 } := by
  have allocated := pmmAllocFrame_eq s
  have small := nextFrame_lt s
  have nonzero : ¬4096 * nextFrame s = 0 := by omega
  have self' : SelfMapped (s.mem.write s.cr3 pdIndex (pdeCreate (4096 * nextFrame s)
      (pagePresent ||| pageWrite ||| flags))) s.cr3 := self.write (Nat.ne_of_lt low)
  have present : entryPresent (pdeCreate (4096 * nextFrame s)
      (pagePresent ||| pageWrite ||| flags)) = true := by
    rw [BitVec.or_assoc]
    exact entryPresent_create _ _
  have frame : entryFrame (pdeCreate (4096 * nextFrame s)
      (pagePresent ||| pageWrite ||| flags)) = nextFrame s := by
    rw [pdeCreate, entryFrame_makeEntry]
    omega
  have cleared := fillPage_window self' (Nat.lt_succ_of_lt low)
    (by rw [write_self]; exact present) fun _ => 0
  rw [write_self, frame] at cleared
  simp only [Vmm.ensureTable, Vmm.load, pageDirVirtAddr,
    load_self self (Nat.lt_succ_of_lt low), bind_eq_bind, bind_some,
    pteIsPresent_eq, absent, Bool.false_eq_true, if_false, allocated, nonzero, Vmm.store,
    store_self self (Nat.lt_succ_of_lt low), map_some, Vmm.clearPage, getPageTable,
    cleared, withTable]

/-- If a page table can be had, it was there or the next frame is it. -/
theorem Vmm.ensureTable_cases {s' : Vmm} (self : SelfMapped s.mem s.cr3)
    (low : pdIndex < 1023) (ensured : Vmm.ensureTable pdIndex flags s = some s') :
    (entryPresent (s.mem s.cr3 pdIndex) = true ∧ s' = s) ∨
      (entryPresent (s.mem s.cr3 pdIndex) = false ∧ nextFrame s ≠ 0 ∧
        s' = { s with
          mem := withTable s.mem s.cr3 pdIndex (nextFrame s) flags
          pmm := (pmmAllocFrame s.pmm).2 }) := by
  cases present : entryPresent (s.mem s.cr3 pdIndex) with
  | true =>
    rw [Vmm.ensureTable_of_present self (Nat.lt_succ_of_lt low) present] at ensured
    exact Or.inl ⟨rfl, (Option.some.inj ensured).symm⟩
  | false =>
    have some_frame : nextFrame s ≠ 0 := by
      intro no_frame
      simp [Vmm.ensureTable, Vmm.load, pageDirVirtAddr,
        load_self self (Nat.lt_succ_of_lt low), present, pmmAllocFrame_failed no_frame] at ensured
    rw [Vmm.ensureTable_of_absent self low present some_frame] at ensured
    exact Or.inr ⟨rfl, some_frame, (Option.some.inj ensured).symm⟩

/-- The table entry of `virt` in the loaded directory becomes `word`. -/
def Vmm.setEntry (s : Vmm) (virt : ℕ) (word : BitVec 32) : Vmm :=
  { s with mem := s.mem.write (entryFrame (s.mem s.cr3 (dirIndex virt))) (tableIndex virt) word }

section

variable (self : SelfMapped s.mem s.cr3) (below : virt < 0x100000000) (present : entryPresent
    (s.mem s.cr3 (dirIndex virt)) = true)
include self below present

/-- The store of `vmm_map_page` and `vmm_unmap_page`, once the table is there. -/
theorem store_tableEntry (word : BitVec 32) :
    s.store (getPageTable (dirIndex virt) + 4 * tableIndex virt) word =
      some (s.setEntry virt word) := by
  simp [Vmm.store, Vmm.setEntry, getPageTable,
    store_window self (dirIndex_lt_1024 below) (tableIndex_lt virt) present]

theorem load_tableEntry :
    s.load (getPageTable (dirIndex virt) + 4 * tableIndex virt) =
      some (s.mem (entryFrame (s.mem s.cr3 (dirIndex virt))) (tableIndex virt)) := by
  simp [Vmm.load, getPageTable,
    load_window self (dirIndex_lt_1024 below) (tableIndex_lt virt) present]

end

/-- `vmm_unmap_page` clears the entry of a page that has a table, if it does anything. -/
theorem Vmm.unmapPage_cases (self : SelfMapped s.mem s.cr3) (below : virt < 0xFFC00000) :
    (Vmm.unmapPage virt s = some s ∧ walk s.mem s.cr3 virt = none) ∨
      (entryPresent (s.mem s.cr3 (dirIndex virt)) = true ∧
        Vmm.unmapPage virt s = some (s.setEntry virt 0)) := by
  have low := dirIndex_lt below
  have entry : s.load (pageDirVirtAddr + 4 * dirIndex virt) = some (s.mem s.cr3 (dirIndex virt)) :=
    load_self self (Nat.lt_succ_of_lt low)
  cases present : entryPresent (s.mem s.cr3 (dirIndex virt)) with
  | false =>
    exact Or.inl ⟨by simp [Vmm.unmapPage, entry, present], walk_of_absent present⟩
  | true =>
    have pte := load_tableEntry self (show virt < 0x100000000 by omega) present
    cases there : entryPresent
        (s.mem (entryFrame (s.mem s.cr3 (dirIndex virt))) (tableIndex virt)) with
    | false =>
      exact Or.inl ⟨by simp [Vmm.unmapPage, entry, pte, there], mapping_eq_none_of_pte there⟩
    | true =>
      refine Or.inr ⟨rfl, ?_⟩
      simp only [Vmm.unmapPage, entry, pte, bind_eq_bind, bind_some,
        pteIsPresent_eq, present, there, Bool.not_true, Bool.false_eq_true, if_false, if_true]
      exact store_tableEntry self (by omega) present 0

/-- **Reading a mapping back** is the walk of the processor. -/
theorem Vmm.virtToPhys_eq (self : SelfMapped s.mem s.cr3) (below : virt < 0x100000000) :
    Vmm.virtToPhys virt s =
      some (((walk s.mem s.cr3 virt).map fun t => 4096 * t.frame + virt % 4096).getD 0) := by
  have pde := load_self self (dirIndex_lt_1024 below)
  cases present : entryPresent (s.mem s.cr3 (dirIndex virt)) with
  | false => simp [Vmm.virtToPhys, Vmm.load, pageDirVirtAddr, pde, present, walk_of_absent present]
  | true =>
    have pte := load_tableEntry self below present
    have entry :
        s.load (pageDirVirtAddr + 4 * dirIndex virt) = some (s.mem s.cr3 (dirIndex virt)) :=
      pde
    simp only [Vmm.virtToPhys, entry, pte, bind_eq_bind, bind_some, pteIsPresent_eq,
      present, Bool.not_true, Bool.false_eq_true, if_false, walk, mapping, Bool.true_and]
    split_ifs with absent absent <;> simp_all

end

end EduOS
