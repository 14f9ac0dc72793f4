import EduOS.Mm.VmmMapping

/-!
# Page directories and temporary mappings

`vmm_create_page_directory` and `vmm_switch_page_directory` of `kernel/mm/vmm.c`, and
`kernel/mm/kmap.c`.  A directory is named by the frame it is in; the result of
`kmalloc` is a parameter.

The kernel half of the address space is meant to be the same under every directory.
Its directory entries are copied when a directory is created, so page tables that
exist by then are shared; a page table that is added later is entered in the loaded
directory alone.  `kernel_half_shared` says what is left: the half stays shared as long
as no kernel page table is added while there are two directories, and the temporary
table, through which a new directory is written, is within the direct mapping of the
first 4 MiB.
-/

namespace EduOS

open Memory Option

open Function List

def kmapBase : ℕ := 0xF0000000

def kmapPages : ℕ := 1024

structure KmapSlot where
  physAddr : ℕ
  refCount : ℕ

/-- The virtual memory manager with the directories that exist, the kernel's first,
and the slots of `kmap`. -/
structure Directories where
  vmm : Vmm
  live : List ℕ
  kmapSlots : ℕ → KmapSlot
  kmapInitialized : Bool

/-- `for (i = 768; i < 1023; i++) new_pd_virt[i] = current_pd[i]` -/
def copyKernelHalf (newPdVirt : ℕ) (s : Vmm) : Option Vmm :=
  (List.range 255).foldlM
    (fun s k => do
      let entry ← s.load (pageDirVirtAddr + 4 * (768 + k))
      s.store (newPdVirt + 4 * (768 + k)) entry)
    s

/-- `vmm_create_page_directory` from the point where both frames are allocated, up to
where the temporary table is released. -/
def fillPageDirectory (pdPhys tempPtPhys : ℕ) (s : Vmm) : Option Vmm := do
  let tempPt := u32 (tempPtPhys + 0xC0000000)
  let s ← if tempPtPhys < 0x400000 then s.clearPage tempPt
    else (List.range 1024).foldlM (fun s i => s.store (u32 (tempPt + 4 * i)) 0) s
  let s ← s.store tempPt (pteCreate pdPhys (pagePresent ||| pageWrite))
  let oldPde767 ← s.load (pageDirVirtAddr + 4 * 767)
  let s ← s.store (pageDirVirtAddr + 4 * 767) (pdeCreate tempPtPhys (pagePresent ||| pageWrite))
  let tempVirt := 0xBFC00000
  let s ← s.clearPage tempVirt
  let s ← copyKernelHalf tempVirt s
  let s ← s.store (tempVirt + 4 * 1023) (pdeCreate pdPhys (pagePresent ||| pageWrite))
  s.store (pageDirVirtAddr + 4 * 767) oldPde767

/-- `vmm_create_page_directory`; `allocated` tells whether `kmalloc` succeeds. -/
def vmmCreatePageDirectory (allocated : Bool) (s : Directories) : Option (Option ℕ × Directories) :=
  if !allocated then some (none, s)
  else
    let (pdPhys, pmm) := pmmAllocFrame s.vmm.pmm
    if pdPhys = 0 then some (none, { s with vmm := { s.vmm with pmm := pmm } })
    else
      let (tempPtPhys, pmm) := pmmAllocFrame pmm
      if tempPtPhys = 0 then
        some (none, { s with vmm := { s.vmm with pmm := pmmFreeFrame pmm pdPhys } })
      else do
        let vmm ← fillPageDirectory pdPhys tempPtPhys { s.vmm with pmm := pmm }
        some (some (pdPhys / 4096),
          { s with
            vmm := { vmm with pmm := pmmFreeFrame vmm.pmm tempPtPhys }
            live := s.live ++ [pdPhys / 4096] })

/-- `vmm_switch_page_directory` -/
def vmmSwitchPageDirectory (pd : Option ℕ) (s : Directories) : Directories :=
  match pd with
  | none => s
  | some dir => { s with vmm := { s.vmm with cr3 := dir } }

/-- `kmap_init` -/
def kmapInit (s : Directories) : Directories :=
  if s.kmapInitialized then s
  else { s with kmapSlots := fun _ => ⟨0, 0⟩, kmapInitialized := true }

def Directories.setSlot (s : Directories) (i : ℕ) (slot : KmapSlot) : Directories :=
  { s with kmapSlots := update s.kmapSlots i slot }

/-- `kmap`; the address 0 is `NULL`. -/
def kmap (paddr : ℕ) (s : Directories) : Option (ℕ × Directories) :=
  let s := if s.kmapInitialized then s else kmapInit s
  let pageAddr := 4096 * (paddr / 4096)
  if pageAddr < 0x400000 then some (u32 (paddr + 0xC0000000), s)
  else
    match (List.range kmapPages).find? fun i =>
        (s.kmapSlots i).physAddr = pageAddr ∧ 0 < (s.kmapSlots i).refCount with
    | some i =>
      some (kmapBase + i * 4096,
        s.setSlot i { s.kmapSlots i with refCount := u32 ((s.kmapSlots i).refCount + 1) })
    | none =>
      match (List.range kmapPages).find? fun i => (s.kmapSlots i).refCount = 0 with
      | some i => do
          let vmm ← Vmm.mapPage (kmapBase + i * 4096) pageAddr 0x03 s.vmm
          some (kmapBase + i * 4096, { s.setSlot i ⟨pageAddr, 1⟩ with vmm := vmm })
      | none => some (0, s)

/-- `kunmap` -/
def kunmap (vaddr : ℕ) (s : Directories) : Option Directories :=
  if !s.kmapInitialized then some s
  else if vaddr < kmapBase ∨ kmapBase + kmapPages * 4096 ≤ vaddr then some s
  else
    let index := (vaddr - kmapBase) / 4096
    let slot := s.kmapSlots index
    if index < kmapPages ∧ 0 < slot.refCount then
      if slot.refCount - 1 = 0 then do
        let vmm ← Vmm.unmapPage (kmapBase + index * 4096) s.vmm
        some { s.setSlot index ⟨0, 0⟩ with vmm := vmm }
      else some (s.setSlot index { slot with refCount := slot.refCount - 1 })
    else some s

/-- The ways through `kmap`: the direct map, a slot that has the page, a free slot, and no slot
at all. -/
inductive KmapOutcome (s : Directories) (paddr : ℕ) : Option (ℕ × Directories) → Prop
  | direct (low : paddr < 0x400000) : KmapOutcome s paddr (some (paddr + 0xC0000000, s))
  | shared {i : ℕ} (high : 0x400000 ≤ paddr) (inside : i < kmapPages)
      (same : (s.kmapSlots i).physAddr = 4096 * (paddr / 4096))
      (used : 0 < (s.kmapSlots i).refCount) :
      KmapOutcome s paddr (some (kmapBase + i * 4096,
        s.setSlot i { s.kmapSlots i with refCount := u32 ((s.kmapSlots i).refCount + 1) }))
  | taken {i : ℕ} (high : 0x400000 ≤ paddr) (inside : i < kmapPages)
      (free : (s.kmapSlots i).refCount = 0) (new : ∀ j < kmapPages, 0 < (s.kmapSlots j).refCount →
        (s.kmapSlots j).physAddr ≠ 4096 * (paddr / 4096)) :
      KmapOutcome s paddr
        ((Vmm.mapPage (kmapBase + i * 4096) (4096 * (paddr / 4096)) 0x03 s.vmm).bind fun vmm =>
          some (kmapBase + i * 4096, { s.setSlot i ⟨4096 * (paddr / 4096), 1⟩ with vmm := vmm }))
  | full (high : 0x400000 ≤ paddr) (used : ∀ i < kmapPages, (s.kmapSlots i).refCount ≠ 0) :
      KmapOutcome s paddr (some (0, s))

theorem kmap_outcome (s : Directories) (paddr : ℕ) :
    KmapOutcome (kmapInit s) paddr (kmap paddr s) := by
  have init : (if s.kmapInitialized then s else kmapInit s) = kmapInit s := by
    unfold kmapInit
    split_ifs <;> rfl
  unfold kmap
  rw [init]
  generalize kmapInit s = s
  by_cases low : 4096 * (paddr / 4096) < 0x400000
  · rw [if_pos low, u32_of_lt (by omega)]
    exact .direct (by omega)
  have high : 0x400000 ≤ paddr := by omega
  rw [if_neg low]
  split
  · rename_i i found
    have tested := find?_some found
    obtain ⟨same, used⟩ := of_decide_eq_true tested
    exact .shared high (mem_range.mp (mem_of_find?_eq_some found)) same used
  rename_i missed
  split
  · rename_i i found
    have tested := find?_some found
    refine .taken high (mem_range.mp (mem_of_find?_eq_some found))
      (of_decide_eq_true tested) fun j inside used same => ?_
    exact find?_eq_none.mp missed j (mem_range.mpr inside) (decide_eq_true ⟨same, used⟩)
  · rename_i none_free
    refine .full high fun j inside free => ?_
    exact find?_eq_none.mp none_free j (mem_range.mpr inside) (decide_eq_true free)

/-- The calls on directories and their mappings. -/
inductive DirectoryCall
  | create (allocated : Bool)
  | switch (pd : Option ℕ)
  | map (virt phys : ℕ) (flags : BitVec 32)
  | unmap (virt : ℕ)
  | kmap (paddr : ℕ)
  | kunmap (vaddr : ℕ)

def Directories.onVmm (s : Directories) (vmm : Option Vmm) : Option Directories :=
  vmm.map fun vmm => { s with vmm := vmm }

/-- One call. -/
def directoryStep (s : Directories) : DirectoryCall → Option Directories
  | .create allocated => (vmmCreatePageDirectory allocated s).map Prod.snd
  | .switch pd => some (vmmSwitchPageDirectory pd s)
  | .map virt phys flags => s.onVmm (Vmm.mapPage virt phys flags s.vmm)
  | .unmap virt => s.onVmm (Vmm.unmapPage virt s.vmm)
  | .kmap paddr => (EduOS.kmap paddr s).map Prod.snd
  | .kunmap vaddr => EduOS.kunmap vaddr s

/-- Every kernel address translates alike under all directories. -/
def KernelHalfShared (s : Directories) : Prop :=
  ∀ d ∈ s.live, ∀ d' ∈ s.live, ∀ virt, 0xC0000000 ≤ virt → virt < 0xFFC00000 →
    walk s.vmm.mem d virt = walk s.vmm.mem d' virt

/-- Entry `i` of the loaded directory names a page table, or there is no other
directory that would not name a new one. -/
def HasTable (s : Directories) (i : ℕ) : Prop :=
  entryPresent (s.vmm.mem s.vmm.cr3 i) = true ∨ s.live = [s.vmm.cr3]

/-- The page at physical address `phys`, if it is one at all, is in the first 4 MiB and
mapped at `0xC0000000 + phys`. -/
def DirectMapped (s : Vmm) (phys : ℕ) : Prop :=
  phys ≠ 0 → phys < 0x400000 ∧ pageAt s (u32 (phys + 0xC0000000)) = some phys

/-! ## The invariant -/

/-- A page table that a directory may name: in use, and no directory. -/
structure TableOk (s : Directories) (table : ℕ) : Prop where
  notDir : table ∉ s.live
  inUse : s.vmm.pmm.testBit table = true

/-- The directories name themselves and proper page tables, and have the same kernel
entries. -/
structure Shared (s : Directories) : Prop where
  current : s.vmm.cr3 ∈ s.live
  total : s.vmm.pmm.totalFrames ≤ 2 ^ 20
  self : ∀ d ∈ s.live, SelfMapped s.vmm.mem d
  inUse : ∀ d ∈ s.live, s.vmm.pmm.testBit d = true
  same : ∀ d ∈ s.live, ∀ d' ∈ s.live, ∀ i, 768 ≤ i → i < 1023 → s.vmm.mem d i = s.vmm.mem d' i
  table : ∀ d ∈ s.live, ∀ i < 1023, entryPresent (s.vmm.mem d i) = true →
    TableOk s (entryFrame (s.vmm.mem d i))

variable {s s' : Directories} {virt i pd temp : ℕ} {m : Memory}

/-- A frame in use is not a free one. -/
theorem ne_of_used {p : Pmm} {f g : ℕ} (used : p.testBit f = true) (free : p.testBit g = false) :
    f ≠ g := by
  rintro rfl
  rw [used] at free
  cases free

theorem kmapSlot_page (inside : i < kmapPages) :
    kmapBase + i * 4096 < 0xFFC00000 ∧ dirIndex (kmapBase + i * 4096) = 960 := by
  unfold kmapPages at inside
  unfold kmapBase dirIndex
  omega

namespace Shared

theorem kernelHalf (shared : Shared s) : KernelHalfShared s := by
  intro d d_live d' d'_live virt above below
  have same := shared.same d d_live d' d'_live (dirIndex virt)
    (by unfold dirIndex; omega) (dirIndex_lt below)
  unfold walk
  rw [same]

/-- The slots of `kmap` do not matter. -/
theorem of_vmm (shared : Shared s) (vmm : s'.vmm = s.vmm) (live : s'.live = s.live) :
    Shared s' := by
  obtain ⟨vmm', live', slots, initialized⟩ := s'
  obtain rfl : vmm' = s.vmm := vmm
  obtain rfl : live' = s.live := live
  exact ⟨shared.current, shared.total, shared.self, shared.inUse, shared.same,
    fun d d_live i i_low there => { shared.table d d_live i i_low there with }⟩

/-- Only the directories matter, and that used frames stay used. -/
theorem frame {mem : Memory} {pmm : Pmm} (shared : Shared s)
    (dirs : ∀ d ∈ s.live, mem d = s.vmm.mem d) (total : pmm.totalFrames = s.vmm.pmm.totalFrames)
    (used : ∀ f, s.vmm.pmm.testBit f = true → pmm.testBit f = true) :
    Shared { s with vmm := { s.vmm with mem := mem, pmm := pmm } } := by
  refine ⟨shared.current, total ▸ shared.total, fun d d_live => ?_, fun d d_live =>
    used d (shared.inUse d d_live), fun d d_live d' d'_live i from_kernel i_low => ?_,
    fun d d_live i i_low there => ?_⟩
  · exact (shared.self d d_live).of_last (congrFun (dirs d d_live) 1023)
  · show mem d i = mem d' i
    rw [dirs d d_live, dirs d' d'_live]
    exact shared.same d d_live d' d'_live i from_kernel i_low
  · have there' : entryPresent (s.vmm.mem d i) = true := congrFun (dirs d d_live) i ▸ there
    have ok := shared.table d d_live i i_low there'
    show TableOk _ (entryFrame (mem d i))
    rw [dirs d d_live]
    exact ⟨ok.notDir, used _ ok.inUse⟩

/-- An edit of a page table. -/
theorem setEntry (shared : Shared s) (below : virt < 0xFFC00000)
    (present : entryPresent (s.vmm.mem s.vmm.cr3 (dirIndex virt)) = true) (word : BitVec 32) :
    Shared { s with vmm := s.vmm.setEntry virt word } := by
  have ok := shared.table _ shared.current _ (dirIndex_lt below) present
  refine shared.frame (fun d d_live => write_of_frame_ne ?_) rfl fun f used => used
  rintro rfl
  exact ok.notDir d_live

/-- A new page table of the loaded directory, in a frame that was free. -/
theorem withTable {table : ℕ} (shared : Shared s) (i_low : i < 1023)
    (only : 768 ≤ i → s.live = [s.vmm.cr3]) (free : s.vmm.pmm.testBit table = false)
    (small : table < 2 ^ 20) (flags : BitVec 32) :
    Shared
      { s with
        vmm :=
          { s.vmm with
            mem := EduOS.withTable s.vmm.mem s.vmm.cr3 i table flags
            pmm := (s.vmm.pmm.setBit table).countUsed 1 } } := by
  have not_live : ∀ d ∈ s.live, d ≠ table := fun d d_live => ne_of_used (shared.inUse d d_live) free
  have entry : ∀ d ∈ s.live, ∀ j, EduOS.withTable s.vmm.mem s.vmm.cr3 i table flags d j =
      if d = s.vmm.cr3 ∧ j = i then
        pdeCreate (4096 * table) (pagePresent ||| pageWrite ||| flags)
      else s.vmm.mem d j := by
    intro d d_live j
    by_cases same : d = s.vmm.cr3
    · subst same
      rw [withTable_dir (not_live _ d_live).symm]
      simp
    · rw [EduOS.withTable, writePage_of_ne (not_live d d_live),
        write_of_frame_ne same, if_neg fun both => same both.1]
  obtain ⟨new_present, new_frame⟩ := newEntry small flags
  refine ⟨shared.current, shared.total, fun d d_live => ?_, fun d d_live => ?_,
    fun d d_live d' d'_live j from_kernel j_low => ?_, fun d d_live j j_low there => ?_⟩
  · have last := entry d d_live 1023
    rw [if_neg fun both => Nat.ne_of_gt i_low both.2] at last
    exact (shared.self d d_live).of_last last
  · show ((s.vmm.pmm.setBit table).countUsed 1).testBit d = true
    rw [testBit_taken, shared.inUse d d_live, Bool.or_true]
  · dsimp only
    rw [entry d d_live, entry d' d'_live]
    by_cases at_i : j = i
    · have alone := only (at_i ▸ from_kernel)
      rw [alone, mem_singleton] at d_live d'_live
      rw [d_live, d'_live]
    · rw [if_neg fun both => at_i both.2, if_neg fun both => at_i both.2]
      exact shared.same d d_live d' d'_live j from_kernel j_low
  · dsimp only at there ⊢
    rw [entry d d_live] at there ⊢
    split_ifs at there ⊢ with new
    · rw [new_frame]
      refine ⟨fun live => not_live _ live rfl, ?_⟩
      show ((s.vmm.pmm.setBit table).countUsed 1).testBit table = true
      rw [testBit_taken]
      simp
    · have ok := shared.table d d_live j j_low there
      refine ⟨ok.notDir, ?_⟩
      show ((s.vmm.pmm.setBit table).countUsed 1).testBit _ = true
      rw [testBit_taken, ok.inUse, Bool.or_true]

end Shared

/-! ## Creating a directory -/

section

variable {dir : ℕ}

/-- Memory once the new directory is mapped at `0xBFC00000` by the temporary table. -/
def mapTemporarily (m : Memory) (dir pd temp : ℕ) : Memory :=
  ((m.writePage temp fun _ => 0).write temp 0
    (pteCreate (4096 * pd) (pagePresent ||| pageWrite))).write dir 767
    (pdeCreate (4096 * temp) (pagePresent ||| pageWrite))

/-- The first `n` of the copied entries. -/
def copiedEntries (m : Memory) (dir n : ℕ) : ℕ → BitVec 32 := fun i =>
  if 768 ≤ i ∧ i < 768 + n then m dir i else 0

/-- An entry for a frame with the rights of the kernel. -/
theorem kernelEntry {frame : ℕ} (small : frame < 2 ^ 20) :
    entryPresent (makeEntry (4096 * frame) (pagePresent ||| pageWrite)) = true ∧
      entryFrame (makeEntry (4096 * frame) (pagePresent ||| pageWrite)) = frame := by
  refine ⟨entryPresent_create _ _, ?_⟩
  rw [entryFrame_makeEntry]
  omega

theorem mapTemporarily_dir (temp_dir : temp ≠ dir) (other : i ≠ 767) :
    mapTemporarily m dir pd temp dir i = m dir i := by
  rw [mapTemporarily, write_of_index_ne other, write_of_frame_ne temp_dir.symm,
    writePage_of_ne temp_dir.symm]

/-- Through the temporary table the new directory is seen at `0xBFC00000`, whatever is
written in it. -/
theorem walk_temporary (pd_small : pd < 2 ^ 20) (temp_small : temp < 2 ^ 20)
    (temp_dir : temp ≠ dir) (pd_dir : pd ≠ dir) (temp_pd : temp ≠ pd) (page : ℕ → BitVec 32)
    {offset : ℕ} (inside : offset < 4096) :
    ∃ rights, walk ((mapTemporarily m dir pd temp).writePage pd page) dir (0xBFC00000 + offset) =
      some rights ∧ rights.frame = pd := by
  have at_dir : dirIndex (0xBFC00000 + offset) = 767 := by
    unfold dirIndex
    omega
  have at_table : tableIndex (0xBFC00000 + offset) = 0 := by
    unfold tableIndex
    omega
  have pde : (mapTemporarily m dir pd temp).writePage pd page dir 767 =
      makeEntry (4096 * temp) (pagePresent ||| pageWrite) := by
    rw [writePage_of_ne pd_dir.symm, mapTemporarily, write_self, pdeCreate]
  have pte : (mapTemporarily m dir pd temp).writePage pd page temp 0 =
      makeEntry (4096 * pd) (pagePresent ||| pageWrite) := by
    rw [writePage_of_ne temp_pd, mapTemporarily, write_of_frame_ne temp_dir, write_self, pteCreate]
  obtain ⟨pde_present, pde_frame⟩ := kernelEntry temp_small
  obtain ⟨pte_present, pte_frame⟩ := kernelEntry pd_small
  rw [walk, at_dir, at_table, pde, pde_frame, pte, mapping, pde_present, pte_present]
  exact ⟨_, rfl, pte_frame⟩

/-- The copy loop. -/
theorem copyKernelHalf_spec {s : Vmm} (self : SelfMapped m s.cr3) (pd_small : pd < 2 ^ 20)
    (temp_small : temp < 2 ^ 20) (temp_dir : temp ≠ s.cr3) (pd_dir : pd ≠ s.cr3)
    (temp_pd : temp ≠ pd) :
    copyKernelHalf 0xBFC00000
        { s with mem := (mapTemporarily m s.cr3 pd temp).writePage pd fun _ => 0 } =
      some { s with
        mem := (mapTemporarily m s.cr3 pd temp).writePage pd (copiedEntries m s.cr3 255) } := by
  have start : (fun _ => 0 : ℕ → BitVec 32) = copiedEntries m s.cr3 0 := by
    funext i
    rw [copiedEntries, if_neg (by omega)]
  have copied : ∀ n ≤ 255, (List.range n).foldlM
      (fun s k => do
        let entry ← Vmm.load s (pageDirVirtAddr + 4 * (768 + k))
        s.store (0xBFC00000 + 4 * (768 + k)) entry)
      { s with mem := (mapTemporarily m s.cr3 pd temp).writePage pd fun _ => 0 } =
      some { s with
        mem := (mapTemporarily m s.cr3 pd temp).writePage pd (copiedEntries m s.cr3 n) } := by
    intro n
    induction n with
    | zero =>
      intro _
      rw [start]
      rfl
    | succ n ih =>
      intro bound
      obtain ⟨rights, walked, frame⟩ := walk_temporary (m := m) pd_small temp_small temp_dir
        pd_dir temp_pd (copiedEntries m s.cr3 n) (show 4 * (768 + n) < 4096 by omega)
      have row : ∀ i, i ≠ 767 → (mapTemporarily m s.cr3 pd temp).writePage pd
          (copiedEntries m s.cr3 n) s.cr3 i = m s.cr3 i := by
        intro i other
        rw [writePage_of_ne pd_dir.symm, mapTemporarily_dir temp_dir other]
      have self' : SelfMapped ((mapTemporarily m s.cr3 pd temp).writePage pd
          (copiedEntries m s.cr3 n)) s.cr3 := self.of_last (row 1023 (by omega))
      have offset : (0xBFC00000 + 4 * (768 + n)) % 4096 / 4 = 768 + n := by omega
      have next : update (copiedEntries m s.cr3 n) (768 + n) (m s.cr3 (768 + n)) =
          copiedEntries m s.cr3 (n + 1) := by
        funext i
        unfold copiedEntries
        rcases eq_or_ne i (768 + n) with rfl | other
        · rw [update_self, if_pos (by omega)]
        · rw [update_of_ne other]
          exact if_congr (by omega) rfl rfl
      rw [range_succ, foldlM_append, ih (by omega)]
      simp only [bind_eq_bind, bind_some, foldlM_cons, foldlM_nil, Vmm.load,
        pageDirVirtAddr, load_self self' (show 768 + n < 1024 by omega),
        row (768 + n) (by omega), Vmm.store, store_of_walk walked, frame, offset,
        map_some, Option.pure_def]
      simp [Memory.write, writePage_self, next]
      simp [Memory.writePage]
  exact copied 255 (by omega)

/-- The memory with a new directory in frame `pd`, which has the kernel entries of `dir`
and an entry for itself, and what is left of the temporary table. -/
def withDirectory (m : Memory) (dir pd temp : ℕ) : Memory :=
  (m.writePage temp (update (fun _ => 0) 0
    (pteCreate (4096 * pd) (pagePresent ||| pageWrite)))).writePage pd fun i =>
      if i = 1023 then pdeCreate (4096 * pd) (pagePresent ||| pageWrite)
      else if 768 ≤ i ∧ i < 1023 then m dir i else 0

theorem withDirectory_of_ne {f : ℕ} (not_pd : f ≠ pd) (not_temp : f ≠ temp) :
    withDirectory m dir pd temp f = m f := by
  rw [withDirectory, writePage_of_ne not_pd, writePage_of_ne not_temp]

theorem withDirectory_self (i : ℕ) :
    withDirectory m dir pd temp pd i =
      if i = 1023 then pdeCreate (4096 * pd) (pagePresent ||| pageWrite)
      else if 768 ≤ i ∧ i < 1023 then m dir i else 0 := by
  rw [withDirectory, writePage_self]

/-- **A new directory** is written through the temporary table. -/
theorem fillPageDirectory_spec {s : Vmm} (self : SelfMapped s.mem s.cr3)
    (direct : pageAt s (u32 (4096 * temp + 0xC0000000)) = some (4096 * temp))
    (pd_small : pd < 2 ^ 20) (temp_low : temp < 1024)
    (temp_table : entryPresent (s.mem s.cr3 768) = true → entryFrame (s.mem s.cr3 768) ≠ temp)
    (temp_dir : temp ≠ s.cr3) (pd_dir : pd ≠ s.cr3) (temp_pd : temp ≠ pd) :
    fillPageDirectory (4096 * pd) (4096 * temp) s =
      some { s with mem := withDirectory s.mem s.cr3 pd temp } := by
  have temp_small : temp < 2 ^ 20 := by omega
  have low_page : 4096 * temp < 0x400000 := by omega
  have offset : u32 (4096 * temp + 0xC0000000) % 4096 / 4 = 0 := by
    rw [u32_of_lt (by omega)]
    omega
  have at_dir : dirIndex (u32 (4096 * temp + 0xC0000000)) = 768 := by
    rw [u32_of_lt (by omega)]
    unfold dirIndex
    omega
  -- the temporary table is written through the direct mapping, which it is no part of
  obtain ⟨rights, cleared, address⟩ := map_eq_some_iff.mp direct
  have frame : rights.frame = temp := Nat.eq_of_mul_eq_mul_left (by omega) address
  have entered : walk (s.mem.writePage temp fun _ => 0) s.cr3 (u32 (4096 * temp + 0xC0000000)) =
      some rights := by
    rw [← cleared]
    refine walk_congr (by rw [writePage_of_ne temp_dir.symm]) fun there => ?_
    rw [at_dir] at there ⊢
    rw [writePage_of_ne (temp_table there)]
  have row : (s.mem.writePage temp fun _ => 0).write temp 0
      (pteCreate (4096 * pd) (pagePresent ||| pageWrite)) s.cr3 = s.mem s.cr3 := by
    rw [write_of_frame_ne temp_dir.symm, writePage_of_ne temp_dir.symm]
  have self₁ := self.of_last (congrFun row 1023)
  -- then the new directory through the temporary table
  have unwritten : (mapTemporarily s.mem s.cr3 pd temp).writePage pd
      (mapTemporarily s.mem s.cr3 pd temp pd) = mapTemporarily s.mem s.cr3 pd temp :=
    update_eq_self pd _
  obtain ⟨rights₂, emptied, frame₂⟩ := walk_temporary (m := s.mem) pd_small temp_small temp_dir
    pd_dir temp_pd (mapTemporarily s.mem s.cr3 pd temp pd) (show 0 < 4096 by omega)
  rw [unwritten] at emptied
  obtain ⟨rights₃, closed, frame₃⟩ := walk_temporary (m := s.mem) pd_small temp_small temp_dir
    pd_dir temp_pd (copiedEntries s.mem s.cr3 255) (show 4 * 1023 < 4096 by omega)
  have self₂ : SelfMapped ((mapTemporarily s.mem s.cr3 pd temp).writePage pd
      (update (copiedEntries s.mem s.cr3 255) 1023
        (pdeCreate (4096 * pd) (pagePresent ||| pageWrite)))) s.cr3 :=
    self.of_last (by rw [writePage_of_ne pd_dir.symm, mapTemporarily_dir temp_dir (by omega)])
  have last : ((mapTemporarily s.mem s.cr3 pd temp).writePage pd
      (copiedEntries s.mem s.cr3 255)).write pd 1023
        (pdeCreate (4096 * pd) (pagePresent ||| pageWrite)) =
      (mapTemporarily s.mem s.cr3 pd temp).writePage pd
        (update (copiedEntries s.mem s.cr3 255) 1023
          (pdeCreate (4096 * pd) (pagePresent ||| pageWrite))) := by
    simp only [Memory.write, writePage_self]
    simp [Memory.writePage]
  have result : ((mapTemporarily s.mem s.cr3 pd temp).writePage pd
      (update (copiedEntries s.mem s.cr3 255) 1023
        (pdeCreate (4096 * pd) (pagePresent ||| pageWrite)))).write s.cr3 767 (s.mem s.cr3 767) =
      withDirectory s.mem s.cr3 pd temp := by
    funext f
    rcases eq_or_ne f pd with rfl | not_pd
    · funext i
      rw [write_of_frame_ne pd_dir, writePage_self, update_apply, withDirectory_self]
      rfl
    rcases eq_or_ne f s.cr3 with rfl | not_dir
    · funext i
      rw [withDirectory_of_ne not_pd temp_dir.symm]
      rcases eq_or_ne i 767 with rfl | other
      · exact write_self
      · rw [write_of_index_ne other, writePage_of_ne not_pd, mapTemporarily_dir temp_dir other]
    · rw [write_of_frame_ne not_dir, writePage_of_ne not_pd, withDirectory,
        writePage_of_ne not_pd, mapTemporarily, write_of_frame_ne not_dir]
      simp only [Memory.write, writePage_self]
      simp [Memory.writePage]
  have copied := copyKernelHalf_spec self pd_small temp_small temp_dir pd_dir temp_pd
  have top : (0xBFC00000 + 4 * 1023) % 4096 / 4 = 1023 := by omega
  simp only [fillPageDirectory, low_page, if_true, Vmm.clearPage, fillPage_of_walk cleared,
    frame, map_some, bind_eq_bind, bind_some, Vmm.store,
    store_of_walk entered, offset, Vmm.load, pageDirVirtAddr,
    load_self self₁ (show 767 < 1024 by omega), row,
    store_self self₁ (show 767 < 1024 by omega)]
  rw [← mapTemporarily, fillPage_of_walk emptied, frame₂]
  simp only [map_some, bind_some]
  rw [copied]
  simp [store_of_walk closed, frame₃, top, last,
    store_self self₂ (show 767 < 1024 by omega), result]

end

/-! ## One call -/

/-- The state with a new directory in frame `pd`. -/
def Directories.withNew (s : Directories) (pd temp : ℕ) (pmm : Pmm) : Directories :=
  { s with
    vmm := { s.vmm with mem := withDirectory s.vmm.mem s.vmm.cr3 pd temp, pmm := pmm }
    live := s.live ++ [pd] }

namespace Shared

/-- A new directory in a frame `pd` that was free. -/
theorem addDirectory {pmm : Pmm} (shared : Shared s) (small : pd < 2 ^ 20)
    (pd_free : s.vmm.pmm.testBit pd = false) (temp_free : s.vmm.pmm.testBit temp = false)
    (total : pmm.totalFrames = s.vmm.pmm.totalFrames)
    (used : ∀ f, s.vmm.pmm.testBit f = true → pmm.testBit f = true)
    (pd_used : pmm.testBit pd = true) (others : ∀ f, f ≠ pd → f ≠ temp → m f = s.vmm.mem f)
    (row : ∀ i, m pd i = if i = 1023 then pdeCreate (4096 * pd) (pagePresent ||| pageWrite)
      else if 768 ≤ i ∧ i < 1023 then s.vmm.mem s.vmm.cr3 i else 0) :
    Shared { s with vmm := { s.vmm with mem := m, pmm := pmm }, live := s.live ++ [pd] } := by
  have dirs : ∀ d ∈ s.live, m d = s.vmm.mem d := fun d d_live =>
    others d (ne_of_used (shared.inUse d d_live) pd_free)
      (ne_of_used (shared.inUse d d_live) temp_free)
  have fresh : ∀ t, s.vmm.pmm.testBit t = true → t ∉ s.live → t ∉ s.live ++ [pd] := by
    intro t t_used not_live
    rw [mem_append, mem_singleton]
    rintro (live | new)
    · exact not_live live
    · exact ne_of_used t_used pd_free new
  have kernel : ∀ d ∈ s.live ++ [pd], ∀ i, 768 ≤ i → i < 1023 → m d i = s.vmm.mem s.vmm.cr3 i := by
    intro d d_live i from_kernel i_low
    rcases mem_append.mp d_live with old | new
    · rw [dirs d old]
      exact shared.same d old _ shared.current i from_kernel i_low
    · rw [mem_singleton.mp new, row, if_neg (by omega), if_pos ⟨from_kernel, i_low⟩]
  refine ⟨mem_append_left _ shared.current, total ▸ shared.total, fun d d_live => ?_,
    fun d d_live => ?_, fun d d_live d' d'_live i from_kernel i_low => ?_,
    fun d d_live i i_low there => ?_⟩
  · rcases mem_append.mp d_live with old | new
    · exact (shared.self d old).of_last (congrFun (dirs d old) 1023)
    · rw [mem_singleton.mp new]
      have last : m pd 1023 = _ := (row 1023).trans (if_pos rfl)
      obtain ⟨present, frame⟩ := kernelEntry small
      exact ⟨(congrArg entryPresent last).trans present, (congrArg entryFrame last).trans frame⟩
  · rcases mem_append.mp d_live with old | new
    · exact used d (shared.inUse d old)
    · rw [mem_singleton.mp new]
      exact pd_used
  · exact (kernel d d_live i from_kernel i_low).trans (kernel d' d'_live i from_kernel i_low).symm
  · obtain ⟨owner, owner_live, entry⟩ : ∃ d₀ ∈ s.live, m d i = s.vmm.mem d₀ i := by
      rcases mem_append.mp d_live with old | new
      · exact ⟨d, old, by rw [dirs d old]⟩
      refine ⟨s.vmm.cr3, shared.current, ?_⟩
      rw [mem_singleton.mp new] at there ⊢
      have at_pd := row i
      rw [if_neg (Nat.ne_of_lt i_low)] at at_pd
      split_ifs at at_pd with high
      · exact at_pd
      · exact absurd ((congrArg entryPresent at_pd).symm.trans there) (by decide)
    have ok := shared.table owner owner_live i i_low (entry ▸ there)
    show TableOk _ (entryFrame (m d i))
    rw [entry]
    exact ⟨fresh _ ok.inUse ok.notDir, used _ ok.inUse⟩

theorem pmmAllocFrame_keeps {p : Pmm} {result : ℕ × Pmm} (eq : pmmAllocFrame p = result) :
    (∀ f, p.testBit f = true → result.2.testBit f = true) ∧
      result.2.totalFrames = p.totalFrames :=
  eq ▸ ⟨fun _ f_used => pmmAllocFrame_used f_used, pmmAllocFrame_totalFrames p⟩

/-- `vmm_create_page_directory`, when frames are left and the temporary table is within
the direct mapping. -/
theorem created {first second : ℕ × Pmm} (shared : Shared s)
    (first_eq : pmmAllocFrame s.vmm.pmm = first) (second_eq : pmmAllocFrame first.2 = second)
    (some_pd : first.1 ≠ 0) (some_temp : second.1 ≠ 0) (direct : DirectMapped s.vmm second.1) :
    ∃ s', s' = s.withNew (first.1 / 4096) (second.1 / 4096) (pmmFreeFrame second.2 second.1) ∧
      vmmCreatePageDirectory true s = some (some (first.1 / 4096), s') ∧ Shared s' ∧
      ∀ d ∈ s.live, s'.vmm.mem d = s.vmm.mem d := by
  obtain ⟨pd, pd_eq, pd_inside, pd_free, pd_taken⟩ :=
    pmmAllocFrame_taken shared.total (by rw [first_eq]; exact some_pd)
  rw [first_eq] at pd_eq pd_taken
  obtain ⟨used₁, total₁⟩ := pmmAllocFrame_keeps first_eq
  obtain ⟨used₂, total₂⟩ := pmmAllocFrame_keeps second_eq
  obtain ⟨temp, temp_eq, -, temp_free₁, -⟩ :=
    pmmAllocFrame_taken (total₁ ▸ shared.total) (by rw [second_eq]; exact some_temp)
  rw [second_eq] at temp_eq
  have apart : ∀ f, first.2.testBit f = true → temp ≠ f := fun f f_used =>
    (ne_of_used f_used temp_free₁).symm
  have temp_free : s.vmm.pmm.testBit temp = false := by
    by_contra temp_used
    exact apart temp (used₁ temp (Bool.eq_true_of_not_eq_false temp_used)) rfl
  have pd_used : first.2.testBit pd = true := by
    rw [pd_taken, testBit_taken]
    simp
  have pd_small : pd < 2 ^ 20 := lt_of_lt_of_le pd_inside shared.total
  obtain ⟨temp_near, at_window⟩ := direct some_temp
  rw [temp_eq] at at_window
  have temp_low : temp < 1024 := by omega
  have other_pd : ∀ d ∈ s.live, d ≠ pd := fun d d_live => ne_of_used (shared.inUse d d_live) pd_free
  have filled := fillPageDirectory_spec
    (s := { s.vmm with pmm := second.2 }) (shared.self _ shared.current) at_window pd_small
    temp_low (fun there => (apart _ (used₁ _
      (shared.table _ shared.current 768 (by omega) there).inUse)).symm)
    (apart _ (used₁ _ (shared.inUse _ shared.current))) (other_pd _ shared.current).symm
    (apart pd pd_used)
  have kept : ∀ f, first.2.testBit f = true →
      (pmmFreeFrame second.2 (4096 * temp)).testBit f = true := by
    intro f f_used
    refine pmmFreeFrame_test (used₂ f f_used) ?_
    rw [pageSize, Nat.mul_div_cancel_left _ (by omega)]
    exact apart f f_used
  have pd_frame : first.1 / 4096 = pd := by
    rw [pd_eq, Nat.mul_div_cancel_left _ (by omega)]
  have temp_frame : second.1 / 4096 = temp := by
    rw [temp_eq, Nat.mul_div_cancel_left _ (by omega)]
  refine ⟨_, rfl, ?_, ?_, fun d d_live => ?_⟩
  · simp only [vmmCreatePageDirectory, Bool.not_true, Bool.false_eq_true, if_false, first_eq,
      second_eq, some_pd, some_temp, pd_frame, temp_frame]
    rw [pd_eq, temp_eq, filled]
    rfl
  · rw [pd_frame, temp_frame, temp_eq]
    exact shared.addDirectory pd_small pd_free temp_free (by
      rw [pmmFreeFrame_totalFrames, total₂, total₁])
      (fun f f_used => kept f (used₁ f f_used)) (kept pd pd_used)
      (fun _ not_pd not_temp => withDirectory_of_ne not_pd not_temp) withDirectory_self
  · rw [pd_frame, temp_frame]
    exact withDirectory_of_ne (other_pd d d_live) (apart d (used₁ d (shared.inUse d d_live))).symm

theorem create {allocated : Bool} (shared : Shared s)
    (direct : DirectMapped s.vmm (pmmAllocFrame (pmmAllocFrame s.vmm.pmm).2).1)
    (done : directoryStep s (.create allocated) = some s') : Shared s' := by
  obtain ⟨first, first_eq⟩ : ∃ p, pmmAllocFrame s.vmm.pmm = p := ⟨_, rfl⟩
  obtain ⟨second, second_eq⟩ : ∃ p, pmmAllocFrame first.2 = p := ⟨_, rfl⟩
  obtain ⟨used₁, total₁⟩ := pmmAllocFrame_keeps first_eq
  obtain ⟨used₂, total₂⟩ := pmmAllocFrame_keeps second_eq
  rw [first_eq, second_eq] at direct
  cases allocated with
  | false =>
    obtain rfl : s = s' := Option.some.inj done
    exact shared
  | true =>
    by_cases no_pd : first.1 = 0
    · simp only [directoryStep, vmmCreatePageDirectory, Bool.not_true, Bool.false_eq_true,
        if_false, first_eq, no_pd, if_true] at done
      cases done
      exact shared.frame (fun _ _ => rfl) total₁ used₁
    by_cases no_temp : second.1 = 0
    · simp only [directoryStep, vmmCreatePageDirectory, Bool.not_true, Bool.false_eq_true,
        if_false, first_eq, second_eq, no_pd, no_temp, if_true] at done
      cases done
      obtain ⟨pd, pd_eq, -, pd_free, -⟩ :=
        pmmAllocFrame_taken shared.total (by rw [first_eq]; exact no_pd)
      refine shared.frame (fun _ _ => rfl) ?_ fun f f_used =>
        pmmFreeFrame_test (used₂ f (used₁ f f_used)) ?_
      · rw [pmmFreeFrame_totalFrames, total₂, total₁]
      · rw [← first_eq, pd_eq, pageSize, Nat.mul_div_cancel_left _ (by omega)]
        exact (ne_of_used f_used pd_free).symm
    · obtain ⟨s₁, -, ran, shared₁, -⟩ := shared.created first_eq second_eq no_pd no_temp direct
      rw [directoryStep, ran] at done
      cases done
      exact shared₁

/-- The frame of a new page table is no directory, and the loaded directory names it. -/
theorem newTable (shared : Shared s) (some_frame : nextFrame s.vmm ≠ 0) (flags : BitVec 32) :
    nextFrame s.vmm ∉ s.live ∧
      entryPresent (EduOS.withTable s.vmm.mem s.vmm.cr3 i (nextFrame s.vmm) flags s.vmm.cr3 i) =
        true ∧
      entryFrame (EduOS.withTable s.vmm.mem s.vmm.cr3 i (nextFrame s.vmm) flags s.vmm.cr3 i) =
        nextFrame s.vmm := by
  obtain ⟨inside, free, -⟩ := nextFrame_taken shared.total some_frame
  have small : nextFrame s.vmm < 2 ^ 20 := lt_of_lt_of_le inside shared.total
  have not_live : nextFrame s.vmm ∉ s.live := fun live => ne_of_used (shared.inUse _ live) free rfl
  have other : nextFrame s.vmm ≠ s.vmm.cr3 := fun same => not_live (same ▸ shared.current)
  rw [withTable_dir other, if_pos rfl]
  exact ⟨not_live, newEntry small flags⟩

/-- `vmm_map_page`, when no kernel table has to be added or there is no other
directory. -/
theorem map {phys : ℕ} {flags : BitVec 32} {vmm : Vmm} (shared : Shared s)
    (below : virt < 0xFFC00000) (ready : 768 ≤ dirIndex virt → HasTable s (dirIndex virt))
    (mapped : Vmm.mapPage virt phys flags s.vmm = some vmm) : Shared { s with vmm := vmm } := by
  have self := shared.self _ shared.current
  have i_low := dirIndex_lt below
  obtain ⟨vmm₁, ensured, stored⟩ := bind_eq_some_iff.mp mapped
  rcases Vmm.ensureTable_cases self i_low ensured with ⟨present, rfl⟩ | ⟨absent, some_frame, eq⟩
  · rw [store_tableEntry self (by omega) present] at stored
    cases stored
    exact shared.setEntry below present _
  obtain ⟨inside, free, taken⟩ := nextFrame_taken shared.total some_frame
  have small : nextFrame s.vmm < 2 ^ 20 := lt_of_lt_of_le inside shared.total
  have only : 768 ≤ dirIndex virt → s.live = [s.vmm.cr3] := by
    intro high
    rcases ready high with present | alone
    · rw [absent] at present
      cases present
    · exact alone
  have shared₁ := shared.withTable i_low only free small flags
  rw [← taken, ← eq] at shared₁
  have present : entryPresent (vmm₁.mem vmm₁.cr3 (dirIndex virt)) = true := by
    rw [eq]
    exact (shared.newTable some_frame flags).2.1
  rw [store_tableEntry (shared₁.self _ shared₁.current) (by omega) present] at stored
  cases stored
  exact shared₁.setEntry below present _

/-- A kernel page that has no table yet is mapped in the loaded directory alone. -/
theorem map_breaks {d : ℕ} (phys : ℕ) (flags : BitVec 32) (shared : Shared s)
    (above : 0xC0000000 ≤ virt) (below : virt < 0xFFC00000) (d_live : d ∈ s.live)
    (other : d ≠ s.vmm.cr3) (absent : entryPresent (s.vmm.mem s.vmm.cr3 (dirIndex virt)) = false)
    (some_frame : nextFrame s.vmm ≠ 0) :
    ∃ s', directoryStep s (.map virt phys flags) = some s' ∧ ¬KernelHalfShared s' := by
  have self := shared.self _ shared.current
  have i_low := dirIndex_lt below
  obtain ⟨not_live, present, frame⟩ := shared.newTable (i := dirIndex virt) some_frame flags
  have not_dir : nextFrame s.vmm ≠ s.vmm.cr3 := by
    intro same
    rw [same] at not_live
    exact not_live shared.current
  obtain ⟨m, m_eq⟩ : ∃ m, EduOS.withTable s.vmm.mem s.vmm.cr3 (dirIndex virt) (nextFrame s.vmm)
      flags = m := ⟨_, rfl⟩
  have self₁ : SelfMapped m s.vmm.cr3 := by
    refine self.of_last ?_
    rw [← m_eq, withTable_dir not_dir, if_neg (Nat.ne_of_gt i_low)]
  have ensured : Vmm.ensureTable (dirIndex virt) flags s.vmm =
      some { s.vmm with mem := m, pmm := (pmmAllocFrame s.vmm.pmm).2 } := by
    rw [Vmm.ensureTable_of_absent self i_low absent some_frame, m_eq]
  rw [m_eq] at present frame
  have stored := store_tableEntry
    (s := { s.vmm with mem := m, pmm := (pmmAllocFrame s.vmm.pmm).2 }) self₁ (by omega) present
    (pteCreate phys (pagePresent ||| flags))
  refine ⟨{ s with
    vmm := Vmm.setEntry { s.vmm with mem := m, pmm := (pmmAllocFrame s.vmm.pmm).2 } virt
      (pteCreate phys (pagePresent ||| flags)) }, ?_, fun half => ?_⟩
  · simp [directoryStep, Vmm.mapPage, ensured, stored, Directories.onVmm]
  -- the loaded directory has the new table, the other one no entry at all
  have same := half d d_live _ shared.current virt above below
  unfold Vmm.setEntry at same
  rw [frame] at same
  have there : walk (m.write (nextFrame s.vmm) (tableIndex virt)
      (pteCreate phys (pagePresent ||| flags))) s.vmm.cr3 virt ≠ none := by
    rw [walk, write_of_frame_ne not_dir.symm, frame, write_self, mapping, present,
      pteCreate, entryPresent_create]
    simp
  have missing : walk (m.write (nextFrame s.vmm) (tableIndex virt)
      (pteCreate phys (pagePresent ||| flags))) d virt = none := by
    have d_ne : d ≠ nextFrame s.vmm := ne_of_mem_of_not_mem d_live not_live
    refine walk_of_absent ?_
    rw [write_of_frame_ne d_ne, ← m_eq, EduOS.withTable, writePage_of_ne d_ne,
      write_of_frame_ne other, shared.same d d_live _ shared.current _
        (by unfold dirIndex; omega) i_low]
    exact absent
  exact there (same.symm.trans missing)

/-- `vmm_unmap_page` -/
theorem unmap {vmm : Vmm} (shared : Shared s) (below : virt < 0xFFC00000)
    (unmapped : Vmm.unmapPage virt s.vmm = some vmm) : Shared { s with vmm := vmm } := by
  rcases Vmm.unmapPage_cases (shared.self _ shared.current) below with
    ⟨idle, -⟩ | ⟨present, cleared⟩
  · rw [idle] at unmapped
    cases unmapped
    exact shared
  · rw [cleared] at unmapped
    cases unmapped
    exact shared.setEntry below present 0

theorem kmap {paddr : ℕ} (shared : Shared s)
    (ready : 0x400000 ≤ 4096 * (paddr / 4096) → HasTable s 960)
    (done : directoryStep s (.kmap paddr) = some s') : Shared s' := by
  obtain ⟨vmm_eq, live_eq⟩ : (kmapInit s).vmm = s.vmm ∧ (kmapInit s).live = s.live := by
    rw [kmapInit]
    split_ifs <;> exact ⟨rfl, rfl⟩
  have shared₁ : Shared (kmapInit s) := shared.of_vmm vmm_eq live_eq
  have outcome := kmap_outcome s paddr
  rw [directoryStep] at done
  generalize EduOS.kmap paddr s = result at outcome done
  cases outcome with
  | direct | full =>
    cases done
    exact shared₁
  | shared =>
    cases done
    exact shared₁.of_vmm rfl rfl
  | taken high inside =>
    obtain ⟨below, index⟩ := kmapSlot_page inside
    obtain ⟨_, returned, rfl⟩ := map_eq_some_iff.mp done
    obtain ⟨vmm, mapped, result⟩ := bind_eq_some_iff.mp returned
    cases result
    refine (shared₁.map below (fun _ => ?_) mapped).of_vmm rfl rfl
    rw [index, HasTable, vmm_eq, live_eq]
    exact ready (by omega)

theorem kunmap {vaddr : ℕ} (shared : Shared s)
    (done : directoryStep s (.kunmap vaddr) = some s') : Shared s' := by
  simp only [directoryStep, EduOS.kunmap] at done
  split_ifs at done with uninitialized outside used last
  · cases done
    exact shared
  · cases done
    exact shared
  · obtain ⟨vmm, unmapped, result⟩ := bind_eq_some_iff.mp done
    cases result
    obtain ⟨below, index⟩ := kmapSlot_page used.1
    exact (shared.unmap below unmapped).of_vmm rfl rfl
  · cases done
    exact shared.of_vmm rfl rfl
  · cases done
    exact shared

end Shared

/-! ## Whole runs -/

/-- The calls that keep the kernel half shared: mappings outside the window, a new
kernel table only while there is one directory, a new directory only while its
temporary table is within the direct mapping, and switches between the directories
that exist. -/
def keepsShared (s : Directories) : DirectoryCall → Prop
  | .create _ => DirectMapped s.vmm (pmmAllocFrame (pmmAllocFrame s.vmm.pmm).2).1
  | .switch pd => ∀ dir, pd = some dir → dir ∈ s.live
  | .map virt _ _ =>
    virt < 0xFFC00000 ∧ (768 ≤ dirIndex virt → HasTable s (dirIndex virt))
  | .unmap virt => virt < 0xFFC00000
  | .kmap paddr => 0x400000 ≤ 4096 * (paddr / 4096) → HasTable s 960
  | .kunmap _ => True

theorem Shared.step {call : DirectoryCall} (shared : Shared s) (good : keepsShared s call)
    (done : directoryStep s call = some s') : Shared s' := by
  cases call with
  | create allocated => exact shared.create good done
  | switch pd =>
    cases done
    cases pd with
    | none => exact shared
    | some dir =>
      exact ⟨good dir rfl, shared.total, shared.self, shared.inUse, shared.same,
        fun d d_live i i_low there => { shared.table d d_live i i_low there with }⟩
  | map virt phys flags =>
    obtain ⟨below, ready⟩ := good
    obtain ⟨vmm, mapped, rfl⟩ := map_eq_some_iff.mp done
    exact shared.map below ready mapped
  | unmap virt =>
    obtain ⟨vmm, unmapped, rfl⟩ := map_eq_some_iff.mp done
    exact shared.unmap good unmapped
  | kmap paddr => exact shared.kmap good done
  | kunmap vaddr => exact shared.kunmap done

/-- The state after `vmm_init`: the boot directory is loaded and the only one, and its
frames are in use. -/
structure AfterVmmInit (s : Directories) : Prop where
  live : s.live = [9]
  loaded : s.vmm.cr3 = 9
  directory : s.vmm.mem 9 = bootMemory 9
  table : s.vmm.mem 0xA = bootMemory 0xA
  inUse : s.vmm.pmm.testBit 9 = true ∧ s.vmm.pmm.testBit 0xA = true
  total : s.vmm.pmm.totalFrames ≤ 2 ^ 20

theorem AfterVmmInit.shared (boot : AfterVmmInit s) : Shared s := by
  have only : ∀ d ∈ s.live, d = 9 := by simp [boot.live]
  refine ⟨by simp [boot.live, boot.loaded], boot.total, fun d d_live => ?_, fun d d_live => ?_,
    fun d d_live d' d'_live i _ _ => ?_, fun d d_live i i_low there => ?_⟩
  · obtain rfl := only d d_live
    exact ⟨by rw [boot.directory]; decide, by rw [boot.directory]; decide⟩
  · obtain rfl := only d d_live
    exact boot.inUse.1
  · rw [only d d_live, only d' d'_live]
  · obtain rfl := only d d_live
    rw [boot.directory] at there ⊢
    have entry : bootMemory 9 i = if i = 0 ∨ i = 768 then 0xA003 else 0 := by
      simp [bootMemory, Nat.ne_of_lt i_low]
    rw [entry] at there ⊢
    split_ifs at there ⊢ with low
    · refine ⟨?_, boot.inUse.2⟩
      rw [boot.live]
      decide
    · exact absurd there (by decide)

/-- **The shared kernel half.**  In every run from the state after `vmm_init` whose
calls keep to `keepsShared`, all directories translate the kernel addresses alike. -/
theorem kernel_half_shared (s₀ : Directories) (boot : AfterVmmInit s₀) (calls : List DirectoryCall)
    (allowed : Allowed directoryStep keepsShared s₀ calls) (s : Directories)
    (ran : exec directoryStep s₀ calls = some s) : KernelHalfShared s :=
  (exec_keeps Shared (fun _ _ _ shared good done => shared.step good done) calls s₀ s boot.shared
    allowed ran).kernelHalf

/-- A machine with 128 MiB whose frames from 288 on are free. -/
def bootDirectories : Directories where
  vmm :=
    { mem := bootMemory
      cr3 := 9
      pmm :=
        { pmmAllUsed 0x8000000 0x100000 0x120000 with
          bitmap := fun word => if word < 9 then BitVec.allOnes 32 else 0 } }
  live := [9]
  kmapSlots := fun _ => ⟨0, 0⟩
  kmapInitialized := false

theorem bootDirectories_boot : AfterVmmInit bootDirectories :=
  ⟨rfl, rfl, rfl, rfl, ⟨by decide, by decide⟩, by decide⟩

theorem bootDirectories_created :
    ∃ s, directoryStep bootDirectories (.create true) = some s ∧ Shared s ∧ s.live = [9, 288] ∧
      s.vmm.cr3 = 9 ∧ s.vmm.mem 9 = bootMemory 9 ∧ nextFrame s.vmm ≠ 0 ∧
      keepsShared bootDirectories (.create true) := by
  have first : (pmmAllocFrame bootDirectories.vmm.pmm).1 = 4096 * 288 := by decide +kernel
  have second : (pmmAllocFrame (pmmAllocFrame bootDirectories.vmm.pmm).2).1 = 4096 * 289 := by
    decide +kernel
  have direct : DirectMapped bootDirectories.vmm
      (pmmAllocFrame (pmmAllocFrame bootDirectories.vmm.pmm).2).1 := by
    rw [second]
    exact fun _ => ⟨by decide, by decide⟩
  obtain ⟨s, rfl, created, shared, dirs⟩ := bootDirectories_boot.shared.created
    rfl rfl (by rw [first]; decide) (by rw [second]; decide) direct
  refine ⟨_, by rw [directoryStep, created]; rfl, shared, ?_, rfl,
    dirs 9 (mem_singleton.mpr rfl), by decide +kernel, direct⟩
  rw [first]
  rfl

theorem kernel_half_shared_switched :
    ∃ s, exec directoryStep bootDirectories [.create true, .switch (some 288)] = some s ∧
      s.vmm.cr3 = 288 ∧ s.live = [9, 288] ∧ KernelHalfShared s := by
  obtain ⟨s, created, -, live, -, -, -, good⟩ := bootDirectories_created
  have ran : exec directoryStep bootDirectories [.create true, .switch (some 288)] =
      some (vmmSwitchPageDirectory (some 288) s) := by
    rw [exec_cons, created]
    rfl
  have allowed : Allowed directoryStep keepsShared bootDirectories
      [.create true, .switch (some 288)] := by
    refine ⟨good, fun s' done => ⟨fun dir named => ?_, fun _ _ => trivial⟩⟩
    rw [created] at done
    cases done
    cases named
    simp [live]
  exact ⟨_, ran, rfl, live, kernel_half_shared bootDirectories bootDirectories_boot _ allowed _ ran⟩

/-- `vmm_create_page_directory`, then `vmm_map_page` at `0xD0000000`. -/
theorem kernel_half_not_shared :
    AfterVmmInit bootDirectories ∧
      ∃ s, exec directoryStep bootDirectories [.create true, .map 0xD0000000 0x5000 3] = some s ∧
        ¬KernelHalfShared s := by
  refine ⟨bootDirectories_boot, ?_⟩
  obtain ⟨s₁, created, shared, live, loaded, directory, some_frame, -⟩ := bootDirectories_created
  have absent : entryPresent (s₁.vmm.mem s₁.vmm.cr3 (dirIndex 0xD0000000)) = false := by
    rw [loaded, directory]
    decide
  have new_live : 288 ∈ s₁.live := by simp [live]
  obtain ⟨s₂, mapped, broken⟩ := shared.map_breaks 0x5000 3
    (by decide : 0xC0000000 ≤ 0xD0000000) (by decide) new_live (by rw [loaded]; decide) absent
    some_frame
  exact ⟨s₂, by rw [exec_cons, created, bind_some, exec_cons, mapped]; rfl, broken⟩

end EduOS
