import EduOS.Library.ByteMemory
import EduOS.Mm.Pmm

/-!
# The kernel heap

`kernel/mm/kmalloc.c`: a first-fit allocator over one growing range of virtual
memory.  The range is cut into blocks, each with a 20-byte header in front of its
payload, and the headers are linked in both directions.  This module is the code;
the blocks it maintains are described in `EduOS.Mm.HeapBlocks`, whole sequences of
calls in `EduOS.Mm.HeapRuns`.

Headers live in memory, so they are read and written byte by byte, in the order of
the C statements: when a block is split or merged, a header that overlaps another
one is really overwritten.  A `struct heap_block *` is the address of the header,
`0` for `NULL`.

Growing the heap takes frames from `pmm.c` and maps them with `vmm_map_page`, which
may need a frame for a page table and panics if there is none; a panic is a halted
machine.  The bytes that become visible in a new page are those of its frame,
whatever they are (`frames`).
-/

namespace EduOS

/-! ## Headers -/

def heapMagic : ℕ := 0x12345678

def heapMinSize : ℕ := 16

def heapMaxSize : ℕ := 1024 * 1024

/-- `sizeof(struct heap_block)` -/
def headerSize : ℕ := 20

def blockMagic (m : Bytes) (block : ℕ) : ℕ := m.load32 block

def blockSize (m : Bytes) (block : ℕ) : ℕ := m.load32 (block + 4)

def blockAllocated (m : Bytes) (block : ℕ) : Bool := m.load32 (block + 8) != 0

def blockNext (m : Bytes) (block : ℕ) : ℕ := m.load32 (block + 12)

def blockPrev (m : Bytes) (block : ℕ) : ℕ := m.load32 (block + 16)

def setBlockMagic (m : Bytes) (block magic : ℕ) : Bytes := m.store32 block magic

def setBlockSize (m : Bytes) (block size : ℕ) : Bytes := m.store32 (block + 4) size

def setBlockAllocated (m : Bytes) (block : ℕ) (allocated : Bool) : Bytes :=
  m.store32 (block + 8) allocated.toNat

def setBlockNext (m : Bytes) (block next : ℕ) : Bytes := m.store32 (block + 12) next

def setBlockPrev (m : Bytes) (block prev : ℕ) : Bytes := m.store32 (block + 16) prev

/-! ## The heap -/

/-- The static variables of `kmalloc.c`, virtual memory, and what it takes to map
pages: the frame allocator, which page-directory entries are present, and the frame
each virtual page is mapped to. -/
structure Heap where
  heapStart : ℕ
  heapEnd : ℕ
  heapMax : ℕ
  heapFirst : ℕ
  memory : Bytes
  pmm : Pmm
  directory : ℕ → Bool
  mapping : ℕ → ℕ
  halted : Bool

/-- What the frames contain that `pmm_alloc_frame` hands out. -/
abbrev Frames := ℕ → ℕ → BitVec 8

/-- The bytes seen after the page at `virt` was mapped to a frame. -/
def showFrame (m : Bytes) (virt : ℕ) (frame : ℕ → BitVec 8) : Bytes := fun a =>
  if a / pageSize = virt / pageSize then frame (a % pageSize) else m a

/-- The first half of `vmm_map_page`: make sure that the page table exists; `panic`
if there is no frame for it. -/
def vmmPageTable (h : Heap) (virt : ℕ) : Heap :=
  let pdIndex := virt / 2 ^ 22
  if h.directory pdIndex then h
  else
    let (ptPhys, pmm) := pmmAllocFrame h.pmm
    if ptPhys = 0 then { h with pmm := pmm, halted := true }
    else
      { h with
        pmm := pmm
        directory := Function.update h.directory pdIndex true
        mapping := fun page => if page / 1024 = pdIndex then 0 else h.mapping page }

/-- `vmm_map_page` -/
def vmmMapPage (frames : Frames) (h : Heap) (virt phys : ℕ) : Heap :=
  let h := vmmPageTable h virt
  if h.halted then h
  else
    { h with
      mapping := Function.update h.mapping (virt / pageSize) phys
      memory := showFrame h.memory virt (frames phys) }

/-- One pass of the page loop of `expand_heap`. -/
def expandPage (frames : Frames) (i : ℕ) (h : Heap) : Heap ⊕ Heap :=
  let (phys, pmm) := pmmAllocFrame h.pmm
  let h := { h with pmm := pmm }
  if phys = 0 then Sum.inr h
  else
    let h := vmmMapPage frames h (u32 (h.heapEnd + i * pageSize)) phys
    if h.halted then Sum.inr h else Sum.inl h

/-- `while (last->next) last = last->next;` -/
def lastPass (m : Bytes) (last : ℕ) : Option (ℕ ⊕ ℕ) :=
  if blockNext m last ≠ 0 then some (Sum.inl (blockNext m last)) else some (Sum.inr last)

/-- The new block of `expand_heap`, not yet linked. -/
def newBlock (m : Bytes) (block size : ℕ) : Bytes :=
  let m := setBlockMagic m block heapMagic
  let m := setBlockSize m block size
  let m := setBlockAllocated m block false
  let m := setBlockNext m block 0
  setBlockPrev m block 0

/-- The end of `expand_heap`: create the block at `heap_end` and link it. -/
def appendBlock (h : Heap) (size : ℕ) : Option (ℕ × Heap) :=
  let block := h.heapEnd
  let m := newBlock h.memory block size
  let heapEnd := u32 (h.heapEnd + size)
  if h.heapFirst = 0 then
    some (block, { h with memory := m, heapFirst := block, heapEnd := heapEnd })
  else
    match loop (lastPass m) (2 ^ 32) h.heapFirst with
    | none => none
    | some last =>
      let m := setBlockNext m last block
      let m := setBlockPrev m block last
      some (block, { h with memory := m, heapEnd := heapEnd })

/-- `expand_heap` -/
def expandHeap (frames : Frames) (h : Heap) (size : ℕ) : Option (ℕ × Heap) :=
  let size := alignUp (u32 (size + headerSize)) (2 ^ 12)
  if u32 (h.heapEnd + size) > h.heapMax then some (0, h)
  else
    match scan (expandPage frames) 0 (size / pageSize) h with
    | Sum.inr h => some (0, h)
    | Sum.inl h => appendBlock h size

/-- `if (next) next->prev = prev;` -/
def relinkPrev (m : Bytes) (next prev : ℕ) : Bytes :=
  if next ≠ 0 then setBlockPrev m next prev else m

/-- `split_block` -/
def splitBlock (m : Bytes) (block size : ℕ) : Bytes :=
  if blockSize m block < u32 (size + headerSize + heapMinSize) then m
  else
    let newBlock := u32 (block + size)
    let m := setBlockMagic m newBlock heapMagic
    let m := setBlockSize m newBlock (sub32 (blockSize m block) size)
    let m := setBlockAllocated m newBlock false
    let m := setBlockNext m newBlock (blockNext m block)
    let m := setBlockPrev m newBlock block
    let m := relinkPrev m (blockNext m block) newBlock
    let m := setBlockNext m block newBlock
    setBlockSize m block size

/-- One pass of the forward loop of `merge_blocks`. -/
def mergeForwardPass (block : ℕ) (m : Bytes) : Option (Bytes ⊕ Bytes) :=
  let next := blockNext m block
  if next ≠ 0 ∧ blockAllocated m next = false then
    if blockMagic m next ≠ heapMagic then some (Sum.inr m)
    else
      let m := setBlockSize m block (u32 (blockSize m block + blockSize m next))
      let m := setBlockNext m block (blockNext m next)
      let m := relinkPrev m (blockNext m next) block
      some (Sum.inl m)
  else some (Sum.inr m)

/-- One activation of `merge_blocks`, up to its recursive call on `block->prev`. -/
def mergePass : ℕ × Bytes → Option ((ℕ × Bytes) ⊕ Bytes)
  | (block, m) =>
    if block = 0 ∨ blockAllocated m block = true then some (Sum.inr m)
    else
      match loop (mergeForwardPass block) (2 ^ 32) m with
      | none => none
      | some m =>
        let prev := blockPrev m block
        if prev ≠ 0 ∧ blockAllocated m prev = false then some (Sum.inl (prev, m))
        else some (Sum.inr m)

/-- `merge_blocks` -/
def mergeBlocks (m : Bytes) (block : ℕ) : Option Bytes := loop mergePass (2 ^ 32) (block, m)

/-- `kmalloc_init` -/
def kmallocInit (frames : Frames) (h : Heap) (start size : ℕ) : Option Heap :=
  let h :=
    { h with heapStart := start, heapEnd := start, heapMax := u32 (start + size), heapFirst := 0 }
  (expandHeap frames h (pageSize * 16)).map Prod.snd

/-- One pass of the first-fit search of `kmalloc`. -/
def searchPass (m : Bytes) (size block : ℕ) : Option (ℕ ⊕ ℕ) :=
  if block = 0 then some (Sum.inr 0)
  else if blockAllocated m block = false ∧ size ≤ blockSize m block then some (Sum.inr block)
  else some (Sum.inl (blockNext m block))

/-- The size of the block that a request of `size` bytes needs. -/
def requestSize (size : ℕ) : ℕ := u32 (alignUp size (2 ^ 3) + headerSize)

/-- How an allocation ends: with a pointer, or in a panic. -/
inductive Allocation
  | returned (ptr : ℕ)
  | panicked
deriving DecidableEq

/-- There is no pointer, or it is `NULL`. -/
def Allocation.failed : Allocation → Bool
  | .returned ptr => ptr = 0
  | .panicked => true

theorem failed_returned {q : ℕ} : (Allocation.returned q).failed = true ↔ q = 0 :=
  decide_eq_true_iff

/-- `kmalloc` -/
def kmalloc (frames : Frames) (h : Heap) (size : ℕ) : Option (Allocation × Heap) :=
  if size = 0 then some (.returned 0, h)
  else
    let size := requestSize size
    if size > heapMaxSize then some (.returned 0, h)
    else
      match loop (searchPass h.memory size) (2 ^ 32) h.heapFirst with
      | none => none
      | some block =>
        if block ≠ 0 then
          let m := setBlockAllocated h.memory block true
          some (.returned (u32 (block + headerSize)), { h with memory := splitBlock m block size })
        else
          match expandHeap frames h size with
          | none => none
          | some (block, h) =>
            if block ≠ 0 then
              some (.returned (u32 (block + headerSize)),
                { h with memory := setBlockAllocated h.memory block true })
            else some (if h.halted then .panicked else .returned 0, h)

/-- `kzalloc` -/
def kzalloc (frames : Frames) (h : Heap) (size : ℕ) : Option (Allocation × Heap) :=
  match kmalloc frames h size with
  | some (.returned ptr, h) =>
    if ptr = 0 then some (.returned ptr, h)
    else some (.returned ptr, { h with memory := h.memory.fill ptr 0 size })
  | other => other

/-- `kfree` -/
def kfree (h : Heap) (ptr : ℕ) : Option Heap :=
  if ptr = 0 then some h
  else
    let block := sub32 ptr headerSize
    if blockMagic h.memory block ≠ heapMagic then some h
    else if blockAllocated h.memory block = false then some h
    else
      match mergeBlocks (setBlockAllocated h.memory block false) block with
      | none => none
      | some m => some { h with memory := m }

/-- `kmalloc_get_size` -/
def kmallocGetSize (h : Heap) (ptr : ℕ) : ℕ :=
  if ptr = 0 then 0
  else
    let block := sub32 ptr headerSize
    if blockMagic h.memory block ≠ heapMagic then 0
    else sub32 (blockSize h.memory block) headerSize

/-- `krealloc` -/
def krealloc (frames : Frames) (h : Heap) (ptr newSize : ℕ) : Option (Allocation × Heap) :=
  if ptr = 0 then kmalloc frames h newSize
  else if newSize = 0 then (kfree h ptr).map fun h => (.returned 0, h)
  else
    let oldSize := kmallocGetSize h ptr
    if newSize ≤ oldSize then some (.returned ptr, h)
    else
      match kmalloc frames h newSize with
      | some (.returned newPtr, h) =>
        if newPtr = 0 then some (.returned 0, h)
        else
          (kfree { h with memory := h.memory.copy newPtr ptr oldSize } ptr).map fun h =>
            (.returned newPtr, h)
      | other => other

end EduOS
