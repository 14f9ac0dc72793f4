import EduOS.Mm.AddressSpace

/-!
# Virtual memory areas

`kernel/mm/vma.c`: the areas of a process and the fault handler that fills their pages
on demand.  The list of a process is a list of areas, its head first; `kmalloc` is left to
the callers.  What a file delivers is its contents from the position on; a read leaves the
position of the file as it was, since the handler restores it.
-/

namespace EduOS

open Function

def vmaRead : BitVec 32 := 0x01

def vmaWrite : BitVec 32 := 0x02

def vmaExec : BitVec 32 := 0x04

def vmaZero : BitVec 32 := 0x08

def vmaFile : BitVec 32 := 0x10

def vmaShared : BitVec 32 := 0x20

def vmaPrivate : BitVec 32 := 0x40

def vmaAnonymous : BitVec 32 := 0x80

/-- `struct vma`; the addresses from `start` up to `stop`, which is `end` in the source.
`privateData` 0 is `NULL`. -/
structure Vma where
  start : ℕ
  stop : ℕ
  flags : BitVec 32
  fileOffset : ℕ
  fd : ℤ
  privateData : ℕ
  deriving DecidableEq

/-- `vma_create` -/
def vmaCreate (start stop : ℕ) (flags : BitVec 32) : Vma where
  start := 4096 * (start / 4096)
  stop := 4096 * (u32 (stop + 0xFFF) / 4096)
  flags := flags
  fileOffset := 0
  fd := -1
  privateData := 0

def Vma.Contains (vma : Vma) (addr : ℕ) : Prop := vma.start ≤ addr ∧ addr < vma.stop

instance (vma : Vma) (addr : ℕ) : Decidable (vma.Contains addr) :=
  inferInstanceAs (Decidable (_ ∧ _))

/-- `vma_find` -/
def vmaFind (list : List Vma) (addr : ℕ) : Option Vma := list.find? fun vma => vma.Contains addr

/-- `vma_add` -/
def vmaAdd (list : List Vma) (vma : Vma) : List Vma := vma :: list

/-- `vma_remove` -/
def vmaRemove (list : List Vma) (vma : Vma) : List Vma := list.erase vma

/-! ## Files -/

/-- `struct shm_object` as far as `mmap` reads it; `data` is a kernel address. -/
structure ShmObject where
  size : ℕ
  data : ℕ

/-- `struct vfs_file`: the device number of the inode, whether the access mode allows
reading, the bytes that `f_op->read` delivers, and `private_data`. -/
structure VfsFile where
  inode : Option ℕ
  readable : Bool
  contents : Option (List (BitVec 8))
  privateData : Option ShmObject

def maxFilesPerProcess : ℕ := 64

/-- `vfs_file_read` at a position; `none` is an error. -/
def vfsFileRead (file : VfsFile) (pos count : ℕ) : Option (List (BitVec 8)) :=
  if !file.readable then none else file.contents.map fun bytes => (bytes.drop pos).take count

/-- The file of a descriptor in the table of a process. -/
def fdFile (files : ℕ → Option VfsFile) (fd : ℤ) : Option VfsFile :=
  if 0 ≤ fd ∧ fd < maxFilesPerProcess then files fd.toNat else none

/-! ## Page faults -/

/-- What the handler reads from the file of an area for the page at `vaddr`. -/
def fileBytes (files : ℕ → Option VfsFile) (vma : Vma) (vaddr : ℕ) : List (BitVec 8) :=
  match fdFile files vma.fd with
  | some file =>
    (vfsFileRead file (u32 (vma.fileOffset + (vaddr - vma.start))) 4096).getD []
  | none => []

/-- The contents of a new page: zeros, with the bytes of the file before them. -/
def newPage (files : ℕ → Option VfsFile) (vma : Vma) (vaddr : ℕ) : ℕ → BitVec 32 :=
  Memory.pageOfBytes fun k =>
    if hasFlag vma.flags vmaFile then (fileBytes files vma vaddr).getD k 0 else 0

/-- The address that is mapped: the new frame at `paddr`, unless the area has private
data and no file. -/
def backingAddress (vma : Vma) (vaddr paddr : ℕ) (s : Vmm) : Option (ℕ × Vmm) :=
  if hasFlag vma.flags vmaFile ∨ vma.privateData = 0 then some (paddr, s)
  else
    let address := u32 (vma.privateData + (vaddr - vma.start))
    if 0xC0000000 ≤ vma.privateData ∧ vma.privateData < 0xF0000000 then do
      let shmPhys ← Vmm.virtToPhys address s
      if shmPhys ≠ 0 then some (shmPhys, { s with pmm := pmmFreeFrame s.pmm paddr })
      else some (paddr, s)
    else some (address, { s with pmm := pmmFreeFrame s.pmm paddr })

/-- `page_flags`: a private area is read-only at first. -/
def vmaPageFlags (vma : Vma) : BitVec 32 :=
  if hasFlag vma.flags vmaWrite ∧ ¬hasFlag vma.flags vmaPrivate then 0x07 else 0x05

/-- `vma_handle_page_fault`: whether the fault was served. -/
def vmaHandlePageFault (files : ℕ → Option VfsFile) (vma : Vma) (faultAddr pd : ℕ) (s : Vmm) :
    Option (Bool × Vmm) :=
  let vaddr := 4096 * (faultAddr / 4096)
  if vaddr < vma.start ∨ vma.stop ≤ vaddr then some (false, s)
  else
    let (paddr, pmm) := pmmAllocFrame s.pmm
    let s := { s with pmm := pmm }
    if paddr = 0 then some (false, s)
    else do
      let s := { s with mem := s.mem.writePage (paddr / 4096) (newPage files vma vaddr) }
      let (paddr, s) ← backingAddress vma vaddr paddr s
      some (true, s.mapPageInDirectory pd vaddr paddr (vmaPageFlags vma))

/-! ## What a fault does -/

/-- The machine with the next frame allocated and filled. -/
def withPage (page : ℕ → BitVec 32) (s : Vmm) : Vmm :=
  { s with mem := s.mem.writePage (nextFrame s) page, pmm := (pmmAllocFrame s.pmm).2 }

/-- An area whose pages are new frames: it has a file, or no private data. -/
def Vma.OwnFrames (vma : Vma) : Prop := hasFlag vma.flags vmaFile = true ∨ vma.privateData = 0

variable {files : ℕ → Option VfsFile} {vma : Vma} {faultAddr pd : ℕ} {s' : Vmm}

section

variable {s : Vmm}

theorem vmaHandlePageFault_of_own (own : vma.OwnFrames)
    (inside : vma.Contains (4096 * (faultAddr / 4096))) (some_frame : nextFrame s ≠ 0) :
    vmaHandlePageFault files vma faultAddr pd s =
      some (true, (withPage (newPage files vma (4096 * (faultAddr / 4096))) s).mapPageInDirectory pd
        (4096 * (faultAddr / 4096)) (4096 * nextFrame s) (vmaPageFlags vma)) := by
  have aligned := pmmAllocFrame_eq s
  have succeeded : ¬4096 * nextFrame s = 0 := by omega
  have frame : 4096 * nextFrame s / 4096 = nextFrame s := Nat.mul_div_cancel_left _ (by omega)
  have not_outside : ¬(4096 * (faultAddr / 4096) < vma.start ∨
      vma.stop ≤ 4096 * (faultAddr / 4096)) := by
    obtain ⟨above, below⟩ := inside
    omega
  unfold Vma.OwnFrames at own
  simp [vmaHandlePageFault, not_outside, aligned, succeeded, frame, backingAddress, own, withPage]

theorem vmaHandlePageFault_of_none (files : ℕ → Option VfsFile) (vma : Vma) (faultAddr pd : ℕ)
    (no_frame : nextFrame s = 0) :
    vmaHandlePageFault files vma faultAddr pd s = some (false, s) ∨
      vmaHandlePageFault files vma faultAddr pd s =
        some (false, { s with pmm := (pmmAllocFrame s.pmm).2 }) := by
  simp only [vmaHandlePageFault, pmmAllocFrame_failed no_frame, if_true]
  split_ifs
  · exact Or.inl rfl
  · exact Or.inr rfl

/-- What a fault may lead to: nothing is mapped, or the page is mapped to the new frame, or
the frame is given back and the page is mapped to what backs the area. -/
theorem vmaHandlePageFault_cases {served : Bool}
    (done : vmaHandlePageFault files vma faultAddr pd s = some (served, s')) :
    (served = false ∧ (s' = s ∨ s' = { s with pmm := (pmmAllocFrame s.pmm).2 })) ∨
      (served = true ∧ vma.Contains (4096 * (faultAddr / 4096)) ∧ nextFrame s ≠ 0 ∧
        ∃ s₁ phys,
          s' = s₁.mapPageInDirectory pd (4096 * (faultAddr / 4096)) phys (vmaPageFlags vma) ∧
          backingAddress vma (4096 * (faultAddr / 4096)) (4096 * nextFrame s)
            (withPage (newPage files vma (4096 * (faultAddr / 4096))) s) = some (phys, s₁)) := by
  have aligned := pmmAllocFrame_eq s
  unfold vmaHandlePageFault at done
  dsimp only at done
  split_ifs at done with outside no_frame
  · cases done
    exact Or.inl ⟨rfl, Or.inl rfl⟩
  · cases done
    exact Or.inl ⟨rfl, Or.inr rfl⟩
  · obtain ⟨⟨phys, s₁⟩, backing, result⟩ := Option.bind_eq_some_iff.mp done
    cases result
    refine Or.inr ⟨rfl, ⟨by omega, by omega⟩, by omega, s₁, phys, rfl, ?_⟩
    rw [← aligned]
    exact backing

/-- The page is backed by the new frame or by what the private data points to. -/
theorem backingAddress_cases {vaddr paddr phys : ℕ}
    (backing : backingAddress vma vaddr paddr s = some (phys, s')) :
    (phys = paddr ∧ s' = s) ∨
      (¬vma.OwnFrames ∧ s' = { s with pmm := pmmFreeFrame s.pmm paddr } ∧
        if 0xC0000000 ≤ vma.privateData ∧ vma.privateData < 0xF0000000 then
          Vmm.virtToPhys (u32 (vma.privateData + (vaddr - vma.start))) s = some phys ∧ phys ≠ 0
        else phys = u32 (vma.privateData + (vaddr - vma.start))) := by
  unfold backingAddress at backing
  split_ifs at backing with own kernel
  · cases backing
    exact Or.inl ⟨rfl, rfl⟩
  · obtain ⟨shmPhys, found, rest⟩ := Option.bind_eq_some_iff.mp backing
    split_ifs at rest with nonzero
    · cases rest
      rw [if_pos kernel]
      exact Or.inr ⟨own, rfl, found, nonzero⟩
    · cases rest
      exact Or.inl ⟨rfl, rfl⟩
  · cases backing
    rw [if_neg kernel]
    exact Or.inr ⟨own, rfl, rfl⟩

end

section

variable {role : ℕ → Role} {dirs : List ℕ} {s : Vmm} {frame : ℕ}

/-- The new frame becomes a page. -/
theorem Spaces.withPage (spaces : Spaces role dirs s) (some_frame : nextFrame s ≠ 0)
    (page : ℕ → BitVec 32) :
    Spaces (update role (nextFrame s) .page) dirs (EduOS.withPage page s) := by
  have taken := spaces.take some_frame (r := .page) (by simp)
  exact taken.setMem (taken.typed.writePage (by simp) page)

theorem pteCreate_frame (small : frame < 2 ^ 20) (flags : BitVec 32) :
    entryFrame (pteCreate (4096 * frame) flags) = frame := by
  rw [pteCreate, entryFrame_makeEntry]
  omega

theorem pteCreate_names (small : frame < 2 ^ 20) (flags : BitVec 32) {r : Role}
    (has_role : role frame = r) :
    entryPresent (pteCreate (4096 * frame) flags) = true →
      role (entryFrame (pteCreate (4096 * frame) flags)) = r := by
  intro _
  rw [pteCreate_frame small]
  exact has_role

theorem dirIndex_page (a : ℕ) : dirIndex (4096 * (a / 4096)) = dirIndex a := by
  unfold dirIndex
  omega

/-- A page can be added at entry `i` of directory `pd`: the page table is there, or a
second frame is left for it. -/
def Vmm.PageReady (s : Vmm) (pd i : ℕ) : Prop :=
  entryPresent (s.mem pd i) = true ∨ (pmmAllocFrame (pmmAllocFrame s.pmm).2).1 ≠ 0

theorem Spaces.tableReady_withPage {i : ℕ} (spaces : Spaces role dirs s) (d_dir : pd ∈ dirs)
    (some_frame : nextFrame s ≠ 0) (page : ℕ → BitVec 32) :
    (EduOS.withPage page s).TableReady pd i ↔ s.PageReady pd i := by
  have other : pd ≠ nextFrame s :=
    ne_of_role (spaces.typed.directory pd d_dir) (by simp [spaces.next_unused some_frame])
  have aligned := (pmmAllocFrame_aligned (pmmAllocFrame s.pmm).2).1
  have same : (EduOS.withPage page s).mem pd i = s.mem pd i :=
    congrFun (Memory.writePage_of_ne other) i
  unfold Vmm.TableReady Vmm.PageReady
  rw [same]
  refine or_congr_right ?_
  show (pmmAllocFrame (pmmAllocFrame s.pmm).2).1 / 4096 ≠ 0 ↔ _
  omega

/-- **A served fault** maps the new page, filled, in the directory of the process. -/
theorem Spaces.vmaFault (files : ℕ → Option VfsFile) (spaces : Spaces role dirs s)
    (d_dir : pd ∈ dirs) (slot : userSlots (dirIndex faultAddr)) (own : vma.OwnFrames)
    (inside : vma.Contains (4096 * (faultAddr / 4096))) (some_frame : nextFrame s ≠ 0)
    (ready : s.PageReady pd (dirIndex faultAddr)) :
    ∃ role' s', vmaHandlePageFault files vma faultAddr pd s = some (true, s') ∧
      Spaces.Mapped (update role (nextFrame s) .page) dirs
        (EduOS.withPage (newPage files vma (4096 * (faultAddr / 4096))) s) pd
        (4096 * (faultAddr / 4096))
          (pteCreate (4096 * nextFrame s) (vmaPageFlags vma)) role' s' := by
  rw [← dirIndex_page faultAddr] at slot ready
  obtain ⟨role', mapped⟩ := (spaces.withPage some_frame _).mapPageInDirectory d_dir slot
    ((spaces.tableReady_withPage d_dir some_frame _).mpr ready)
    (pteCreate_names (nextFrame_lt s) _ (update_self _ _ _))
  exact ⟨role', _, vmaHandlePageFault_of_own own inside some_frame, mapped⟩

theorem entryPresent_pageFlags (vma : Vma) (address : ℕ) :
    entryPresent (pteCreate address (vmaPageFlags vma)) = true := by
  rw [pteCreate, entryPresent, makeEntry_flag (by omega), vmaPageFlags]
  split_ifs <;> decide

/-- The process sees the new frame at the page. -/
theorem Spaces.vmaFault_walk {role' : ℕ → Role} {s₁ : Vmm} {page a : ℕ}
    (mapped : Spaces.Mapped role dirs s₁ pd page (pteCreate (4096 * frame) (vmaPageFlags vma))
      role' s')
    (small : frame < 2 ^ 20) (same : a / 4096 = page / 4096) :
    ∃ rights, walk s'.mem pd a = some rights ∧ rights.frame = frame := by
  rw [mapped.walk same, mapping, mapped.present, entryPresent_pageFlags]
  exact ⟨_, rfl, pteCreate_frame small _⟩

/-! ## Areas that are backed by other memory -/

/-- What an area with private data shows is no memory that is managed. -/
def Vma.BackedOutside (vma : Vma) (vaddr pd : ℕ) (s : Vmm) : Prop :=
  if 0xC0000000 ≤ vma.privateData ∧ vma.privateData < 0xF0000000 then
    ∀ t, walk s.mem pd (u32 (vma.privateData + (vaddr - vma.start))) = some t →
      s.pmm.totalFrames ≤ t.frame
  else s.pmm.totalFrames ≤ u32 (vma.privateData + (vaddr - vma.start)) / 4096

theorem Spaces.edited_withPage (spaces : Spaces role dirs s) (some_frame : nextFrame s ≠ 0)
    (page : ℕ → BitVec 32) :
    Spaces.Edited role dirs s (update role (nextFrame s) .page) (EduOS.withPage page s) := by
  have taken := spaces.edited_take some_frame
  exact taken.trans (taken.spaces.edited_writePage (Or.inl (update_self _ _ _)) page)

/-- The new frame is filled and given back. -/
theorem Spaces.edited_unusedPage (spaces : Spaces role dirs s) (some_frame : nextFrame s ≠ 0)
    (page : ℕ → BitVec 32) :
    Spaces.Edited role dirs s role
      { EduOS.withPage page s with
        pmm := pmmFreeFrame (EduOS.withPage page s).pmm (4096 * nextFrame s) } := by
  have unused := spaces.next_unused some_frame
  have filled := spaces.edited_skip.trans (spaces.skip.edited_writePage (Or.inr unused) page)
  exact filled.trans (filled.spaces.edited_free unused)

/-- Filling the new frame does not affect translations. -/
theorem Spaces.walk_withPage (spaces : Spaces role dirs s) (d_dir : pd ∈ dirs)
    (some_frame : nextFrame s ≠ 0) (page : ℕ → BitVec 32) (a : ℕ)
    (named : entryPresent (s.mem pd (dirIndex a)) = true →
      role (entryFrame (s.mem pd (dirIndex a))) ≠ .unused) :
    walk (EduOS.withPage page s).mem pd a = walk s.mem pd a := by
  have unused := spaces.next_unused some_frame
  refine walk_congr (congrFun (Memory.writePage_of_ne ?_) _) fun present =>
    congrFun (Memory.writePage_of_ne ?_) _
  · exact (ne_of_role unused (by simp [spaces.typed.directory pd d_dir])).symm
  · exact (ne_of_role unused (named present)).symm

/-- **A fault in an area** whose pages are new frames, or outside of managed memory: a page
is mapped, after edits that concern no other page. -/
theorem Spaces.edited_vmaFault {served : Bool} (spaces : Spaces role dirs s) (d_dir : pd ∈ dirs)
    (loaded : s.cr3 = pd) (self : SelfMapped s.mem pd)
    (named : ∀ i < 1024, entryPresent (s.mem pd i) = true →
      role (entryFrame (s.mem pd i)) ≠ .unused)
    (outside : ∀ f, s.pmm.totalFrames ≤ f → role f = .page)
    (backed : vma.OwnFrames ∨ vma.BackedOutside (4096 * (faultAddr / 4096)) pd s)
    (done : vmaHandlePageFault files vma faultAddr pd s = some (served, s')) :
    Spaces.Edited role dirs s role s' ∨
      ∃ role₁ s₁ phys flags, Spaces.Edited role dirs s role₁ s₁ ∧
        role₁ (entryFrame (pteCreate phys flags)) = .page ∧
        s' = s₁.mapPageInDirectory pd (4096 * (faultAddr / 4096)) phys flags := by
  rcases vmaHandlePageFault_cases done with ⟨-, rfl | rfl⟩ | ⟨-, -, some_frame, s₁, phys,
    rfl, backing⟩
  · exact Or.inl (.refl spaces)
  · exact Or.inl spaces.edited_skip
  · rcases backingAddress_cases backing with ⟨rfl, rfl⟩ | ⟨not_own, rfl, found⟩
    · refine Or.inr ⟨_, _, _, _, spaces.edited_withPage some_frame _, ?_, rfl⟩
      rw [pteCreate_frame (nextFrame_lt s), update_self]
    refine Or.inr ⟨_, _, _, _, spaces.edited_unusedPage some_frame _, outside _ ?_, rfl⟩
    have out := backed.resolve_left not_own
    have wraps := u32_lt (vma.privateData + (4096 * (faultAddr / 4096) - vma.start))
    rw [pteCreate, entryFrame_makeEntry]
    unfold Vma.BackedOutside at out
    split_ifs at found out with kernel
    · obtain ⟨found, nonzero⟩ := found
      have pd_ne : pd ≠ nextFrame s := (ne_of_role (spaces.next_unused some_frame)
        (by simp [spaces.typed.directory pd d_dir])).symm
      have self' : SelfMapped (EduOS.withPage (newPage files vma (4096 * (faultAddr / 4096))) s).mem
          s.cr3 := by
        rw [loaded]
        exact self.of_last (congrFun (Memory.writePage_of_ne pd_ne) _)
      rw [Vmm.virtToPhys_eq self' wraps, show (EduOS.withPage _ s).cr3 = pd from loaded,
        spaces.walk_withPage d_dir some_frame _ _ (named _ (by unfold dirIndex; omega))] at found
      cases walked : walk s.mem pd (u32 (vma.privateData +
          (4096 * (faultAddr / 4096) - vma.start))) with
      | none =>
        rw [walked] at found
        exact absurd (Option.some.inj found).symm nonzero
      | some t =>
        rw [walked] at found
        cases found
        have small := frame_of_walk walked
        have high := out t walked
        simp only [Option.map_some, Option.getD_some]
        omega
    · omega

end

end EduOS
