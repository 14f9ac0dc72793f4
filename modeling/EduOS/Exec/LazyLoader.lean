import EduOS.Exec.UserDirectory
import EduOS.Library.ByteMemory

/-!
# Demand-paged programs

`create_user_process_lazy` of `kernel/exec/user_process.c`: the segments of an ELF file
become areas of the new process, and `vma_handle_page_fault` fills their pages when they
are first used.  A segment is split at the end of the page in which its file data ends:
up to there an area with the file, from there on one of zeros.

The handler fills a page of the first area from the file, all of it.  What a segment has
behind its file data on the last such page is therefore not zero, but what the file has
there; `lazy_image_iff` says when a byte of a program is right.

A failed call is `some none`; what it leaves behind, the kernel stack and the scheduler
are left out.
-/

namespace EduOS

open Option

open Function List

def ptLoad : ℕ := 1

def pfX : BitVec 32 := 0x1

def pfW : BitVec 32 := 0x2

def pfR : BitVec 32 := 0x4

/-- `Elf32_Ehdr`, the fields that the loader reads. -/
structure Ehdr where
  ident : List (BitVec 8)
  entry : ℕ
  phoff : ℕ
  phnum : ℕ

/-- `Elf32_Phdr`, the fields that the loader reads. -/
structure Phdr where
  type : ℕ
  offset : ℕ
  vaddr : ℕ
  filesz : ℕ
  memsz : ℕ
  flags : BitVec 32
  deriving DecidableEq

def elfMagic : List (BitVec 8) := [0x7F, 0x45, 0x4C, 0x46]

/-- The 52 bytes of `Elf32_Ehdr`. -/
def readEhdr (buffer : List (BitVec 8)) : Ehdr :=
  let m : Bytes := fun i => buffer.getD i 0
  { ident := [m 0, m 1, m 2, m 3]
    entry := m.load32 24
    phoff := m.load32 28
    phnum := m.load32 44 % 2 ^ 16 }

/-- The 32 bytes of element `i` of an array of `Elf32_Phdr`. -/
def readPhdr (buffer : List (BitVec 8)) (i : ℕ) : Phdr :=
  let m : Bytes := fun i => buffer.getD i 0
  { type := m.load32 (32 * i)
    offset := m.load32 (32 * i + 4)
    vaddr := m.load32 (32 * i + 8)
    filesz := m.load32 (32 * i + 16)
    memsz := m.load32 (32 * i + 20)
    flags := BitVec.ofNat 32 (m.load32 (32 * i + 24)) }

/-- The memory that the loader asks `kmalloc` for, by what it is for. -/
inductive LoaderMemory
  | process
  | fdTable
  | pageDirectory
  | kernelStack
  | programHeaders
  | segment (i : ℕ)
  | bss (i : ℕ)
  | stack

/-! ## The areas of a program -/

/-- `vma_flags` of a segment -/
def segmentFlags (flags : BitVec 32) : BitVec 32 :=
  (if hasFlag flags pfR then vmaRead else 0) ||| (if hasFlag flags pfW then vmaWrite else 0) |||
    (if hasFlag flags pfX then vmaExec else 0)

/-- `(address + 0xFFF) & ~0xFFF` -/
def pageEnd (address : ℕ) : ℕ := 4096 * (u32 (address + 0xFFF) / 4096)

/-- The area for the file data of a segment. -/
def fileVma (ph : Phdr) : Vma :=
  { vmaCreate (4096 * (ph.vaddr / 4096)) (pageEnd (ph.vaddr + ph.filesz))
      (segmentFlags ph.flags ||| (vmaFile ||| vmaPrivate)) with
    fd := 3
    fileOffset := sub32 ph.offset (ph.vaddr % 4096) }

/-- The area for the pages of a segment without file data. -/
def bssVma (ph : Phdr) : Vma :=
  vmaCreate (pageEnd (ph.vaddr + ph.filesz)) (pageEnd (ph.vaddr + ph.memsz))
    (((segmentFlags ph.flags ||| (vmaFile ||| vmaPrivate)) &&& ~~~vmaFile) |||
      (vmaZero ||| vmaAnonymous))

/-- The area of a segment without file data. -/
def zeroVma (ph : Phdr) : Vma :=
  vmaCreate (4096 * (ph.vaddr / 4096)) (pageEnd (ph.vaddr + ph.memsz))
    (segmentFlags ph.flags ||| (vmaZero ||| vmaAnonymous))

/-- The areas of one program header, added to the list of the process; `segment` and `bss`
say whether `kmalloc` has memory for them. -/
def loadSegment (segment bss : Bool) (ph : Phdr) (list : List Vma) : List Vma :=
  if ph.type ≠ ptLoad then list
  else if 0 < ph.filesz then
    let list := if segment then vmaAdd list (fileVma ph) else list
    if pageEnd (ph.vaddr + ph.filesz) < pageEnd (ph.vaddr + ph.memsz) then
      if bss then vmaAdd list (bssVma ph) else list
    else list
  else if segment then vmaAdd list (zeroVma ph) else list

def loadSegments (allocated : LoaderMemory → Bool) (phdrs : List Phdr) : List Vma :=
  phdrs.zipIdx.foldl
    (fun list (ph, i) => loadSegment (allocated (.segment i)) (allocated (.bss i)) ph list) []

/-- The area of the user stack. -/
def stackVma : Vma := vmaCreate 0x08080000 0x08100000 (vmaRead ||| vmaWrite ||| vmaAnonymous)

/-- The stack of the process, whose top page is mapped at once. -/
def addStack (allocated : Bool) (pd : ℕ) (list : List Vma) (s : Vmm) : List Vma × Vmm :=
  if !allocated then (list, s)
  else
    let list := vmaAdd list stackVma
    let (paddr, pmm) := pmmAllocFrame s.pmm
    let s := { s with pmm := pmm }
    if paddr = 0 then (list, s)
    else
      let s :=
        if paddr < 0x400000 then { s with mem := s.mem.writePage (paddr / 4096) fun _ => 0 } else s
      (list, s.mapPageInDirectory pd 0x080FF000 paddr 0x07)

/-- `create_user_process_lazy`; `opened` are the results of `vfs_open_file`, for the
console at descriptors 0 to 2 and for the program at descriptor 3. -/
def createUserProcessLazy (allocated : LoaderMemory → Bool) (opened : ℕ → Option VfsFile)
    (s : Vmm) :
    Option (Option (Process × Vmm)) :=
  if !allocated .process || !allocated .fdTable then some none
  else if (opened 0).isNone || (opened 1).isNone || (opened 2).isNone then some none
  else
    match opened 3 with
    | none => some none
    | some elf =>
      let header := (vfsFileRead elf 0 52).getD []
      let ehdr := readEhdr header
      if header.length ≠ 52 ∨ ehdr.ident ≠ elfMagic then some none
      else do
        let (pd, s) ← createUserPageDirectory (allocated .pageDirectory) s
        let phdrs := (vfsFileRead elf ehdr.phoff (32 * ehdr.phnum)).getD []
        if pd = 0 then some none
        else if !allocated .kernelStack || !allocated .programHeaders then some none
        else if phdrs.length ≠ 32 * ehdr.phnum then some none
        else
          let vmaList := loadSegments allocated ((List.range ehdr.phnum).map (readPhdr phdrs))
          let (vmaList, s) := addStack (allocated .stack) pd vmaList s
          -- the look-up of the entry point is only printed
          (s.virtToPhysInDirectory pd ehdr.entry).map fun _ =>
            some (⟨pd, vmaList, fun fd => if fd < 4 then opened fd else none⟩, s)

/-! ## Programs -/

/-- The program headers of a file. -/
def programHeaders (bytes : List (BitVec 8)) : List Phdr :=
  let ehdr := readEhdr (bytes.take 52)
  (List.range ehdr.phnum).map (readPhdr ((bytes.drop ehdr.phoff).take (32 * ehdr.phnum)))

/-- A segment has addresses on a page. -/
def Phdr.Touches (ph : Phdr) (page : ℕ) : Prop :=
  ∃ a, ph.vaddr ≤ a ∧ a < ph.vaddr + ph.memsz ∧ a / 4096 = page

/-- A segment that can be loaded: its file data is in the file, at an offset that fits its
address, and its pages are user pages apart from the stack. -/
structure Phdr.Loadable (bytes : List (BitVec 8)) (ph : Phdr) : Prop where
  filesz_le : ph.filesz ≤ ph.memsz
  above : 0x400000 ≤ ph.vaddr
  below : ph.vaddr + ph.memsz ≤ 0xBFFFF000
  congruent : ph.offset % 4096 = ph.vaddr % 4096
  offset_le : ph.vaddr % 4096 ≤ ph.offset
  inFile : ph.offset + ph.filesz ≤ bytes.length
  apart : ∀ page, ph.Touches page → ¬(0x8080 ≤ page ∧ page < 0x8100)

/-- A program whose segments can be loaded and share no page. -/
structure LoadableImage (bytes : List (BitVec 8)) : Prop where
  small : bytes.length < 2 ^ 32
  loadable : ∀ ph ∈ programHeaders bytes, ph.type = ptLoad → ph.Loadable bytes
  disjoint : (programHeaders bytes).Pairwise fun p q =>
    p.type = ptLoad → q.type = ptLoad → ∀ page, p.Touches page → ¬q.Touches page

/-- The byte that belongs at address `a` of a segment. -/
def imageByte (bytes : List (BitVec 8)) (ph : Phdr) (a : ℕ) : BitVec 8 :=
  if a - ph.vaddr < ph.filesz then bytes.getD (ph.offset + (a - ph.vaddr)) 0 else 0

/-- A later segment of size 0 begins inside the page of `a`; its area covers the page. -/
def Shadowed (later : List Phdr) (a : ℕ) : Prop :=
  ∃ ph ∈ later, ph.type = ptLoad ∧ ph.memsz = 0 ∧ ph.vaddr / 4096 = a / 4096 ∧ ph.vaddr % 4096 ≠ 0

/-- The byte at address `a` is within the file data of its segment, or on a page that has
none; or else the file has a zero where the segment has one. -/
def ImageRight (bytes : List (BitVec 8)) (ph : Phdr) (later : List Phdr) (a : ℕ) : Prop :=
  (Shadowed later a → a - ph.vaddr < ph.filesz → bytes.getD (ph.offset + (a - ph.vaddr)) 0 = 0) ∧
    (¬Shadowed later a → a - ph.vaddr < ph.filesz ∨ ph.filesz = 0 ∨
      pageEnd (ph.vaddr + ph.filesz) ≤ a ∨ bytes.getD (ph.offset + (a - ph.vaddr)) 0 = 0)

/-- The byte that a process sees at `a`. -/
def byteAt (s : Vmm) (pd a : ℕ) : Option (BitVec 8) :=
  (walk s.mem pd a).map fun t => s.mem.byte t.frame (a % 4096)

/-! ## Areas are made of pages -/

variable {allocated : LoaderMemory → Bool} {list : List Vma}

section

variable {ph : Phdr} {vma : Vma} {a b : ℕ}

theorem pageEnd_eq {address : ℕ} (small : address ≤ 0xBFFFF000) :
    pageEnd address = 4096 * ((address + 0xFFF) / 4096) := by
  rw [pageEnd, u32_of_lt (by omega)]

def Vma.Aligned (vma : Vma) : Prop := vma.start % 4096 = 0 ∧ vma.stop % 4096 = 0

theorem vmaCreate_aligned (start stop : ℕ) (flags : BitVec 32) :
    (vmaCreate start stop flags).Aligned :=
  ⟨Nat.mul_mod_right _ _, Nat.mul_mod_right _ _⟩

theorem Vma.Aligned.contains_iff (aligned : vma.Aligned) (same : a / 4096 = b / 4096) :
    vma.Contains a ↔ vma.Contains b := by
  obtain ⟨start, stop⟩ := aligned
  unfold Vma.Contains
  omega

/-- The areas of a program header, the last one first. -/
def segmentVmas (ph : Phdr) : List Vma :=
  if ph.type ≠ ptLoad then []
  else if 0 < ph.filesz then
    if pageEnd (ph.vaddr + ph.filesz) < pageEnd (ph.vaddr + ph.memsz) then [bssVma ph, fileVma ph]
    else [fileVma ph]
  else [zeroVma ph]

theorem loadSegment_eq (ph : Phdr) (list : List Vma) :
    loadSegment true true ph list = segmentVmas ph ++ list := by
  simp only [loadSegment, segmentVmas, vmaAdd, if_true]
  split_ifs <;> rfl

theorem loadSegments_eq (always : ∀ m, allocated m = true) (phdrs : List Phdr) :
    loadSegments allocated phdrs = phdrs.reverse.flatMap segmentVmas := by
  have folded : loadSegments allocated phdrs =
      (phdrs.zipIdx.map Prod.fst).foldl (fun list ph => segmentVmas ph ++ list) [] := by
    rw [loadSegments, foldl_map]
    simp [always, loadSegment_eq]
  rw [folded, zipIdx_map_fst]
  clear folded
  induction phdrs using List.reverseRecOn with
  | nil => rfl
  | append_singleton phdrs ph ih =>
    rw [foldl_append, reverse_append, reverse_singleton, singleton_append, flatMap_cons, ← ih]
    rfl

theorem mem_segmentVmas (mem : vma ∈ segmentVmas ph) :
    ph.type = ptLoad ∧
      ((0 < ph.filesz ∧ vma = fileVma ph) ∨ (0 < ph.filesz ∧ vma = bssVma ph) ∨
        (ph.filesz = 0 ∧ vma = zeroVma ph)) := by
  unfold segmentVmas at mem
  split_ifs at mem with not_load has_file has_bss
  · cases mem
  · have is_load := not_not.mp not_load
    rcases mem_cons.mp mem with eq | mem
    · exact ⟨is_load, Or.inr (Or.inl ⟨has_file, eq⟩)⟩
    · exact ⟨is_load, Or.inl ⟨has_file, mem_singleton.mp mem⟩⟩
  · exact ⟨not_not.mp not_load, Or.inl ⟨has_file, mem_singleton.mp mem⟩⟩
  · exact ⟨not_not.mp not_load, Or.inr (Or.inr ⟨by omega, mem_singleton.mp mem⟩)⟩

theorem aligned_of_mem (mem : vma ∈ segmentVmas ph) : vma.Aligned := by
  obtain ⟨-, ⟨-, rfl⟩ | ⟨-, rfl⟩ | ⟨-, rfl⟩⟩ := mem_segmentVmas mem
  all_goals
    unfold Vma.Aligned
    simp only [fileVma, bssVma, zeroVma, vmaCreate]
    omega

/-- The pages of the area for the file data. -/
theorem contains_fileVma (small : ph.vaddr + ph.filesz ≤ 0xBFFFF000) :
    (fileVma ph).Contains a ↔ ph.vaddr / 4096 ≤ a / 4096 ∧ a < pageEnd (ph.vaddr + ph.filesz) := by
  have stop := pageEnd_eq small
  simp only [Vma.Contains, fileVma, vmaCreate]
  rw [u32_of_lt (by omega)]
  omega

theorem contains_bssVma (le : ph.filesz ≤ ph.memsz) (small : ph.vaddr + ph.memsz ≤ 0xBFFFF000) :
    (bssVma ph).Contains a ↔
      pageEnd (ph.vaddr + ph.filesz) ≤ a ∧ a < pageEnd (ph.vaddr + ph.memsz) := by
  have first := pageEnd_eq (show ph.vaddr + ph.filesz ≤ 0xBFFFF000 by omega)
  have stop := pageEnd_eq small
  simp only [Vma.Contains, bssVma, vmaCreate]
  rw [u32_of_lt (by omega)]
  omega

theorem contains_zeroVma (small : ph.vaddr + ph.memsz ≤ 0xBFFFF000) :
    (zeroVma ph).Contains a ↔ ph.vaddr / 4096 ≤ a / 4096 ∧ a < pageEnd (ph.vaddr + ph.memsz) := by
  have stop := pageEnd_eq small
  simp only [Vma.Contains, zeroVma, vmaCreate]
  rw [u32_of_lt (by omega)]
  omega

/-- An area whose new pages are zeros. -/
def Vma.ZeroFill (vma : Vma) : Prop := hasFlag vma.flags vmaFile = false ∧ vma.privateData = 0

theorem zeroFill_bssVma (ph : Phdr) : (bssVma ph).ZeroFill := by
  refine ⟨?_, rfl⟩
  show hasFlag ((_ &&& ~~~vmaFile) ||| (vmaZero ||| vmaAnonymous)) vmaFile = false
  rw [hasFlag_set_of_apart (by decide), hasFlag_clear_self]

theorem zeroFill_zeroVma (ph : Phdr) : (zeroVma ph).ZeroFill := by
  refine ⟨?_, rfl⟩
  show hasFlag (segmentFlags ph.flags ||| (vmaZero ||| vmaAnonymous)) vmaFile = false
  rw [hasFlag_set_of_apart (by decide), segmentFlags]
  split_ifs <;> decide

theorem hasFlag_fileVma (ph : Phdr) : hasFlag (fileVma ph).flags vmaFile = true := by
  show hasFlag (segmentFlags ph.flags ||| (vmaFile ||| vmaPrivate)) vmaFile = true
  rw [← BitVec.or_assoc, hasFlag_set_of_apart (by decide), hasFlag_set_self (by decide)]

/-! ## The area of an address -/

theorem vmaFind_append (xs ys : List Vma) (a : ℕ) :
    vmaFind (xs ++ ys) a = (vmaFind xs a).or (vmaFind ys a) :=
  find?_append

theorem vmaFind_eq_none (apart : ∀ vma ∈ list, ¬vma.Contains a) : vmaFind list a = none := by
  rw [vmaFind, find?_eq_none]
  intro vma mem
  simpa using apart vma mem

theorem vmaFind_mem (found : vmaFind list a = some vma) : vma ∈ list ∧ vma.Contains a :=
  ⟨mem_of_find?_eq_some found, by simpa using find?_some found⟩

/-- Addresses on one page are in the same area. -/
theorem vmaFind_congr (aligned : ∀ vma ∈ list, vma.Aligned) (same : a / 4096 = b / 4096) :
    vmaFind list a = vmaFind list b := by
  induction list with
  | nil => rfl
  | cons vma list ih =>
    have here : vma.Contains a ↔ vma.Contains b := (aligned vma (by simp)).contains_iff same
    have later := ih fun vma mem => aligned vma (mem_cons_of_mem _ mem)
    unfold vmaFind at later ⊢
    rw [find?_cons, find?_cons, later]
    simp [here]

theorem touches_of_le {page : ℕ} (first : ph.vaddr / 4096 ≤ page)
    (last : 4096 * page < ph.vaddr + ph.memsz) (some_byte : 0 < ph.memsz) : ph.Touches page := by
  refine ⟨max ph.vaddr (4096 * page), by omega, by omega, by omega⟩

/-- A page that a segment has no address on is in none of its areas, unless the segment is
empty and begins inside the page. -/
theorem shadow_of_contains {bytes : List (BitVec 8)} (loadable : ph.Loadable bytes)
    (mem : vma ∈ segmentVmas ph) (contains : vma.Contains a) (apart : ¬ph.Touches (a / 4096)) :
    ph.memsz = 0 ∧ ph.vaddr / 4096 = a / 4096 ∧ ph.vaddr % 4096 ≠ 0 ∧ vma.ZeroFill := by
  have le := loadable.filesz_le
  have small := loadable.below
  have file_end := pageEnd_eq (show ph.vaddr + ph.filesz ≤ 0xBFFFF000 by omega)
  have memory_end := pageEnd_eq small
  obtain ⟨-, ⟨some_byte, rfl⟩ | ⟨some_byte, rfl⟩ | ⟨no_file, rfl⟩⟩ := mem_segmentVmas mem
  · rw [contains_fileVma (by omega)] at contains
    exact absurd (touches_of_le contains.1 (by omega) (by omega)) apart
  · rw [contains_bssVma le small] at contains
    exact absurd (touches_of_le (by omega) (by omega) (by omega)) apart
  · rw [contains_zeroVma small] at contains
    have empty : ph.memsz = 0 := by
      by_contra some_byte
      exact apart (touches_of_le contains.1 (by omega) (by omega))
    exact ⟨empty, by omega, by omega, zeroFill_zeroVma ph⟩

/-- The area of an address among those of its own segment. -/
theorem vmaFind_own {bytes : List (BitVec 8)} (loadable : ph.Loadable bytes)
    (is_load : ph.type = ptLoad) (above : ph.vaddr ≤ a) (below : a < ph.vaddr + ph.memsz) :
    ∃ vma, vmaFind (segmentVmas ph) a = some vma ∧
      (ph.filesz = 0 ∨ pageEnd (ph.vaddr + ph.filesz) ≤ a → vma.ZeroFill) ∧
      (¬(ph.filesz = 0 ∨ pageEnd (ph.vaddr + ph.filesz) ≤ a) → vma = fileVma ph) := by
  have le := loadable.filesz_le
  have small := loadable.below
  have memory_end := pageEnd_eq small
  by_cases no_file : ph.filesz = 0
  · have contains := (contains_zeroVma (a := a) small).mpr ⟨by omega, by omega⟩
    refine ⟨zeroVma ph, ?_, fun _ => zeroFill_zeroVma ph, fun other =>
      absurd (Or.inl no_file) other⟩
    simp [segmentVmas, is_load, no_file, vmaFind, contains]
  by_cases zeros : pageEnd (ph.vaddr + ph.filesz) ≤ a
  · have contains := (contains_bssVma (a := a) le small).mpr ⟨zeros, by omega⟩
    have two : pageEnd (ph.vaddr + ph.filesz) < pageEnd (ph.vaddr + ph.memsz) := by omega
    refine ⟨bssVma ph, ?_, fun _ => zeroFill_bssVma ph, fun other => absurd (Or.inr zeros) other⟩
    simp [segmentVmas, is_load, Nat.pos_of_ne_zero no_file, two, vmaFind, contains]
  have contains := (contains_fileVma (a := a) (by omega)).mpr ⟨by omega, Nat.lt_of_not_le zeros⟩
  have not_bss : ¬(bssVma ph).Contains a := by
    rw [contains_bssVma le small]
    omega
  refine ⟨fileVma ph, ?_, fun other => absurd other (by omega), fun _ => rfl⟩
  unfold segmentVmas
  rw [if_neg (by simp [is_load]), if_pos (Nat.pos_of_ne_zero no_file)]
  split_ifs <;> simp [vmaFind, contains, not_bss]

end

/-! ## The bytes of a program -/

section

variable {role : ℕ → Role} {dirs : List ℕ} {s : Vmm} {bytes : List (BitVec 8)}

variable {pd a : ℕ} {ph : Phdr}

/-- What a process sees on a page after its fault was served. -/
theorem Spaces.vmaFault_byte {vma : Vma} {fault : ℕ} (files : ℕ → Option VfsFile)
    (spaces : Spaces role dirs s) (d_dir : pd ∈ dirs) (slot : userSlots (dirIndex fault))
    (own : vma.OwnFrames) (inside : vma.Contains (4096 * (fault / 4096)))
    (some_frame : nextFrame s ≠ 0) (ready : s.PageReady pd (dirIndex fault))
    (same : a / 4096 = fault / 4096) :
    ∃ s', vmaHandlePageFault files vma fault pd s = some (true, s') ∧
      byteAt s' pd a = some (if hasFlag vma.flags vmaFile then
        (fileBytes files vma (4096 * (fault / 4096))).getD (a % 4096) 0 else 0) := by
  obtain ⟨role', s', served, mapped⟩ :=
    spaces.vmaFault files d_dir slot own inside some_frame ready
  obtain ⟨rights, walked, frame⟩ := Spaces.vmaFault_walk (a := a) mapped (nextFrame_lt s) (by omega)
  refine ⟨s', served, ?_⟩
  have filled : s'.mem (nextFrame s) = newPage files vma (4096 * (fault / 4096)) := by
    rw [mapped.frames _ (Or.inr (update_self _ _ _))]
    exact Memory.writePage_self
  have byte := Memory.byte_pageOfBytes s'.mem (nextFrame s) (a % 4096) fun k =>
    if hasFlag vma.flags vmaFile then (fileBytes files vma (4096 * (fault / 4096))).getD k 0 else 0
  rw [byteAt, walked, map_some, frame, ← byte, Memory.byte, Memory.byte, Memory.writePage_self,
    filled, newPage]

theorem fileVma_start (ph : Phdr) : (fileVma ph).start = 4096 * (ph.vaddr / 4096) := by
  simp only [fileVma, vmaCreate]
  omega

theorem fileVma_fileOffset (loadable : ph.Loadable bytes) (small : bytes.length < 2 ^ 32) :
    (fileVma ph).fileOffset = ph.offset - ph.vaddr % 4096 := by
  have in_file := loadable.inFile
  simp only [fileVma]
  rw [sub32_of_le loadable.offset_le (by omega)]

variable {elf : VfsFile} {opened : ℕ → Option VfsFile} {proc : Process} {s₀ : Vmm}

variable {files : ℕ → Option VfsFile}

theorem fdFile_fileVma (ph : Phdr) (is_elf : files 3 = some elf) :
    fdFile files (fileVma ph).fd = some elf := by
  simp [fdFile, fileVma, maxFilesPerProcess, is_elf]

theorem vfsFileRead_getD {position count k : ℕ} (readable : elf.readable = true)
    (contents : elf.contents = some bytes) (inside : k < count) :
    ((vfsFileRead elf position count).getD []).getD k 0 = bytes.getD (position + k) 0 := by
  simp only [vfsFileRead, readable, contents, Bool.not_true, Bool.false_eq_true, if_false,
    map_some, getD_some]
  rw [getD_eq_getElem?_getD, getElem?_take_of_lt inside, getElem?_drop, getD_eq_getElem?_getD]

/-- The file data that the handler reads for an address. -/
theorem fileBytes_fileVma (is_elf : files 3 = some elf) (readable : elf.readable = true)
    (contents : elf.contents = some bytes) (small : bytes.length < 2 ^ 32)
    (loadable : ph.Loadable bytes) (above : ph.vaddr ≤ a)
    (below : a < pageEnd (ph.vaddr + ph.filesz)) :
    (fileBytes files (fileVma ph) (4096 * (a / 4096))).getD (a % 4096) 0 =
      bytes.getD (ph.offset + (a - ph.vaddr)) 0 := by
  have le := loadable.filesz_le
  have top := loadable.below
  have offset_le := loadable.offset_le
  have in_file := loadable.inFile
  have file_end := pageEnd_eq (show ph.vaddr + ph.filesz ≤ 0xBFFFF000 by omega)
  have position : u32 ((fileVma ph).fileOffset + (4096 * (a / 4096) - (fileVma ph).start)) +
      a % 4096 = ph.offset + (a - ph.vaddr) := by
    rw [fileVma_start, fileVma_fileOffset loadable small, u32_of_lt (by omega)]
    omega
  rw [fileBytes, fdFile_fileVma ph is_elf]
  rw [vfsFileRead_getD readable contents (Nat.mod_lt _ (by omega)), position]

/-- The program headers as the loader reads them. -/
def loadedHeaders (elf : VfsFile) : List Phdr :=
  let ehdr := readEhdr ((vfsFileRead elf 0 52).getD [])
  (List.range ehdr.phnum).map (readPhdr ((vfsFileRead elf ehdr.phoff (32 * ehdr.phnum)).getD []))

/-- What a successful call has done. -/
theorem createUserProcessLazy_eq_some
    (created : createUserProcessLazy allocated opened s₀ = some (some (proc, s))) :
    ∃ elf s₁, opened 3 = some elf ∧ proc.files 3 = some elf ∧
      createUserPageDirectory (allocated .pageDirectory) s₀ = some (proc.pageDir, s₁) ∧
      proc.pageDir ≠ 0 ∧
      addStack (allocated .stack) proc.pageDir (loadSegments allocated (loadedHeaders elf)) s₁ =
        (proc.vmaList, s) := by
  unfold createUserProcessLazy at created
  split at created
  · cases created
  split at created
  · cases created
  cases is_elf : opened 3 with
  | none =>
    rw [is_elf] at created
    cases created
  | some elf =>
    rw [is_elf] at created
    dsimp only at created
    split at created
    · cases created
    obtain ⟨⟨pd, s₁⟩, directory, rest⟩ := bind_eq_some_iff.mp created
    split_ifs at rest with no_pd
    · cases rest
    · cases rest
    · cases rest
    · obtain ⟨entry, -, result⟩ := map_eq_some_iff.mp rest
      cases result
      exact ⟨elf, s₁, rfl, is_elf, directory, no_pd, rfl⟩

/-- The areas of a new process. -/
theorem createUserProcessLazy_vmaList (always : ∀ m, allocated m = true)
    (is_elf : opened 3 = some elf) (readable : elf.readable = true)
    (contents : elf.contents = some bytes)
    (created : createUserProcessLazy allocated opened s₀ = some (some (proc, s))) :
    proc.vmaList = stackVma :: (programHeaders bytes).reverse.flatMap segmentVmas ∧
      proc.files 3 = some elf := by
  obtain ⟨elf', s₁, is_elf', file_eq, -, -, stack⟩ := createUserProcessLazy_eq_some created
  obtain rfl : elf = elf' := mem_unique is_elf is_elf'
  have headers : loadedHeaders elf = programHeaders bytes := by
    simp [loadedHeaders, programHeaders, vfsFileRead, readable, contents]
  refine ⟨?_, file_eq⟩
  rw [headers, loadSegments_eq always, always, addStack] at stack
  have list_eq := (congrArg Prod.fst stack).symm
  simp only [Bool.not_true, Bool.false_eq_true, if_false, vmaAdd] at list_eq
  rw [list_eq]
  split_ifs <;> rfl

/-- The stack is a page of the process. -/
theorem Spaces.edited_addStack {allocated : Bool} (spaces : Spaces role dirs s)
    (d_dir : pd ∈ dirs) :
    ∃ role', Spaces.Edited role dirs s role' (addStack allocated pd list s).2 := by
  have aligned := pmmAllocFrame_eq s
  have slot : userSlots (dirIndex 0x080FF000) := Or.inl (by decide)
  unfold addStack
  split_ifs
  · exact ⟨role, .refl spaces⟩
  dsimp only
  split_ifs with no_frame direct
  · exact ⟨role, spaces.edited_skip⟩
  all_goals
    have some_frame : nextFrame s ≠ 0 := by omega
    have small := nextFrame_lt s
    have taken := spaces.edited_take some_frame
    have new_page : update role (nextFrame s) .page (nextFrame s) = .page :=
      update_self _ _ _
    rw [aligned]
  · rw [Nat.mul_div_cancel_left _ (by omega)]
    have zeroed := taken.trans (taken.spaces.edited_writePage (Or.inl new_page) fun _ => 0)
    obtain ⟨role', mapped⟩ := zeroed.spaces.edited_map d_dir slot
      (pteCreate_names small 0x07 new_page)
    exact ⟨role', zeroed.trans mapped⟩
  · obtain ⟨role', mapped⟩ := taken.spaces.edited_map d_dir slot
      (pteCreate_names small 0x07 new_page)
    exact ⟨role', taken.trans mapped⟩

/-- The new process has an address space of its own. -/
theorem KernelLoaded.lazySpaces (kernel : KernelLoaded role s₀)
    (low : entryPresent (s₀.mem s₀.cr3 0) = true)
    (created : createUserProcessLazy allocated opened s₀ = some (some (proc, s))) :
    ∃ role', Spaces role' [proc.pageDir] s := by
  obtain ⟨elf, s₁, -, -, directory, nonzero, stack⟩ := createUserProcessLazy_eq_some created
  have shared := kernel.lowShared low directory nonzero
  obtain ⟨role', edit⟩ := shared.spaces.edited_addStack (mem_singleton_self proc.pageDir)
  rw [stack] at edit
  exact ⟨role', edit.spaces⟩

/-- The area of an address of a program. -/
theorem vmaFind_image {front back : List Phdr} (image : LoadableImage bytes)
    (split : programHeaders bytes = front ++ ph :: back) (is_load : ph.type = ptLoad)
    (above : ph.vaddr ≤ a) (below : a < ph.vaddr + ph.memsz) :
    ∃ vma, vmaFind (stackVma :: (programHeaders bytes).reverse.flatMap segmentVmas) a = some vma ∧
      (Shadowed back a ∨ ph.filesz = 0 ∨ pageEnd (ph.vaddr + ph.filesz) ≤ a → vma.ZeroFill) ∧
      (¬(Shadowed back a ∨ ph.filesz = 0 ∨ pageEnd (ph.vaddr + ph.filesz) ≤ a) →
        vma = fileVma ph) := by
  have loadable : ∀ q ∈ ph :: back, q.type = ptLoad → q.Loadable bytes := fun q mem =>
    image.loadable q (by rw [split]; exact mem_append_right _ mem)
  have touches : ph.Touches (a / 4096) := ⟨a, above, below, rfl⟩
  have apart : ∀ q ∈ back, q.type = ptLoad → ¬q.Touches (a / 4096) := by
    have disjoint := image.disjoint
    rw [split, pairwise_append] at disjoint
    intro q mem q_load
    exact (pairwise_cons.mp disjoint.2.1).1 q mem is_load q_load _ touches
  have not_stack : ¬stackVma.Contains a := by
    have outside := (loadable ph (by simp) is_load).apart _ touches
    rintro ⟨first, last⟩
    have first : 0x08080000 ≤ a := first
    have last : a < 0x08100000 := last
    omega
  have list_eq : stackVma :: (programHeaders bytes).reverse.flatMap segmentVmas =
      [stackVma] ++ (back.reverse.flatMap segmentVmas ++ (segmentVmas ph ++
        front.reverse.flatMap segmentVmas)) := by
    rw [split]
    simp
  -- an area of a later segment that covers the page is that of an empty one
  have later : ∀ vma ∈ back.reverse.flatMap segmentVmas, vma.Contains a →
      Shadowed back a ∧ vma.ZeroFill := by
    intro vma mem contains
    obtain ⟨q, q_mem, mem⟩ := mem_flatMap.mp mem
    have q_mem := mem_reverse.mp q_mem
    obtain ⟨q_load, -⟩ := mem_segmentVmas mem
    obtain ⟨empty, same, inside, zeros⟩ := shadow_of_contains
      (loadable q (mem_cons_of_mem _ q_mem) q_load) mem contains (apart q q_mem q_load)
    exact ⟨⟨q, q_mem, q_load, empty, same, inside⟩, zeros⟩
  rw [list_eq, vmaFind_append, vmaFind_eq_none (by simpa using not_stack), none_or, vmaFind_append]
  cases found : vmaFind (back.reverse.flatMap segmentVmas) a with
  | some vma =>
    obtain ⟨mem, contains⟩ := vmaFind_mem found
    obtain ⟨shadowed, zeros⟩ := later vma mem contains
    exact ⟨vma, rfl, fun _ => zeros, fun other => absurd (Or.inl shadowed) other⟩
  | none =>
    have not_shadowed : ¬Shadowed back a := by
      rintro ⟨q, q_mem, q_load, empty, same, inside⟩
      have fits := (loadable q (mem_cons_of_mem _ q_mem) q_load).below
      have no_file := (loadable q (mem_cons_of_mem _ q_mem) q_load).filesz_le
      have contains : (zeroVma q).Contains a := by
        rw [contains_zeroVma fits, pageEnd_eq fits]
        omega
      have mem : zeroVma q ∈ back.reverse.flatMap segmentVmas := by
        refine mem_flatMap.mpr ⟨q, mem_reverse.mpr q_mem, ?_⟩
        simp [segmentVmas, q_load, show q.filesz = 0 by omega]
      have missing := find?_eq_none.mp found _ mem
      simp [contains] at missing
    obtain ⟨vma, own, zeros, file⟩ :=
      vmaFind_own (loadable ph (by simp) is_load) is_load above below
    refine ⟨vma, ?_, fun which => zeros (which.resolve_left not_shadowed), fun other => file ?_⟩
    · rw [vmaFind_append, own]
      rfl
    · exact fun which => other (Or.inr which)

/-- **The image of a program**: once the first fault on the page of an address is served, the
byte there is the one of the program exactly if it is file data, or on a page without file
data, or zero in the file as well. -/
theorem lazy_image_iff {allocated : LoaderMemory → Bool} {opened : ℕ → Option VfsFile}
    {elf : VfsFile}
    {proc : Process} {s₀ s₁ : Vmm} (always : ∀ m, allocated m = true)
    (is_elf : opened 3 = some elf) (readable : elf.readable = true)
    (contents : elf.contents = some bytes) (image : LoadableImage bytes)
    (created : createUserProcessLazy allocated opened s₀ = some (some (proc, s₁)))
    (front back : List Phdr) (ph : Phdr) (split : programHeaders bytes = front ++ ph :: back)
    (is_load : ph.type = ptLoad) (a : ℕ) (above : ph.vaddr ≤ a) (below : a < ph.vaddr + ph.memsz)
    (fault : ℕ) (same : fault / 4096 = a / 4096) (spaces : Spaces role dirs s)
    (d_dir : proc.pageDir ∈ dirs) (some_frame : nextFrame s ≠ 0)
    (ready : s.PageReady proc.pageDir (dirIndex fault)) :
    ∃ vma s', vmaFind proc.vmaList fault = some vma ∧
      vmaHandlePageFault proc.files vma fault proc.pageDir s = some (true, s') ∧
      (byteAt s' proc.pageDir a = some (imageByte bytes ph a) ↔ ImageRight bytes ph back a) := by
  obtain ⟨list_eq, file_eq⟩ :=
    createUserProcessLazy_vmaList always is_elf readable contents created
  obtain ⟨vma, found, zeros, file⟩ := vmaFind_image image split is_load above below
  obtain ⟨member, contains⟩ := vmaFind_mem found
  have loadable := image.loadable ph (by rw [split]; simp) is_load
  have top := loadable.below
  have bottom := loadable.above
  have file_le := loadable.filesz_le
  have aligned : ∀ vma ∈ stackVma :: (programHeaders bytes).reverse.flatMap segmentVmas,
      vma.Aligned := by
    refine forall_mem_cons.mpr ⟨vmaCreate_aligned _ _ _, fun vma member => ?_⟩
    obtain ⟨q, -, member⟩ := mem_flatMap.mp member
    exact aligned_of_mem member
  have own : vma.OwnFrames := by
    by_cases which : Shadowed back a ∨ ph.filesz = 0 ∨ pageEnd (ph.vaddr + ph.filesz) ≤ a
    · exact Or.inr (zeros which).2
    · rw [file which]
      exact Or.inl (hasFlag_fileVma ph)
  have slot : userSlots (dirIndex fault) := by
    refine userSlots_of_lt (by omega) ?_
    unfold dirIndex
    omega
  obtain ⟨s', served, byte⟩ := spaces.vmaFault_byte proc.files d_dir slot own
    (((aligned vma member).contains_iff (by omega)).mp contains) some_frame ready same.symm
  refine ⟨vma, s', by rw [list_eq, vmaFind_congr aligned same, found], served, ?_⟩
  rw [byte, some_inj]
  unfold imageByte ImageRight
  by_cases which : Shadowed back a ∨ ph.filesz = 0 ∨ pageEnd (ph.vaddr + ph.filesz) ≤ a
  · rw [(zeros which).1, if_neg (by simp)]
    split_ifs with in_file
    · have file_end := pageEnd_eq (show ph.vaddr + ph.filesz ≤ 0xBFFFF000 by omega)
      have shadowed : Shadowed back a := which.resolve_right (by omega)
      exact ⟨fun zero => ⟨fun _ _ => zero.symm, fun other => absurd shadowed other⟩,
        fun right => (right.1 shadowed in_file).symm⟩
    · exact iff_of_true rfl ⟨fun _ inside => absurd inside in_file, fun other =>
        Or.inr ((which.resolve_left other).imp_right Or.inl)⟩
  · obtain ⟨not_shadowed, some_byte, before⟩ : ¬Shadowed back a ∧ ph.filesz ≠ 0 ∧
        a < pageEnd (ph.vaddr + ph.filesz) := by
      push Not at which
      exact which
    rw [file which, hasFlag_fileVma, if_pos rfl, same,
      fileBytes_fileVma file_eq readable contents image.small loadable above before]
    split_ifs with in_file
    · exact iff_of_true rfl ⟨fun shadowed => absurd shadowed not_shadowed, fun _ => Or.inl in_file⟩
    refine ⟨fun zero =>
      ⟨fun _ inside => absurd inside in_file, fun _ => by simp only [zero, or_true]⟩,
      fun right => ?_⟩
    rcases right.2 not_shadowed with inside | no_file | behind | zero
    · exact absurd inside in_file
    · exact absurd no_file some_byte
    · omega
    · exact zero

end

/-- A program of one segment, with four bytes of file data and four bytes of zeros, and
other bytes behind the file data. -/
def tinyElf : List (BitVec 8) :=
  elfMagic ++ List.replicate 24 0 ++ [52, 0, 0, 0] ++ List.replicate 12 0 ++ [1, 0] ++
    List.replicate 6 0 ++
    [1, 0, 0, 0, 0x54, 0, 0, 0, 0x54, 0, 0x40, 0, 0, 0, 0, 0, 4, 0, 0, 0, 8, 0, 0, 0, 7, 0, 0, 0,
      0, 0, 0, 0] ++
    [0xB8, 1, 2, 3, 0xAA, 0xAA, 0xAA, 0xAA]

def tinyPhdr : Phdr := ⟨1, 0x54, 0x400054, 4, 8, 7⟩

/-- The console and the program. -/
def tinyFiles (_ : ℕ) : Option VfsFile := some ⟨none, true, some tinyElf, none⟩

theorem programHeaders_tinyElf : programHeaders tinyElf = [tinyPhdr] := by decide

theorem loadableImage_tinyElf : LoadableImage tinyElf := by
  have touches : ∀ page, tinyPhdr.Touches page → page = 0x400 := by
    rintro page ⟨a, above, below, rfl⟩
    have above : 0x400054 ≤ a := above
    have below : a < 0x40005C := below
    omega
  refine ⟨by decide, fun ph mem _ => ?_, ?_⟩
  · rw [programHeaders_tinyElf] at mem
    obtain rfl := mem_singleton.mp mem
    refine ⟨by decide, by decide, by decide, by decide, by decide, by decide,
      fun page touched => ?_⟩
    rw [touches page touched]
    decide
  · rw [programHeaders_tinyElf]
    exact pairwise_singleton _ _

theorem tiny_image_wrong :
    LoadableImage tinyElf ∧ tinyPhdr ∈ programHeaders tinyElf ∧
      ∃ proc s₁ vma s₂,
        createUserProcessLazy (fun _ => true) tinyFiles bootDirectories.vmm =
          some (some (proc, s₁)) ∧
        vmaFind proc.vmaList 0x400058 = some vma ∧
        vmaHandlePageFault proc.files vma 0x400058 proc.pageDir s₁ = some (true, s₂) ∧
        byteAt s₂ proc.pageDir 0x400058 ≠ some (imageByte tinyElf tinyPhdr 0x400058) := by
  have ran :
      ((createUserProcessLazy (fun _ => true) tinyFiles bootDirectories.vmm).bind fun result =>
      result.bind fun new => (vmaFind new.1.vmaList 0x400058).bind fun vma =>
        (vmaHandlePageFault new.1.files vma 0x400058 new.1.pageDir new.2).map fun served =>
          (served.1, byteAt served.2 new.1.pageDir 0x400058)) = some (true, some 0xAA) := by
    decide +kernel
  refine ⟨loadableImage_tinyElf, by rw [programHeaders_tinyElf]; simp, ?_⟩
  obtain ⟨result, created, rest⟩ := bind_eq_some_iff.mp ran
  obtain ⟨⟨proc, s₁⟩, rfl, rest⟩ := bind_eq_some_iff.mp rest
  obtain ⟨vma, found, rest⟩ :=
    bind_eq_some_iff.mp (show (vmaFind proc.vmaList 0x400058).bind _ = _ from rest)
  obtain ⟨⟨served, s₂⟩, handled, seen⟩ := map_eq_some_iff.mp rest
  obtain ⟨rfl, byte⟩ := Prod.mk.inj seen
  refine ⟨proc, s₁, vma, s₂, created, found, handled, ?_⟩
  rw [byte]
  decide

theorem tiny_image_right :
    ∃ proc s₁ vma s₂,
      createUserProcessLazy (fun _ => true) tinyFiles bootDirectories.vmm = some (some (proc, s₁)) ∧
      vmaFind proc.vmaList 0x400055 = some vma ∧
      vmaHandlePageFault proc.files vma 0x400055 proc.pageDir s₁ = some (true, s₂) ∧
      byteAt s₂ proc.pageDir 0x400055 = some 1 := by
  have ran :
      ((createUserProcessLazy (fun _ => true) tinyFiles bootDirectories.vmm).bind fun result =>
      result.map fun new => (nextFrame new.2 ≠ 0 ∧
        (pmmAllocFrame (pmmAllocFrame new.2.pmm).2).1 ≠ 0 : Bool)) = some true := by
    decide +kernel
  obtain ⟨result, created, rest⟩ := bind_eq_some_iff.mp ran
  obtain ⟨⟨proc, s₁⟩, rfl, frames⟩ := map_eq_some_iff.mp rest
  obtain ⟨some_frame, second_frame⟩ := of_decide_eq_true frames
  obtain ⟨role, spaces⟩ := kernelLoaded_boot.lazySpaces (by decide) created
  obtain ⟨vma, s₂, found, served, right⟩ := lazy_image_iff (fun _ => rfl) rfl rfl rfl
    loadableImage_tinyElf created [] [] tinyPhdr programHeaders_tinyElf rfl 0x400055 (by decide)
    (by decide) 0x400055 rfl spaces (mem_singleton_self _) some_frame (Or.inr second_frame)
  have byte : imageByte tinyElf tinyPhdr 0x400055 = 1 := by decide
  rw [byte] at right
  have not_shadowed : ¬Shadowed [] 0x400055 := by simp [Shadowed]
  exact ⟨proc, s₁, vma, s₂, created, found, served, right.mpr
    ⟨fun shadowed => absurd shadowed not_shadowed, fun _ => Or.inl (by decide)⟩⟩

end EduOS
