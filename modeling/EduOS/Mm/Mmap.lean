import EduOS.Include.Errno
import EduOS.Arch.PageFault

/-!
# Memory mappings of processes

`mmap_impl` and `munmap_impl` of `kernel/mm/mmap.c`, called by a process.  A mapping is a
new area at the head of the list of the process; its pages come with the first faults.

The free range of a mapping without a fixed address is looked for in a list of its own,
`vma_list_head`, which holds the mappings made without a current process.  The mappings
of processes are not in it, so that every search returns the same address: a mapping is
fresh only if nothing is mapped there (`mmap_fresh_iff`).

A POSIX shared memory object is a file without an inode.  Its mapping remembers where the
data of the object is, but it is marked as that of a file, too, and the fault handler
looks at this mark first: the pages are new frames (`shm_mapping_iff`).
-/

namespace EduOS

def mapShared : BitVec 32 := 0x01

def mapFixed : BitVec 32 := 0x10

def mapAnonymous : BitVec 32 := 0x20

def protRead : BitVec 32 := 0x1

def protWrite : BitVec 32 := 0x2

def protExec : BitVec 32 := 0x4

/-- `struct vm_area`, as far as it is read. -/
structure VmArea where
  start : ℕ
  stop : ℕ

/-- The loop of `find_free_vaddr` over the areas that are left. -/
def findFreeFrom (size current : ℕ) : List VmArea → ℕ
  | [] => if u32 (current + size) ≤ 0x80000000 then current else 0
  | area :: rest =>
    if u32 (current + size) ≤ area.start then current
    else findFreeFrom size (4096 * (u32 (area.stop + 0xFFF) / 4096)) rest

/-- `find_free_vaddr`; 0 if there is no free range. -/
def findFreeVaddr (vmaListHead : List VmArea) (size : ℕ) : ℕ :=
  findFreeFrom size 0x40000000 vmaListHead

structure MmapArgs where
  addr : ℕ
  length : ℕ
  prot : BitVec 32
  flags : BitVec 32
  fd : ℤ
  offset : ℕ

/-- `(length + 0xFFF) & ~0xFFF` -/
def pageLength (length : ℕ) : ℕ := 4096 * (u32 (length + 0xFFF) / 4096)

/-- The file that `mmap_impl` looks at. -/
def mmapFile (files : ℕ → Option VfsFile) (args : MmapArgs) : Option VfsFile :=
  if hasFlag args.flags mapAnonymous then none else fdFile files args.fd

/-- `is_device_mapping`: the inode is that of a framebuffer, of major number 29. -/
def isDeviceMapping (file : Option VfsFile) : Bool :=
  match file with
  | some { inode := some rdev, .. } => rdev / 2 ^ 20 = 29
  | _ => false

/-- `shm_data`, if the file is a shared memory object: one without an inode. -/
def shmData (file : Option VfsFile) : ℕ :=
  match file with
  | some { inode := none, privateData := some object, .. } => object.data
  | _ => 0

/-- `vma_flags` -/
def mmapVmaFlags (args : MmapArgs) (device : Bool) : BitVec 32 :=
  (if hasFlag args.prot protRead then vmaRead else 0) |||
    (if hasFlag args.prot protWrite then vmaWrite else 0) |||
    (if hasFlag args.prot protExec then vmaExec else 0) |||
    (if hasFlag args.flags mapAnonymous then vmaAnonymous
      else if device then vmaAnonymous else vmaFile) |||
    (if hasFlag args.flags mapShared then vmaShared else vmaPrivate)

/-- The area of a mapping at `vaddr`; `framebuffer` is the physical address of the
framebuffer, 0 if there is none. -/
def mmapVma (framebuffer : ℕ) (files : ℕ → Option VfsFile) (args : MmapArgs) (vaddr : ℕ) : Vma :=
  let file := mmapFile files args
  let vma := vmaCreate vaddr (u32 (vaddr + pageLength args.length))
    (mmapVmaFlags args (isDeviceMapping file))
  if hasFlag args.flags mapAnonymous then vma
  else
    { vma with
      fd := args.fd
      fileOffset := args.offset
      privateData := if isDeviceMapping file then framebuffer else shmData file }

/-- The address of a mapping. -/
def mmapAddress (vmaListHead : List VmArea) (args : MmapArgs) : Except ℕ ℕ :=
  if hasFlag args.flags mapFixed then
    if args.addr = 0 ∨ args.addr % 4096 ≠ 0 then .error einval else .ok args.addr
  else
    let vaddr := findFreeVaddr vmaListHead (pageLength args.length)
    if vaddr = 0 then .error enomem else .ok vaddr

/-- `mmap_impl`, called by a process; `allocated` tells whether `kmalloc` succeeds. -/
def mmapImpl (vmaListHead : List VmArea) (framebuffer : ℕ) (allocated : Bool) (args : MmapArgs)
    (proc : Process) : Except ℕ ℕ × Process :=
  if args.length = 0 then (.error einval, proc)
  else
    match mmapAddress vmaListHead args with
    | .error errno => (.error errno, proc)
    | .ok vaddr =>
      if !allocated then (.error enomem, proc)
      else
        (.ok vaddr,
          { proc with vmaList := vmaAdd proc.vmaList (mmapVma framebuffer proc.files args vaddr) })

/-- One pass of the loop of `munmap_impl`. -/
def munmapPage (pd : ℕ) (vma : Vma) (s : Vmm) (va : ℕ) : Option Vmm := do
  let paddr ← s.virtToPhysInDirectory pd va
  if paddr = 0 then some s
  else
    let pmm := if hasFlag vma.flags vmaPrivate then pmmFreeFrame s.pmm paddr else s.pmm
    Vmm.unmapPage va { s with pmm := pmm }

/-- The pages from `vaddr` up to `limit`. -/
def pagesFrom (vaddr limit : ℕ) : List ℕ :=
  (List.range ((limit - vaddr) / 4096)).map fun i => vaddr + 4096 * i

/-- `munmap_impl`, called by a process whose directory is loaded: whether it returns 0. -/
def munmapImpl (addr length : ℕ) (proc : Process) (s : Vmm) : Option (Bool × Process × Vmm) :=
  if addr = 0 ∨ addr % 4096 ≠ 0 ∨ length = 0 then some (false, proc, s)
  else
    match vmaFind proc.vmaList addr with
    | none => some (false, proc, s)
    | some vma => do
        let s ← (pagesFrom addr (u32 (addr + pageLength length))).foldlM
          (munmapPage proc.pageDir vma) s
        some (true, { proc with vmaList := vmaRemove proc.vmaList vma }, s)

/-! ## Fresh ranges -/

/-- The calls on mappings. -/
inductive MmapCall
  | mmap (allocated : Bool) (args : MmapArgs)
  | munmap (addr length : ℕ)

/-- The calls of one process; no mapping was made without a current process. -/
def mmapStep (framebuffer : ℕ) (s : Process × Vmm) : MmapCall → Option (Process × Vmm)
  | .mmap allocated args => some ((mmapImpl [] framebuffer allocated args s.1).2, s.2)
  | .munmap addr length => (munmapImpl addr length s.1 s.2).map Prod.snd

/-- The length is a 32-bit number, and the address is left to the kernel. -/
def mmapLegal (_ : Process × Vmm) : MmapCall → Prop
  | .mmap _ args => args.length < 2 ^ 32 ∧ hasFlag args.flags mapFixed = false
  | .munmap _ _ => True

/-- The areas of the process have no address from `start` up to `start + length`. -/
def Unmapped (proc : Process) (start length : ℕ) : Prop :=
  ∀ vma ∈ proc.vmaList, ∀ addr, start ≤ addr → addr < start + length → ¬vma.Contains addr

/-- A mapping of `length` bytes at `start` in the range for mappings, by one new area,
where the process had nothing. -/
structure FreshRange (before after : Process) (start length : ℕ) : Prop where
  aligned : start % 4096 = 0
  above : 0x40000000 ≤ start
  below : start + length ≤ 0x80000000
  covered : ∃ vma, after.vmaList = vma :: before.vmaList ∧ vma.start ≤ start ∧
    start + length ≤ vma.stop
  disjoint : Unmapped before start length

/-- A mapping that succeeds is fresh. -/
def mmapFresh (framebuffer : ℕ) (s : Process × Vmm) : MmapCall → Prop
  | .mmap allocated args =>
    ∀ start, (mmapImpl [] framebuffer allocated args s.1).1 = .ok start →
      FreshRange s.1 (mmapImpl [] framebuffer allocated args s.1).2 start args.length
  | .munmap _ _ => True

/-- The length does not wrap around, and if it fits at all, the range from `0x40000000`
on is free. -/
def mmapSafe (s : Process × Vmm) : MmapCall → Prop
  | .mmap allocated args =>
    allocated = true → 0 < args.length →
      args.length ≤ 0xBFFFF000 ∧ (args.length ≤ 0x40000000 → Unmapped s.1 0x40000000 args.length)
  | .munmap _ _ => True

variable {length : ℕ} {vmaListHead : List VmArea}

theorem pageLength_bounds (small : length ≤ 0xFFFFF000) :
    length ≤ pageLength length ∧ pageLength length < length + 4096 ∧
      pageLength length % 4096 = 0 := by
  unfold pageLength
  rw [u32_of_lt (by omega)]
  omega

theorem findFreeFrom_aligned (size : ℕ) (areas : List VmArea) :
    ∀ current, current % 4096 = 0 → findFreeFrom size current areas % 4096 = 0 := by
  induction areas with
  | nil =>
    intro current aligned
    unfold findFreeFrom
    split_ifs
    · exact aligned
    · rfl
  | cons area rest ih =>
    intro current aligned
    unfold findFreeFrom
    split_ifs
    · exact aligned
    · exact ih _ (Nat.mul_mod_right 4096 _)

variable {args : MmapArgs} {start framebuffer k : ℕ} {proc proc' : Process} {object : ShmObject}
    {s : Vmm}

theorem mmapAddress_aligned
    (found : mmapAddress vmaListHead args = .ok start) : start % 4096 = 0 := by
  unfold mmapAddress at found
  dsimp only at found
  split_ifs at found with fixed bad none_free
  · cases found
    omega
  · cases found
    exact findFreeFrom_aligned _ _ _ (by decide)

/-- Every search returns the start of the range. -/
theorem mmapAddress_of_search (search : hasFlag args.flags mapFixed = false) :
    mmapAddress [] args =
      if u32 (0x40000000 + pageLength args.length) ≤ 0x80000000 then .ok 0x40000000
      else .error enomem := by
  simp only [mmapAddress, search, Bool.false_eq_true, if_false, findFreeVaddr, findFreeFrom]
  split_ifs <;> simp_all

theorem mmapVma_range (framebuffer : ℕ) (files : ℕ → Option VfsFile) (args : MmapArgs) (vaddr : ℕ) :
    (mmapVma framebuffer files args vaddr).start = 4096 * (vaddr / 4096) ∧
      (mmapVma framebuffer files args vaddr).stop =
        4096 * (u32 (u32 (vaddr + pageLength args.length) + 0xFFF) / 4096) := by
  unfold mmapVma vmaCreate
  split_ifs <;> exact ⟨rfl, rfl⟩

/-- A mapping succeeds at the start of the range if its end, as a 32-bit number, is not
beyond it. -/
theorem mmapImpl_of_search (search : hasFlag args.flags mapFixed = false)
    (some_bytes : args.length ≠ 0) :
    mmapImpl [] framebuffer true args proc =
      if u32 (0x40000000 + pageLength args.length) ≤ 0x80000000 then
        (.ok 0x40000000,
          { proc with
            vmaList := mmapVma framebuffer proc.files args 0x40000000 :: proc.vmaList })
      else (.error enomem, proc) := by
  simp only [mmapImpl, some_bytes, if_false, mmapAddress_of_search search, Bool.not_true,
    Bool.false_eq_true]
  split_ifs <;> rfl

theorem FreshRange.of_unmapped (fits : args.length ≤ 0x40000000)
    (free : Unmapped proc 0x40000000 args.length) :
    FreshRange proc
      { proc with vmaList := mmapVma framebuffer proc.files args 0x40000000 :: proc.vmaList }
      0x40000000 args.length := by
  obtain ⟨start, stop⟩ := mmapVma_range framebuffer proc.files args 0x40000000
  obtain ⟨covers, tight, aligned⟩ :=
    pageLength_bounds (show args.length ≤ 0xFFFFF000 by omega)
  refine ⟨by decide, le_rfl, by omega, ⟨_, rfl, by rw [start], ?_⟩, free⟩
  rw [stop, u32_of_lt (show 0x40000000 + pageLength args.length < _ by omega), u32_of_lt (by omega)]
  omega

theorem mmapFresh_iff_mmapSafe (s : Process × Vmm) (call : MmapCall) (legal : mmapLegal s call) :
    mmapFresh framebuffer s call ↔ mmapSafe s call := by
  cases call with
  | munmap addr length => exact Iff.rfl
  | mmap allocated args =>
    obtain ⟨small, search⟩ := legal
    simp only [mmapFresh, mmapSafe]
    rcases Nat.eq_zero_or_pos args.length with empty | some_bytes
    · simp [mmapImpl, empty]
    cases allocated with
    | false =>
      simp [mmapImpl, Nat.ne_of_gt some_bytes, mmapAddress_of_search search]
      split_ifs <;> simp
    | true =>
      rw [mmapImpl_of_search search (Nat.ne_of_gt some_bytes)]
      refine ⟨fun fresh _ _ => ⟨?_, fun fits => ?_⟩, fun safe start succeeded => ?_⟩
      · by_contra large
        have wraps : u32 (0x40000000 + pageLength args.length) ≤ 0x80000000 := by
          unfold pageLength u32
          omega
        rw [if_pos wraps] at fresh
        have below := (fresh _ rfl).below
        omega
      · have within : u32 (0x40000000 + pageLength args.length) ≤ 0x80000000 := by
          have := pageLength_bounds (show args.length ≤ 0xFFFFF000 by omega)
          rw [u32_of_lt (by omega)]
          omega
        rw [if_pos within] at fresh
        exact (fresh _ rfl).disjoint
      · obtain ⟨no_wrap, free⟩ := safe rfl some_bytes
        have bounds := pageLength_bounds (show args.length ≤ 0xFFFFF000 by omega)
        split_ifs at succeeded ⊢ with within
        · cases succeeded
          rw [u32_of_lt (by omega)] at within
          have fits : args.length ≤ 0x40000000 := by omega
          exact .of_unmapped fits (free fits)

/-- **Fresh ranges.**  In every run of mappings at addresses of the kernel's choice, all
mappings that succeed are fresh just if each of them has a length that does not wrap
around and, where it fits, finds the range from `0x40000000` on free. -/
theorem mmap_fresh_iff (framebuffer : ℕ) (s₀ : Process × Vmm) (calls : List MmapCall)
    (legal : Allowed (mmapStep framebuffer) mmapLegal s₀ calls) :
    Allowed (mmapStep framebuffer) (mmapFresh framebuffer) s₀ calls ↔
      Allowed (mmapStep framebuffer) mmapSafe s₀ calls :=
  allowed_congr mmapFresh_iff_mmapSafe legal

/-- Two private pages without a file. -/
def twoPages : MmapArgs where
  addr := 0
  length := 0x2000
  prot := 0x3
  flags := 0x22
  fd := -1
  offset := 0

/-- A process without areas. -/
def emptyProcess (pageDir : ℕ) : Process := ⟨pageDir, [], fun _ => none⟩

theorem mmapImpl_twoPages (proc : Process) :
    mmapImpl [] 0 true twoPages proc =
      (.ok 0x40000000,
        { proc with vmaList := mmapVma 0 proc.files twoPages 0x40000000 :: proc.vmaList }) := by
  rw [mmapImpl_of_search (by decide) (by decide), if_pos (by decide)]

theorem twoPages_legal (s : Process × Vmm) : mmapLegal s (.mmap true twoPages) :=
  ⟨by decide, by decide⟩

theorem mmap_fresh_again :
    Allowed (mmapStep 0) (mmapFresh 0) (emptyProcess 9, emptyVmm)
      [.mmap true twoPages, .munmap 0x40000000 0x2000, .mmap true twoPages] := by
  have legal : Allowed (mmapStep 0) mmapLegal (emptyProcess 9, emptyVmm)
      [.mmap true twoPages, .munmap 0x40000000 0x2000, .mmap true twoPages] :=
    ⟨twoPages_legal _, fun _ _ => ⟨trivial, fun _ _ => ⟨twoPages_legal _, fun _ _ => trivial⟩⟩⟩
  have removed : ((mmapStep 0 (emptyProcess 9, emptyVmm) (.mmap true twoPages)).bind fun s =>
      mmapStep 0 s (.munmap 0x40000000 0x2000)).map (fun s => s.1.vmaList) = some [] := by
    decide +kernel
  have safe : Allowed (mmapStep 0) mmapSafe (emptyProcess 9, emptyVmm)
      [.mmap true twoPages, .munmap 0x40000000 0x2000, .mmap true twoPages] := by
    refine ⟨fun _ _ => ⟨by decide, fun _ vma member => by cases member⟩,
      fun s₁ first => ⟨trivial, fun s₂ second => ⟨fun _ _ => ⟨by decide, fun _ vma member => ?_⟩,
        fun _ _ => trivial⟩⟩⟩
    rw [first, Option.bind_some, second] at removed
    have none_left : s₂.1.vmaList = [] := Option.some.inj removed
    rw [none_left] at member
    cases member
  exact (mmap_fresh_iff 0 _ _ legal).mpr safe

/-- The second mapping of a process is where the first one is. -/
theorem mmap_not_fresh :
    Allowed (mmapStep 0) mmapLegal (emptyProcess 9, emptyVmm)
        [.mmap true twoPages, .mmap true twoPages] ∧
      ¬Allowed (mmapStep 0) (mmapFresh 0) (emptyProcess 9, emptyVmm)
        [.mmap true twoPages, .mmap true twoPages] := by
  refine ⟨⟨twoPages_legal _, fun _ _ => ⟨twoPages_legal _, fun _ _ => trivial⟩⟩, fun fresh => ?_⟩
  have again := (fresh.2 _ rfl).1 0x40000000 (by rw [mmapImpl_twoPages])
  have member : mmapVma 0 (emptyProcess 9).files twoPages 0x40000000 ∈
      (mmapImpl [] 0 true twoPages (emptyProcess 9)).2.vmaList := by
    rw [mmapImpl_twoPages]
    exact List.mem_cons_self
  exact again.disjoint _ member 0x40000000 le_rfl (by decide) (by decide)

/-! ## Shared memory objects -/

/-- The frame behind an address. -/
def frameAt (s : Vmm) (dir addr : ℕ) : Option ℕ := (walk s.mem dir addr).map Mapping.frame

/-- The frame behind byte `4096 * k` of the data of an object. -/
def shmFrame (object : ShmObject) (k : ℕ) (s : Vmm) : Option ℕ :=
  frameAt s s.cr3 (object.data + 4096 * k)

/-- A process has mapped an object from its start with `MAP_SHARED`. -/
structure ShmMapped (object : ShmObject) (args : MmapArgs) (proc proc' : Process) (start : ℕ) :
    Prop where
  file : ∃ file, fdFile proc.files args.fd = some file ∧ file.inode = none ∧
    file.privateData = some object
  shared : hasFlag args.flags mapShared = true
  named : hasFlag args.flags mapAnonymous = false
  offset : args.offset = 0
  mapped : ∃ vmaListHead framebuffer,
    mmapImpl vmaListHead framebuffer true args proc = (.ok start, proc')

/-- The process has faulted in page `k` of the mapping. -/
structure ShmFault (k : ℕ) (args : MmapArgs) (proc : Process) (start : ℕ) (s s' : Vmm) : Prop where
  inside : 4096 * k < args.length
  user : 0x400000 ≤ start ∧ start + args.length ≤ 0xC0000000
  loaded : s.cr3 = proc.pageDir
  served : ∃ vma, vmaFind proc.vmaList (start + 4096 * k) = some vma ∧
    vmaHandlePageFault proc.files vma (start + 4096 * k) proc.pageDir s = some (true, s')

theorem mmapImpl_ok
    (mapped : mmapImpl vmaListHead framebuffer true args proc = (.ok start, proc')) :
    start % 4096 = 0 ∧
      proc' =
        { proc with vmaList := mmapVma framebuffer proc.files args start :: proc.vmaList } := by
  simp only [mmapImpl, Bool.not_true, Bool.false_eq_true, if_false] at mapped
  split_ifs at mapped
  · cases mapped
  cases address : mmapAddress vmaListHead args with
  | error errno =>
    rw [address] at mapped
    cases mapped
  | ok vaddr =>
    rw [address] at mapped
    cases mapped
    exact ⟨mmapAddress_aligned address, rfl⟩

theorem mmapVmaFlags_file (named : hasFlag args.flags mapAnonymous = false) :
    hasFlag (mmapVmaFlags args false) vmaFile = true := by
  unfold mmapVmaFlags
  simp only [named, Bool.false_eq_true, if_false]
  split_ifs <;> decide

variable {role : ℕ → Role} {dirs : List ℕ}

section

variable {s' : Vmm}

/-- The mapping of an object is marked as that of a file. -/
theorem ShmMapped.vma (mapped : ShmMapped object args proc proc' start) :
    ∃ vma, proc'.vmaList = vma :: proc.vmaList ∧ hasFlag vma.flags vmaFile = true ∧
      vma.start = 4096 * (start / 4096) ∧
      vma.stop = 4096 * (u32 (u32 (start + pageLength args.length) + 0xFFF) / 4096) := by
  obtain ⟨file, named_file, no_inode, -⟩ := mapped.file
  obtain ⟨vmaListHead, framebuffer, done⟩ := mapped.mapped
  obtain ⟨first, last⟩ := mmapVma_range framebuffer proc.files args start
  have not_device : isDeviceMapping (mmapFile proc.files args) = false := by
    rw [mmapFile, mapped.named, if_neg (by simp), named_file]
    obtain ⟨inode, readable, contents, privateData⟩ := file
    obtain rfl : inode = none := no_inode
    rfl
  refine ⟨_, by rw [(mmapImpl_ok done).2], ?_, first, last⟩
  unfold mmapVma
  dsimp only
  rw [not_device, if_neg (by simp [mapped.named])]
  exact mmapVmaFlags_file mapped.named

/-- **Page `k` of a mapped object** is the frame that is allocated for it. -/
theorem ShmFault.frameAt_eq
    (mapped : ShmMapped object args proc proc' start) (fault : ShmFault k args proc' start s s')
    (spaces : Spaces role dirs s) (d_dir : proc'.pageDir ∈ dirs)
    (ready : s.PageReady proc'.pageDir (dirIndex (start + 4096 * k))) :
    frameAt s' proc'.pageDir (start + 4096 * k) = some (nextFrame s) := by
  have inside := fault.inside
  obtain ⟨above, below⟩ := fault.user
  obtain ⟨_, _, done⟩ := mapped.mapped
  have aligned := (mmapImpl_ok done).1
  obtain ⟨covers, tight, multiple⟩ :=
    pageLength_bounds (show args.length ≤ 0xFFFFF000 by omega)
  obtain ⟨vma, list, marked, first, last⟩ := mapped.vma
  have page : 4096 * ((start + 4096 * k) / 4096) = start + 4096 * k := by omega
  have contains : vma.Contains (start + 4096 * k) := by
    refine ⟨by omega, ?_⟩
    rw [last, u32_of_lt (show start + pageLength args.length < _ by omega), u32_of_lt (by omega)]
    omega
  have found : vmaFind proc'.vmaList (start + 4096 * k) = some vma := by
    rw [vmaFind, list, List.find?_cons_of_pos (by simpa using contains)]
  obtain ⟨vma', found', served⟩ := fault.served
  obtain rfl : vma = vma' := Option.mem_unique found found'
  have some_frame : nextFrame s ≠ 0 := by
    intro none_left
    rcases vmaHandlePageFault_of_none proc'.files vma (start + 4096 * k) proc'.pageDir
      none_left with failed | failed <;>
    · rw [failed] at served
      cases served
  have slot : userSlots (dirIndex (start + 4096 * k)) := by
    unfold userSlots dirIndex
    omega
  obtain ⟨role', s₁, ran, result⟩ := spaces.vmaFault proc'.files d_dir slot
    (Or.inl marked) (by rw [page]; exact contains) some_frame ready
  rw [ran] at served
  obtain rfl : s₁ = s' := congrArg Prod.snd (Option.some.inj served)
  obtain ⟨rights, walked, frame⟩ := Spaces.vmaFault_walk result (nextFrame_lt _)
    (a := start + 4096 * k) (by rw [page])
  rw [frameAt, walked, Option.map_some, frame]

end

/-- A process that has mapped an object and faulted in page `k` of it, in a machine whose
frames have their roles and which had a frame for the page table. -/
structure ShmUser (object : ShmObject) (k : ℕ) where
  args : MmapArgs
  before : Process
  proc : Process
  start : ℕ
  s : Vmm
  s' : Vmm
  mapped : ShmMapped object args before proc start
  fault : ShmFault k args proc start s s'
  spaces : ∃ role dirs, Spaces role dirs s ∧ proc.pageDir ∈ dirs
  ready : s.PageReady proc.pageDir (dirIndex (start + 4096 * k))

/-- What the process sees as page `k` of the object. -/
def ShmUser.frame {object : ShmObject} {k : ℕ} (user : ShmUser object k) : Option ℕ :=
  frameAt user.s' user.proc.pageDir (user.start + 4096 * k)

theorem ShmUser.frame_eq (user : ShmUser object k) : user.frame = some (nextFrame user.s) := by
  obtain ⟨role, dirs, spaces, d_dir⟩ := user.spaces
  exact ShmFault.frameAt_eq user.mapped user.fault spaces d_dir user.ready

/-- **Shared memory.**  Two processes see page `k` of an object in the frame behind the
data of the object just if that frame is the one the frame allocator has to give away
when each of them faults: never while the frame of the data is in use. -/
theorem shm_mapping_iff (object : ShmObject) (k : ℕ) (first second : ShmUser object k) :
    (∃ frame, shmFrame object k first.s = some frame ∧ shmFrame object k second.s = some frame ∧
        first.frame = some frame ∧ second.frame = some frame) ↔
      ∃ frame, shmFrame object k first.s = some frame ∧ shmFrame object k second.s = some frame ∧
        nextFrame first.s = frame ∧ nextFrame second.s = frame := by
  simp [ShmUser.frame_eq]

/-- An object of one page, at a kernel address that both directories below map to
frame 5. -/
def shmSample : ShmObject := ⟨0x1000, 0xC0005000⟩

/-- Directories in frames 9 and 11 that share a kernel table in frame 12. -/
def shmMemory : Memory := fun frame i =>
  if frame = 9 ∨ frame = 11 then
    if i = 768 then 0xC003 else if i = 1023 then BitVec.ofNat 32 (4096 * frame + 3) else 0
  else if frame = 12 ∧ i = 5 then 0x5003
  else 0

/-- A machine with the directory in frame `dir` loaded and some frames free. -/
def shmMachine (dir : ℕ) (free : List ℕ) : Vmm where
  mem := shmMemory
  cr3 := dir
  pmm := free.foldl Pmm.clearBit (pmmAllUsed 0x20000 0 0)

def shmRole (f : ℕ) : Role := if f = 9 ∨ f = 11 then .directory else .unused

theorem shmMachine_spaces (dir : ℕ) (free : List ℕ)
    (used : ∀ f ∈ [9, 11], (shmMachine dir free).pmm.testBit f = true)
    (total : (shmMachine dir free).pmm.totalFrames ≤ 2 ^ 20) :
    Spaces shmRole [9, 11] (shmMachine dir free) := by
  have no_table : ∀ t, shmRole t ≠ .table := by
    intro t
    unfold shmRole
    split_ifs <;> simp
  refine ⟨⟨by simp [shmRole], fun d d_dir i slot there => ?_, fun t is_table =>
    absurd is_table (no_table t)⟩, fun f has_role => Or.inl (used f ?_), total⟩
  · have entry : shmMemory d i = 0 := by
      have mem : d = 9 ∨ d = 11 := by simpa using d_dir
      unfold userSlots at slot
      simp only [shmMemory, if_pos mem]
      rw [if_neg (by omega), if_neg (by omega)]
    rw [show (shmMachine dir free).mem d i = 0 from entry] at there
    cases there
  · by_contra other
    exact has_role (if_neg (by simpa using other))

/-- One shared page through descriptor 3. -/
def shmArgs : MmapArgs where
  addr := 0
  length := 0x1000
  prot := 0x3
  flags := 0x01
  fd := 3
  offset := 0

def shmFiles (fd : ℕ) : Option VfsFile :=
  if fd = 3 then some ⟨none, true, none, some shmSample⟩ else none

/-- The area of the mapping. -/
def shmVma : Vma := mmapVma 0 shmFiles shmArgs 0x40000000

theorem shmProcess_mapped (pageDir : ℕ) :
    ShmMapped shmSample shmArgs ⟨pageDir, [], shmFiles⟩ ⟨pageDir, [shmVma], shmFiles⟩
      0x40000000 :=
  ⟨⟨_, rfl, rfl, rfl⟩, by decide, by decide, rfl, [], 0, by
    rw [mmapImpl_of_search (by decide) (by decide), if_pos (by decide)]
    rfl⟩

theorem shmVma_found : vmaFind [shmVma] 0x40000000 = some shmVma := by decide

/-- The process whose directory is loaded faults in the page. -/
theorem exists_shmUser (spaces : Spaces role dirs s)
    (loaded : s.cr3 ∈ dirs) (some_frame : nextFrame s ≠ 0)
    (ready : s.PageReady s.cr3 (dirIndex 0x40000000)) :
    ∃ user : ShmUser shmSample 0, user.s = s ∧
      vmaHandlePageFault shmFiles shmVma 0x40000000 s.cr3 s = some (true, user.s') ∧
      ∃ role', Spaces role' dirs user.s' := by
  have contains : shmVma.Contains (4096 * (0x40000000 / 4096)) := by decide
  obtain ⟨role', s', served, mapped⟩ := spaces.vmaFault shmFiles loaded
    (by unfold userSlots dirIndex; omega) (Or.inl (by decide)) contains some_frame ready
  exact ⟨⟨shmArgs, ⟨s.cr3, [], shmFiles⟩, ⟨s.cr3, [shmVma], shmFiles⟩, 0x40000000, s, s',
    shmProcess_mapped s.cr3, ⟨by decide, by decide, rfl, shmVma, shmVma_found, served⟩,
    ⟨role, dirs, spaces, loaded⟩, ready⟩, rfl, served, role', mapped.spaces⟩

/-- Both processes fault while frame 5 itself is the first free one. -/
theorem shm_mapping_same_frame :
    ∃ first second : ShmUser shmSample 0, first.s.cr3 = 9 ∧ second.s.cr3 = 11 ∧
      ∃ frame, shmFrame shmSample 0 first.s = some frame ∧
        shmFrame shmSample 0 second.s = some frame ∧ first.frame = some frame ∧
        second.frame = some frame := by
  obtain ⟨first, first_eq, -⟩ := exists_shmUser
    (shmMachine_spaces 9 [5, 21] (by decide) (by decide)) (by decide) (by decide)
    (Or.inr (by decide))
  obtain ⟨second, second_eq, -⟩ := exists_shmUser
    (shmMachine_spaces 11 [5, 21] (by decide) (by decide)) (by decide) (by decide)
    (Or.inr (by decide))
  refine ⟨first, second, by rw [first_eq]; rfl, by rw [second_eq]; rfl,
    (shm_mapping_iff shmSample 0 first second).mpr ?_⟩
  rw [first_eq, second_eq]
  exact ⟨5, by decide, by decide, by decide, by decide⟩

/-- The data of the object is in frame 5, which is in use; the processes get other
frames, one after the other. -/
theorem shm_mapping_apart :
    ∃ first second : ShmUser shmSample 0, second.s = { first.s' with cr3 := 11 } ∧
      shmFrame shmSample 0 first.s = some 5 ∧ shmFrame shmSample 0 second.s = some 5 ∧
      first.frame = some 20 ∧ second.frame = some 22 := by
  obtain ⟨first, first_eq, served, role, spaces⟩ := exists_shmUser
    (shmMachine_spaces 9 [20, 21, 22, 23] (by decide) (by decide)) (by decide) (by decide)
    (Or.inr (by decide))
  have after : (vmaHandlePageFault shmFiles shmVma 0x40000000 9
      (shmMachine 9 [20, 21, 22, 23])).map (fun result =>
        (nextFrame result.2, (pmmAllocFrame (pmmAllocFrame result.2.pmm).2).1,
          shmFrame shmSample 0 { result.2 with cr3 := 11 })) = some (22, 0x17000, some 5) := by
    decide +kernel
  rw [show (shmMachine 9 [20, 21, 22, 23]).cr3 = 9 from rfl] at served
  rw [served] at after
  obtain ⟨next, rest⟩ := Prod.mk.inj (Option.some.inj after)
  obtain ⟨third, backing⟩ := Prod.mk.inj rest
  have spaces' : Spaces role [9, 11] { first.s' with cr3 := 11 } :=
    { spaces with }
  obtain ⟨second, second_eq, -⟩ := exists_shmUser spaces' (by simp)
    (show nextFrame first.s' ≠ 0 by rw [next]; decide)
    (Or.inr (show (pmmAllocFrame (pmmAllocFrame first.s'.pmm).2).1 ≠ 0 by rw [third]; decide))
  refine ⟨first, second, second_eq, by rw [first_eq]; decide,
    by rw [second_eq]; exact backing, ?_, ?_⟩
  · rw [ShmUser.frame_eq, first_eq]
    decide
  · rw [ShmUser.frame_eq, second_eq]
    exact congrArg some next

end EduOS
