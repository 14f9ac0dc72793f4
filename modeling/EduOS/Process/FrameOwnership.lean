import EduOS.Process.Fork
import EduOS.Exec.UserDirectory
import EduOS.Mm.Mmap

/-!
# Ownership of page frames

The calls that hand out frames for the pages of user programs and take them back: faults,
`munmap_impl`, `sys_brk` of `kernel/syscall/sys_mem.c`, and `do_fork`, which lets two directories
name the same page tables.

There are no reference counts.  What keeps the frames in order is that a frame is named by one
entry of one page table only (`Owning.single`): directories share tables, not pages, so that an
entry that is cleared is cleared for all of them, and its frame can be given back.  Copy-on-write
is where this ends.  It puts a new frame in the place of the old one, which is neither mapped any
more nor given back (`cow_leaks_frame`).  Frames are also lost when no frame is left for the page
table of a new page, and when an area without `VMA_PRIVATE` is unmapped; and `munmap_impl` does
not stop at the addresses of the kernel.  Without these four, every frame of a user page is mapped
and no frame that is mapped is free, in every state that the calls lead to (`frames_owned`).

The first entry of every directory names the kernel's table for the first 4 MiB, which shows free
frames as well.  It is closed to user mode: what counts is what a process can reach.
-/

namespace EduOS

open Memory Option

open Function List

/-! ## The break -/

/-- The static variables of `sys_brk`, which all processes share; 0 is `NULL`. -/
structure Brk where
  heapStart : ℕ
  currentBrk : ℕ

/-- The heap has not been set up, or lies between the first 4 MiB and the kernel. -/
def Brk.InUserSpace (brk : Brk) : Prop :=
  (brk.heapStart = 0 ∨ 0x400000 ≤ brk.heapStart) ∧ brk.currentBrk < 0xC0000000

/-- The variables after the first lines of the call. -/
def Brk.started (brk : Brk) : Brk :=
  if brk.heapStart = 0 then ⟨0x10000000, 0x10000000⟩ else brk

/-- One pass of the loop that gives back the pages of the heap. -/
def brkPage (pd : ℕ) (s : Vmm) (va : ℕ) : Option Vmm := do
  let paddr ← s.virtToPhysInDirectory pd va
  if paddr = 0 then some s else Vmm.unmapPage va { s with pmm := pmmFreeFrame s.pmm paddr }

/-- The area of a part of the heap: `READ | WRITE | ANONYMOUS`. -/
def heapVma (oldBrk newBrk : ℕ) : Vma := vmaCreate oldBrk newBrk (0x01 ||| 0x02 ||| 0x80)

/-- A larger break: the heap area is extended, or another one is added; `none` if there is no
memory for it. -/
def brkGrow (allocated : Bool) (heapStart oldBrk newBrk : ℕ) (list : List Vma) :
    Option (List Vma) :=
  match (vmaFind list oldBrk).filter fun vma => vma.start = heapStart with
  | some existing => some (list.replace existing { existing with stop := newBrk })
  | none => if allocated then some (vmaAdd list (heapVma oldBrk newBrk)) else none

/-- `sys_brk`, called by a process whose directory is loaded; `allocated` tells whether `kmalloc`
succeeds. -/
def sysBrk (allocated : Bool) (addr : ℕ) (brk : Brk) (proc : Process) (s : Vmm) :
    Option (ℕ × Brk × Process × Vmm) :=
  let brk := brk.started
  if addr = 0 then some (brk.currentBrk, brk, proc, s)
  else if addr < brk.heapStart then some (brk.currentBrk, brk, proc, s)
  else if 0xC0000000 ≤ addr then some (brk.currentBrk, brk, proc, s)
  else
    let newBrk := pageLength addr
    let oldBrk := pageLength brk.currentBrk
    if oldBrk < newBrk then
      match brkGrow allocated brk.heapStart oldBrk newBrk proc.vmaList with
      | some list => some (addr, { brk with currentBrk := addr }, { proc with vmaList := list }, s)
      | none => some (brk.currentBrk, brk, proc, s)
    else if newBrk < oldBrk then
      match (vmaFind proc.vmaList (oldBrk - 4096)).filter fun vma => vma.start = brk.heapStart with
      | some vma =>
        ((pagesFrom newBrk oldBrk).foldlM (brkPage proc.pageDir) s).map fun s =>
          (addr, { brk with currentBrk := addr },
            { proc with vmaList := proc.vmaList.replace vma { vma with stop := newBrk } }, s)
      | none => some (addr, { brk with currentBrk := addr }, proc, s)
    else some (addr, { brk with currentBrk := addr }, proc, s)

/-! ## Runs -/

/-- The live processes, the break, and the frames that were handed out for pages of users and have
not been given back. -/
structure FrameState where
  vmm : Vmm
  processes : List Process
  brk : Brk
  content : List ℕ

/-- What a process does about its frames. -/
inductive FrameCall
  | mmap (allocated : Bool) (args : MmapArgs)
  | fault (addr : ℕ) (write : Bool)
  | fork (memory : ForkMemory)
  | munmap (addr length : ℕ)
  | brk (allocated : Bool) (addr : ℕ)

/-- A call, or a fault, of the process with the given number, whose directory is loaded then. -/
def frameStep (areas : List VmArea) (framebuffer : ℕ) (s : FrameState) (event : ℕ × FrameCall) :
    Option FrameState :=
  s.processes[event.1]?.bind fun proc =>
    let vmm := { s.vmm with cr3 := proc.pageDir }
    match event.2 with
    | .mmap allocated args =>
      some { s with
        vmm := vmm
        processes := s.processes.set event.1 (mmapImpl areas framebuffer allocated args proc).2 }
    | .fault addr write =>
      (handlePageFault proc addr (walk vmm.mem proc.pageDir addr).isSome write vmm).map
        fun (served, vmm') =>
          { s with
            vmm := vmm'
            content := if served then nextFrame vmm :: s.content else s.content }
    | .fork memory =>
      (doForkMemory memory proc vmm).map fun (child, vmm') =>
        { s with vmm := vmm', processes := s.processes ++ child.toList }
    | .munmap addr length =>
      (munmapImpl addr length proc vmm).map fun (_, proc', vmm') =>
        { s with
          vmm := vmm'
          processes := s.processes.set event.1 proc'
          content := s.content.filter vmm'.pmm.testBit }
    | .brk allocated addr =>
      (sysBrk allocated addr s.brk proc vmm).map fun (_, brk', proc', vmm') =>
        { vmm := vmm'
          processes := s.processes.set event.1 proc'
          brk := brk'
          content := s.content.filter vmm'.pmm.testBit }

/-- The directories of the live processes. -/
def FrameState.dirs (s : FrameState) : List ℕ := s.processes.map Process.pageDir

/-- Frame `f` is mapped at a user address in one of the directories, open to user mode. -/
def UserMapped (dirs : List ℕ) (m : Memory) (f : ℕ) : Prop :=
  ∃ d ∈ dirs, ∃ a < 0xC0000000, ∃ t, walk m d a = some t ∧ t.user = true ∧ t.frame = f

/-- **Ownership of frames**: no frame that a process can reach at a user address is free, and every
frame that was handed out for a page of a user is mapped. -/
structure FramesOwned (s : FrameState) : Prop where
  used : ∀ f, UserMapped s.dirs s.vmm.mem f → f < s.vmm.pmm.totalFrames → s.vmm.pmm.testBit f = true
  mapped : ∀ f ∈ s.content, UserMapped s.dirs s.vmm.mem f

/-- The calls that are considered: mappings are anonymous and private. -/
def frameLegal (_ : FrameState) (event : ℕ × FrameCall) : Prop :=
  match event.2 with
  | .mmap _ args => hasFlag args.flags mapAnonymous = true ∧ hasFlag args.flags mapShared = false
  | _ => True

/-- The calls that do not lose frames: a write to a page that is present is not served, there is a
frame for the page table of a new page, and only areas with `VMA_PRIVATE` are unmapped, within the
addresses of users; new pages and unmapped ones are not in the first 4 MiB. -/
def frameSafe (s : FrameState) (event : ℕ × FrameCall) : Prop :=
  ∀ proc, s.processes[event.1]? = some proc →
    match event.2 with
    | .fault addr write => addr < 0xC0000000 →
        ((walk s.vmm.mem proc.pageDir addr).isSome = true → write = true → nextFrame s.vmm = 0) ∧
          (walk s.vmm.mem proc.pageDir addr = none → nextFrame s.vmm ≠ 0 →
            0x400000 ≤ addr ∧ s.vmm.PageReady proc.pageDir (dirIndex addr))
    | .munmap addr length => ∀ vma, vmaFind proc.vmaList addr = some vma →
        hasFlag vma.flags vmaPrivate = true ∧ 0x400000 ≤ addr ∧
          u32 (addr + pageLength length) ≤ 0xC0000000
    | _ => True

/-! ## The invariant -/

/-- The entries of page tables that are present. -/
def liveEntries (role : ℕ → Role) (m : Memory) : Set (ℕ × ℕ) :=
  {e | role e.1 = .table ∧ e.2 < 1024 ∧ entryPresent (m e.1 e.2) = true}

/-- The entries that are present now are those that were. -/
def NoneAdded (role : ℕ → Role) (m : Memory) (role' : ℕ → Role) (m' : Memory) : Prop :=
  ∀ e ∈ liveEntries role' m', e ∈ liveEntries role m ∧ m' e.1 e.2 = m e.1 e.2

/-- The pages of all areas are new frames. -/
def OwnAreas (list : List Vma) : Prop := ∀ vma ∈ list, vma.OwnFrames

/-- An entry is present and open to user mode. -/
def EntryOpen (entry : BitVec 32) : Prop := entryPresent entry = true ∧ entryUser entry = true

/-- The page tables that a directory names for user addresses are open to user mode, but for the
first one. -/
def OpenTables (row : ℕ → BitVec 32) : Prop :=
  ∀ i < 768, entryPresent (row i) = true → (entryUser (row i) = true ↔ i ≠ 0)

/-- **The invariant**: the address spaces are typed, every directory names itself in its last
entry, a frame is named by one entry of one page table only, and the frames in `content` are
mapped. -/
structure Owning (role : ℕ → Role) (dirs : List ℕ) (s : Vmm) (content : Set ℕ) : Prop where
  spaces : Spaces role dirs s
  rights : ∀ d ∈ dirs, OpenTables (s.mem d)
  self : ∀ d ∈ dirs, SelfMapped s.mem d
  single : Set.InjOn (fun e : ℕ × ℕ => entryFrame (s.mem e.1 e.2)) (liveEntries role s.mem)
  inside : ∀ f ∈ content, f < s.pmm.totalFrames
  mapped : ∀ f ∈ content, UserMapped dirs s.mem f

/-- The invariant of a state: the pages of all areas are new frames, and the heap, if there is one,
is at user addresses. -/
structure OwningState (s : FrameState) : Prop where
  owning : ∃ role, Owning role s.dirs s.vmm {f | f ∈ s.content}
  areas : ∀ proc ∈ s.processes, ∀ vma ∈ proc.vmaList, vma.OwnFrames
  brk : s.brk.InUserSpace

variable {i addr : ℕ}

section

variable {role role' : ℕ → Role} {dirs dirs' : List ℕ} {s s' : Vmm} {content : Set ℕ}

variable {m : Memory} {f : ℕ}

/-- The entries of a page that is mapped. -/
theorem userMapped_iff :
    UserMapped dirs m f ↔ ∃ d ∈ dirs, ∃ a < 0xC0000000, EntryOpen (m d (dirIndex a)) ∧
      EntryOpen (tableEntry m d a) ∧ entryFrame (tableEntry m d a) = f := by
  constructor
  · rintro ⟨d, d_dir, a, below, t, walked, user, rfl⟩
    obtain ⟨there, page, rfl⟩ := walk_eq_some walked
    obtain ⟨table_user, page_user⟩ := Bool.and_eq_true_iff.mp user
    exact ⟨d, d_dir, a, below, ⟨there, table_user⟩, ⟨page, page_user⟩, rfl⟩
  · rintro ⟨d, d_dir, a, below, there, page, rfl⟩
    refine ⟨d, d_dir, a, below, _, if_pos ?_, ?_, rfl⟩
    · exact Bool.and_eq_true_iff.mpr ⟨there.1, page.1⟩
    · exact Bool.and_eq_true_iff.mpr ⟨there.2, page.2⟩

/-- A page stays mapped if its directory entries name the same tables and its entry in the table is
left alone. -/
theorem UserMapped.mono {m' : Memory} (mapped : UserMapped dirs m f) (sub : ∀ d ∈ dirs, d ∈ dirs')
    (pde : ∀ d ∈ dirs, ∀ i < 768, EntryOpen (m d i) →
      EntryOpen (m' d i) ∧ entryFrame (m' d i) = entryFrame (m d i))
    (pte : ∀ d ∈ dirs, ∀ a < 0xC0000000, EntryOpen (m d (dirIndex a)) →
      EntryOpen (tableEntry m d a) → entryFrame (tableEntry m d a) = f →
      m' (entryFrame (m d (dirIndex a))) (tableIndex a) = tableEntry m d a) :
    UserMapped dirs' m' f := by
  obtain ⟨d, d_dir, a, below, there, page, names⟩ := userMapped_iff.mp mapped
  obtain ⟨there', same⟩ := pde d d_dir (dirIndex a) (dirIndex_lt_768 below) there
  have entry : tableEntry m' d a = tableEntry m d a := by
    rw [tableEntry, same]
    exact pte d d_dir a below there page names
  refine userMapped_iff.mpr ⟨d, sub d d_dir, a, below, there', ?_, ?_⟩
  · rwa [entry]
  · rw [entry, names]

/-- Entries that are left alone, or lose their write bit. -/
theorem OpenTables.readOnly {row row' : ℕ → BitVec 32} (rights : OpenTables row)
    (entries : ∀ i < 768, entryPresent (row' i) = true →
      row' i = row i ∨ row' i = pdeReadOnly (row i)) : OpenTables row' := by
  intro i below there
  rcases entries i below there with same | cleared
  · rw [same] at there ⊢
    exact rights i below there
  · rw [cleared, entryPresent_pdeReadOnly] at there
    rw [cleared, entryUser_pdeReadOnly]
    exact rights i below there

/-- The entries that are present when entry `j` of table `t` is set. -/
theorem liveEntries_write {t j : ℕ} {word : BitVec 32} {e : ℕ × ℕ}
    (live : e ∈ liveEntries role (m.write t j word)) :
    e = (t, j) ∧ entryPresent word = true ∨
      e ∈ liveEntries role m ∧ e ≠ (t, j) ∧ m.write t j word e.1 e.2 = m e.1 e.2 := by
  obtain ⟨e_table, e_small, e_there⟩ := live
  by_cases here : e = (t, j)
  · subst here
    rw [write_self] at e_there
    exact Or.inl ⟨rfl, e_there⟩
  · have same : m.write t j word e.1 e.2 = m e.1 e.2 :=
      write_of_ne fun at_e => here (Prod.ext at_e.1 at_e.2)
    rw [same] at e_there
    exact Or.inr ⟨⟨e_table, e_small, e_there⟩, here, same⟩

namespace Owning

variable {d va : ℕ}

section

variable {a : ℕ} (owning : Owning role dirs s content) (d_dir : d ∈ dirs)
include owning d_dir

/-- A table that is open to user mode is not that for the first 4 MiB. -/
theorem beyond_low (below : a < 0xC0000000) (there : EntryOpen (s.mem d (dirIndex a))) :
    0x400000 ≤ a ∧ a < 0xC0000000 := by
  have first := (owning.rights d d_dir _ (dirIndex_lt_768 below) there.1).mp there.2
  unfold dirIndex at first
  omega

variable (user : 0x400000 ≤ a ∧ a < 0xC0000000)
    (there : entryPresent (s.mem d (dirIndex a)) = true)
include user there

theorem table : role (entryFrame (s.mem d (dirIndex a))) = .table :=
  owning.spaces.typed.table d d_dir _ (Or.inl (by unfold dirIndex; omega)) there

/-- The entry of a page that is mapped. -/
theorem live (page : entryPresent (tableEntry s.mem d a) = true) :
    (entryFrame (s.mem d (dirIndex a)), tableIndex a) ∈ liveEntries role s.mem :=
  ⟨owning.table d_dir user there, Nat.mod_lt _ (by omega), page⟩

end

section

variable (owning : Owning role dirs s content)
include owning

/-- **No frame that is mapped is free.** -/
theorem used (mapped : UserMapped dirs s.mem f)
    (inside : f < s.pmm.totalFrames) : s.pmm.testBit f = true := by
  obtain ⟨d, d_dir, a, below, there, page, rfl⟩ := userMapped_iff.mp mapped
  have user := owning.beyond_low d_dir below there
  obtain ⟨is_table, small, present⟩ := owning.live d_dir user there.1 page.1
  have is_page := owning.spaces.typed.page _ is_table _ small present
  rcases owning.spaces.used _ (by rw [is_page]; simp) with used | outside
  · exact used
  · exact absurd inside (Nat.not_lt.mpr outside)

theorem anti {content' : Set ℕ} (sub : content' ⊆ content) : Owning role dirs s content' :=
  ⟨owning.spaces, owning.rights, owning.self, owning.single, fun f mem => owning.inside f (sub mem),
    fun f mem => owning.mapped f (sub mem)⟩

theorem load (pd : ℕ) : Owning role dirs { s with cr3 := pd } content :=
  ⟨{ owning.spaces with }, owning.rights, owning.self,
    owning.single, owning.inside, owning.mapped⟩

/-- Only the allocator has changed. -/
theorem pmm {pmm' : Pmm} (spaces : Spaces role dirs { s with pmm := pmm' })
    (total : pmm'.totalFrames = s.pmm.totalFrames) :
    Owning role dirs { s with pmm := pmm' } content :=
  ⟨spaces, owning.rights, owning.self, owning.single, fun f mem => by
    show f < pmm'.totalFrames
    rw [total]
    exact owning.inside f mem, owning.mapped⟩

end

/-- What is named by one entry only stays so when entries are only taken away. -/
theorem single_of_old {m' : Memory}
    (single : Set.InjOn (fun e : ℕ × ℕ => entryFrame (m e.1 e.2)) (liveEntries role m))
    (old : NoneAdded role m role' m') :
    Set.InjOn (fun e : ℕ × ℕ => entryFrame (m' e.1 e.2)) (liveEntries role' m') := by
  intro e live e' live' same
  obtain ⟨was_live, entry⟩ := old e live
  obtain ⟨was_live', entry'⟩ := old e' live'
  dsimp only at same
  rw [entry, entry'] at same
  exact single was_live was_live' same

variable {pd : ℕ} {frames : Set ℕ}

section

variable (owning : Owning role dirs s content)
include owning

/-- Directories and page tables are different frames. -/
theorem dir_ne_table {t : ℕ} (d_dir : d ∈ dirs) (is_table : role t = .table) : d ≠ t :=
  ne_of_role (owning.spaces.typed.directory d d_dir) (by simp [is_table])

/-- What is added, to the directories and to the tables, names nothing yet: the entries of page
tables that are present are those that were. -/
theorem grow (spaces : Spaces role' dirs' s') (total : s'.pmm.totalFrames = s.pmm.totalFrames)
    (sub : ∀ d ∈ dirs, d ∈ dirs')
    (rights : ∀ d ∈ dirs', OpenTables (s'.mem d))
    (self : ∀ d ∈ dirs', SelfMapped s'.mem d)
    (pde : ∀ d ∈ dirs, ∀ i < 768, EntryOpen (s.mem d i) →
      EntryOpen (s'.mem d i) ∧ entryFrame (s'.mem d i) = entryFrame (s.mem d i))
    (tables : ∀ t, role t = .table → s'.mem t = s.mem t)
    (fresh : ∀ t, role' t = .table → role t = .table ∨ ∀ j, s'.mem t j = 0) :
    Owning role' dirs' s' content ∧ NoneAdded role s.mem role' s'.mem := by
  have old : NoneAdded role s.mem role' s'.mem := by
    rintro ⟨t, j⟩ ⟨is_table, small, present⟩
    rcases fresh t is_table with was_table | empty
    · rw [tables t was_table] at present ⊢
      exact ⟨⟨was_table, small, present⟩, rfl⟩
    · rw [empty j] at present
      cases present
  refine ⟨⟨spaces, rights, self, single_of_old owning.single old, fun f mem => ?_,
    fun f mem => (owning.mapped f mem).mono sub pde fun d d_dir a below there _ _ => ?_⟩, old⟩
  · rw [total]
    exact owning.inside f mem
  · rw [tables _ (owning.table d_dir (owning.beyond_low d_dir below there) there.1)]
    rfl

/-- An entry of a page table is set.  The directories are as they were, and so are the mappings of
other frames than the one that the entry named. -/
theorem setPte {t j : ℕ} {word : BitVec 32} {pmm' : Pmm} {content' : Set ℕ}
    (is_table : role t = .table) (spaces : Spaces role' dirs ⟨s.mem.write t j word, s.cr3, pmm'⟩)
    (single : Set.InjOn (fun e : ℕ × ℕ => entryFrame (s.mem.write t j word e.1 e.2))
      (liveEntries role' (s.mem.write t j word)))
    (inside : ∀ f ∈ content', f < pmm'.totalFrames)
    (mapped : ∀ f ∈ content',
      f ∈ content ∧ (entryPresent (s.mem t j) = true → entryFrame (s.mem t j) ≠ f) ∨
        UserMapped dirs (s.mem.write t j word) f) :
    Owning role' dirs ⟨s.mem.write t j word, s.cr3, pmm'⟩ content' := by
  have same_dir : ∀ d ∈ dirs, s.mem.write t j word d = s.mem d := fun d d_dir =>
    write_of_frame_ne (owning.dir_ne_table d_dir is_table)
  refine ⟨spaces, fun d d_dir => ?_, fun d d_dir => ?_, single, inside, fun f mem => ?_⟩
  · dsimp only
    rw [same_dir d d_dir]
    exact owning.rights d d_dir
  · exact (owning.self d d_dir).of_last (congrFun (same_dir d d_dir) _)
  · rcases mapped f mem with ⟨old, other⟩ | new
    · refine (owning.mapped f old).mono (fun _ d_dir => d_dir) (fun d d_dir i _ there => ?_)
        fun d d_dir a below there page names => write_of_ne ?_
      · dsimp only
        rw [same_dir d d_dir]
        exact ⟨there, rfl⟩
      · rintro ⟨rfl, rfl⟩
        exact other page.1 names
    · exact new

/-- **A page is unmapped** and its frame given back: no other entry names the frame. -/
theorem unmap {t j : ℕ} (live : (t, j) ∈ liveEntries role s.mem)
    (names : entryFrame (s.mem t j) = f) :
    Owning (update role f .unused) dirs
      ⟨s.mem.write t j 0, s.cr3, pmmFreeFrame s.pmm (4096 * f)⟩ {g | g ∈ content ∧ g ≠ f} := by
  obtain ⟨is_table, small, present⟩ := live
  have is_page : role f = .page := names ▸ owning.spaces.typed.page _ is_table _ small present
  -- the entries that are left
  have old : ∀ e ∈ liveEntries role (s.mem.write t j 0), e ∈ liveEntries role s.mem ∧
      s.mem.write t j 0 e.1 e.2 = s.mem e.1 e.2 ∧ entryFrame (s.mem.write t j 0 e.1 e.2) ≠ f := by
    intro e e_live
    rcases liveEntries_write e_live with ⟨-, absent⟩ | ⟨was, other, same⟩
    · cases absent
    · refine ⟨was, same, fun e_names => other (owning.single was ⟨is_table, small, present⟩ ?_)⟩
      rw [same] at e_names
      exact e_names.trans names.symm
  refine owning.setPte is_table ⟨?_, fun g has_role => ?_, ?_⟩
    (single_of_old owning.single fun e e_live => ?_) (fun g member => ?_)
    fun g member => Or.inl ⟨member.1, fun _ same => member.2 (same.symm.trans names)⟩
  · exact (owning.spaces.typed.setPte is_table fun absent => by cases absent).release is_page
      fun t' t'_table i i_small there => (old (t', i) ⟨t'_table, i_small, there⟩).2.2
  · have other : g ≠ f := by
      rintro rfl
      exact has_role (update_self _ _ _)
    rw [update_of_ne other] at has_role
    rw [pmmFreeFrame_totalFrames]
    refine (owning.spaces.used g has_role).imp_left fun used => pmmFreeFrame_test used ?_
    rw [pageSize, Nat.mul_div_cancel_left _ (by omega)]
    exact other.symm
  · rw [pmmFreeFrame_totalFrames]
    exact owning.spaces.total
  · obtain ⟨was, same, -⟩ := old e ⟨role_of_update e_live.1 (by simp), e_live.2⟩
    exact ⟨was, same⟩
  · rw [pmmFreeFrame_totalFrames]
    exact owning.inside g member.1

/-- **A page is mapped** where nothing was mapped, to a frame that no entry names. -/
theorem map (d_dir : d ∈ dirs) (user : 0x400000 ≤ va ∧ va < 0xC0000000)
    (there : entryPresent (s.mem d (dirIndex va)) = true)
    (absent : entryPresent (tableEntry s.mem d va) = false) {word : BitVec 32}
    (present : EntryOpen word) (names : entryFrame word = f) (is_page : role f = .page)
    (unnamed : ∀ e ∈ liveEntries role s.mem, entryFrame (s.mem e.1 e.2) ≠ f)
    (inside : f < s.pmm.totalFrames) :
    Owning role dirs (s.setEntryIn d va word) (insert f content) := by
  have is_table := owning.table d_dir user there
  refine owning.setPte is_table
    (owning.spaces.setMem (owning.spaces.typed.setPte is_table fun _ => names ▸ is_page))
    (fun e live e' live' same => ?_) (fun g mem => ?_) fun g mem => ?_
  · dsimp only at same
    rcases liveEntries_write live with ⟨rfl, -⟩ | ⟨was_live, -, eq⟩
    · rcases liveEntries_write live' with ⟨rfl, -⟩ | ⟨was_live', -, eq'⟩
      · rfl
      · rw [write_self, names, eq'] at same
        exact absurd same.symm (unnamed e' was_live')
    · rcases liveEntries_write live' with ⟨rfl, -⟩ | ⟨was_live', -, eq'⟩
      · rw [write_self, names, eq] at same
        exact absurd same (unnamed e was_live)
      · rw [eq, eq'] at same
        exact owning.single was_live was_live' same
  · rcases mem with rfl | mem
    · exact inside
    · exact owning.inside g mem
  · rcases mem with rfl | mem
    · have row : s.mem.write (entryFrame (s.mem d (dirIndex va))) (tableIndex va) word d =
          s.mem d :=
        write_of_frame_ne (owning.dir_ne_table d_dir is_table)
      refine Or.inr (userMapped_iff.mpr ⟨d, d_dir, va, user.2, ?_, ?_, ?_⟩)
      · rw [row]
        refine ⟨there, (owning.rights d d_dir _ (dirIndex_lt_768 user.2) there).mpr ?_⟩
        unfold dirIndex
        omega
      · rwa [tableEntry, row, write_self]
      · rw [tableEntry, row, write_self, names]
    · exact Or.inl ⟨mem, fun there' => absurd (there'.symm.trans absent) (by simp)⟩

/-- **A new page table** is there for directory entry `i`, if it was not there before. -/
theorem ensureTable (d_dir : d ∈ dirs) (slot : 0 < i ∧ i < 768)
    (ensured : Spaces.Ensured role dirs s d i role' s')
    (total : s'.pmm.totalFrames = s.pmm.totalFrames) :
    Owning role' dirs s' content ∧ NoneAdded role s.mem role' s'.mem := by
  cases there : entryPresent (s.mem d i) with
  | true =>
    obtain ⟨rfl, rfl⟩ := ensured.kept there
    exact ⟨owning, fun e live => ⟨live, rfl⟩⟩
  | false =>
    obtain ⟨role_eq, some_frame, new_table, empty, new_open⟩ := ensured.added there
    have is_dir : ∀ d ∈ dirs, role d = .directory := owning.spaces.typed.directory
    refine owning.grow ensured.spaces total (fun _ d_dir => d_dir)
      (fun d' d'_dir k below present => ?_) (fun d' d'_dir => ?_) (fun d' d'_dir k _ present => ?_)
      (fun t is_table => ?_) fun t is_table => ?_
    · by_cases here : d' = d ∧ k = i
      · obtain ⟨rfl, rfl⟩ := here
        exact iff_of_true new_open (by omega)
      · rw [ensured.entries d' (is_dir d' d'_dir) k here] at present ⊢
        exact owning.rights d' d'_dir k below present
    · refine (owning.self d' d'_dir).of_last (ensured.entries d' (is_dir d' d'_dir) 1023 ?_)
      omega
    · rw [ensured.entries d' (is_dir d' d'_dir) k]
      · exact ⟨present, rfl⟩
      · rintro ⟨rfl, rfl⟩
        exact absurd (present.1.symm.trans there) (by simp)
    · exact ensured.frames t (by simp [is_table]) (by simp [is_table])
    · by_cases new : t = nextFrame s
      · exact Or.inr (new ▸ empty)
      · rw [role_eq, update_of_ne new] at is_table
        exact Or.inl is_table

/-- The next frame is filled, and becomes a page. -/
theorem addPage (some_frame : nextFrame s ≠ 0) (page : ℕ → BitVec 32) :
    Owning (update role (nextFrame s) .page) dirs (withPage page s) content ∧
      NoneAdded role s.mem (update role (nextFrame s) .page) (withPage page s).mem := by
  have unused := owning.spaces.next_unused some_frame
  have same : ∀ f, role f ≠ .unused → (withPage page s).mem f = s.mem f := fun f has_role =>
    writePage_of_ne (ne_of_role unused has_role).symm
  have same_dir : ∀ d ∈ dirs, (withPage page s).mem d = s.mem d := fun d d_dir =>
    same d (by simp [owning.spaces.typed.directory d d_dir])
  refine owning.grow (owning.spaces.withPage some_frame page) (pmmAllocFrame_totalFrames _)
    (fun _ d_dir => d_dir) (fun d d_dir => ?_) (fun d d_dir => ?_)
    (fun d d_dir i _ present => ?_) (fun t is_table => same t (by simp [is_table]))
    fun t is_table => Or.inl ?_
  · rw [same_dir d d_dir]
    exact owning.rights d d_dir
  · exact (owning.self d d_dir).of_last (congrFun (same_dir d d_dir) _)
  · rw [same_dir d d_dir]
    exact ⟨present, rfl⟩
  · exact role_of_update is_table (by simp)

omit owning in
theorem entryOpen_pageFlags (vma : Vma) (address : ℕ) :
    EntryOpen (pteCreate address (vmaPageFlags vma)) := by
  refine ⟨entryPresent_pageFlags vma address, ?_⟩
  rw [pteCreate, entryUser, makeEntry_flag (by omega), vmaPageFlags]
  split_ifs <;> decide

/-- **A page on demand**: the next frame is filled and mapped where nothing was mapped. -/
theorem demand (d_dir : pd ∈ dirs) (user : 0x400000 ≤ addr ∧ addr < 0xC0000000)
    (unmapped : walk s.mem pd addr = none) (some_frame : nextFrame s ≠ 0)
    (ready : s.PageReady pd (dirIndex addr)) (page : ℕ → BitVec 32) (vma : Vma) :
    ∃ role', Owning role' dirs
      ((withPage page s).mapPageInDirectory pd (4096 * (addr / 4096)) (4096 * nextFrame s)
        (vmaPageFlags vma)) (insert (nextFrame s) content) := by
  obtain ⟨owning₁, old₁⟩ := owning.addPage some_frame page
  have unused := owning.spaces.next_unused some_frame
  obtain ⟨inside, -, -⟩ := nextFrame_taken owning.spaces.total some_frame
  obtain ⟨at_dir, at_table⟩ := (page_eq_iff (4096 * (addr / 4096)) addr).mp (by omega)
  have ready₁ : (withPage page s).TableReady pd (dirIndex (4096 * (addr / 4096))) :=
    at_dir.symm ▸ (owning.spaces.tableReady_withPage d_dir some_frame page).mpr ready
  obtain ⟨role₂, ensured⟩ := owning₁.spaces.ensureTableIn d_dir ready₁
  have total :
      ((withPage page s).ensureTableIn pd (dirIndex (4096 * (addr / 4096)))).pmm.totalFrames
      = s.pmm.totalFrames := by
    unfold Vmm.ensureTableIn
    split_ifs
    · exact pmmAllocFrame_totalFrames _
    · exact (pmmAllocFrame_totalFrames _).trans (pmmAllocFrame_totalFrames _)
  obtain ⟨owning₂, old₂⟩ :=
    owning₁.ensureTable d_dir (by rw [at_dir]; unfold dirIndex; omega) ensured
    (total.trans (pmmAllocFrame_totalFrames _).symm)
  rcases Vmm.mapPageInDirectory_cases (withPage page s) pd (4096 * (addr / 4096))
    (4096 * nextFrame s) (vmaPageFlags vma) with ⟨-, eq⟩ | ⟨not_ready, -⟩
  · rw [eq]
    refine ⟨role₂, owning₂.map d_dir (by omega) ensured.present ?_ (entryOpen_pageFlags vma _)
      (pteCreate_frame (lt_of_lt_of_le inside owning.spaces.total) _) ?_ (fun e live => ?_) ?_⟩
    · -- an entry that is present would have been there before the fault
      by_contra there
      have live :=
        owning₂.live d_dir (by omega) ensured.present (Bool.eq_true_of_not_eq_false there)
      obtain ⟨live₁, -⟩ := old₂ _ live
      obtain ⟨⟨-, -, present⟩, -⟩ := old₁ _ live₁
      cases was_there :
        entryPresent ((withPage page s).mem pd (dirIndex (4096 * (addr / 4096)))) with
      | true =>
        have same_dir : (withPage page s).mem pd = s.mem pd := writePage_of_ne
          (ne_of_role unused (by simp [owning.spaces.typed.directory pd d_dir])).symm
        rw [(ensured.kept was_there).1, same_dir, at_dir, at_table] at present
        rw [same_dir, at_dir] at was_there
        exact absurd unmapped (by
          rw [walk, mapping, was_there, present]
          exact some_ne_none _)
      | false =>
        obtain ⟨-, some_table, is_new, -⟩ := ensured.added was_there
        have new_unused := owning₁.spaces.next_unused some_table
        rw [← is_new] at new_unused
        exact absurd (live₁.1.symm.trans new_unused) (by simp)
    · rw [ensured.grows _ (by simp), update_self]
    · obtain ⟨live₁, same₂⟩ := old₂ e live
      obtain ⟨⟨is_table, small, present⟩, same₁⟩ := old₁ e live₁
      rw [same₂, same₁]
      exact ne_of_role (owning.spaces.typed.page _ is_table _ small present) (by simp [unused])
    · rw [total]
      exact inside
  · exact absurd ready₁ not_ready

end

/-- **One page is given back**: what is still in use of `frames` is mapped. -/
theorem releasePage
    (owning : Owning role dirs s {f | f ∈ frames ∧ s.pmm.testBit f = true}) (d_dir : s.cr3 ∈ dirs)
    (user : 0x400000 ≤ va ∧ va < 0xC0000000) (aligned : va % 4096 = 0)
    (done : brkPage s.cr3 s va = some s') :
    (∃ role', Owning role' dirs s' {f | f ∈ frames ∧ s'.pmm.testBit f = true}) ∧
      s'.cr3 = s.cr3 := by
  obtain ⟨paddr, looked_up, rest⟩ := bind_eq_some_iff.mp done
  have paddr_eq := Vmm.virtToPhysInDirectory_eq looked_up
  split_ifs at rest with none_there
  · cases rest
    exact ⟨⟨role, owning⟩, rfl⟩
  cases walked : walk s.mem s.cr3 va with
  | none =>
    rw [walked] at paddr_eq
    exact absurd paddr_eq none_there
  | some t =>
    rw [walked, aligned] at paddr_eq
    obtain rfl : paddr = 4096 * t.frame := paddr_eq
    obtain ⟨there, page, rfl⟩ := walk_eq_some walked
    rcases Vmm.unmapPage_cases
      (s := { s with pmm := pmmFreeFrame s.pmm (4096 * entryFrame (tableEntry s.mem s.cr3 va)) })
      (owning.self s.cr3 d_dir) (show va < 0xFFC00000 by omega) with
      ⟨-, unmapped⟩ | ⟨-, cleared⟩
    · exact absurd (walked.symm.trans unmapped) (by simp)
    obtain rfl := mem_unique rest cleared
    refine ⟨⟨_, (owning.unmap (owning.live d_dir user there page) rfl).anti ?_⟩, rfl⟩
    rintro f ⟨mem, in_use⟩
    have after : (pmmFreeFrame s.pmm (4096 * entryFrame (tableEntry s.mem s.cr3 va))).testBit f =
        true := in_use
    obtain ⟨was_used, not_freed⟩ := Bool.and_eq_true_iff.mp (pmmFreeFrame_testBit _ _ f ▸ after)
    refine ⟨⟨mem, was_used⟩, ?_⟩
    rintro rfl
    have inside := owning.inside _ ⟨mem, was_used⟩
    have frame : 4096 * entryFrame (tableEntry s.mem s.cr3 va) / pageSize =
        entryFrame (tableEntry s.mem s.cr3 va) := Nat.mul_div_cancel_left _ (by decide)
    rw [frame, decide_eq_true ⟨none_there, rfl, inside⟩] at not_freed
    cases not_freed

/-- **A fork**: the tables are shared, so their entries are as before. -/
theorem fork (owning : Owning role dirs s content) {parent child : ℕ} (listed : parent ∈ dirs)
    (forked : Forked role dirs s parent child s') (total : s'.pmm.totalFrames = s.pmm.totalFrames) :
    Owning (update role child .directory) (dirs ++ [child]) s' content := by
  have is_dir : ∀ d ∈ dirs, role d = .directory := owning.spaces.typed.directory
  -- an entry for user addresses at most loses its write bit
  have entries : ∀ d ∈ dirs, ∀ i, s'.mem d i = s.mem d i ∨
      s'.mem d i = pdeReadOnly (s.mem d i) := by
    intro d d_dir i
    by_cases here : d = parent
    · subst here
      rw [forked.parentEntries]
      split_ifs
      · exact Or.inr rfl
      · exact Or.inl rfl
    · rw [forked.frames d (by simp [is_dir d d_dir]) here]
      exact Or.inl rfl
  refine (owning.grow forked.spaces total (fun d => mem_append_left _) (fun d d_dir => ?_)
    (fun d d_dir => ?_) (fun d d_dir i below there => ?_) (fun t is_table => ?_)
    fun t is_table => Or.inl (role_of_update is_table (by simp))).1
  · rcases mem_append.mp d_dir with old | new
    · exact (owning.rights d old).readOnly fun i _ _ => entries d old i
    · obtain rfl := mem_singleton.mp new
      refine (owning.rights parent listed).readOnly fun i below there => Or.inr ?_
      rw [forked.childEntries i below] at there ⊢
      split_ifs at there ⊢
      · rfl
      · cases there
  · rcases mem_append.mp d_dir with old | new
    · refine (owning.self d old).of_last ?_
      by_cases here : d = parent
      · subst here
        rw [forked.parentEntries, if_neg (by simp)]
      · rw [forked.frames d (by simp [is_dir d old]) here]
    · obtain rfl := mem_singleton.mp new
      exact forked.childSelf
  · rcases entries d d_dir i with same | cleared
    · rw [same]
      exact ⟨there, rfl⟩
    · rw [cleared, EntryOpen, entryPresent_pdeReadOnly, entryUser_pdeReadOnly]
      exact ⟨there, entryFrame_pdeReadOnly _⟩
  · exact forked.frames t (by simp [is_table])
      (ne_of_role is_table (by simp [is_dir parent listed]))

/-- A fork that fails leaves the address spaces alone. -/
theorem failedFork (owning : Owning role dirs s content) {memory : ForkMemory} {parent : Process}
    (failed : doForkMemory memory parent s = some (none, s')) : Owning role dirs s' content := by
  rcases doForkMemory_eq_none failed with rfl | created
  · exact owning
  obtain ⟨mem, total, loaded, spaces⟩ := owning.spaces.createPageDirectory_eq_zero created
  obtain ⟨mem', cr3', pmm'⟩ := s'
  obtain rfl : mem' = s.mem := mem
  obtain rfl : cr3' = s.cr3 := loaded
  exact owning.pmm spaces total

end Owning

end

/-! ## What the calls do -/

section

variable {role : ℕ → Role} {dirs : List ℕ} {s s' : Vmm} {proc proc' : Process} {content : Set ℕ}

/-- Pages at user addresses are given back, one after the other. -/
def GivesBack (pd : ℕ) (s s' : Vmm) : Prop :=
  ∃ pages : List ℕ, (∀ va ∈ pages, (0x400000 ≤ va ∧ va < 0xC0000000) ∧ va % 4096 = 0) ∧
    pages.foldlM (brkPage pd) s = some s'

theorem GivesBack.refl (pd : ℕ) (s : Vmm) : GivesBack pd s s := ⟨[], nofun, rfl⟩

variable {length : ℕ} {unmapped : Bool}

/-- A page of an area with `VMA_PRIVATE` is given back as a page of the heap is. -/
theorem munmapPage_of_private {vma : Vma} (is_private : hasFlag vma.flags vmaPrivate = true)
    (pd : ℕ) : munmapPage pd vma = brkPage pd := by
  funext s va
  simp [munmapPage, brkPage, is_private]

theorem pagesFrom_user {start limit : ℕ} (high : 0x400000 ≤ start) (below : limit ≤ 0xC0000000)
    (aligned : start % 4096 = 0) :
    ∀ va ∈ pagesFrom start limit, (0x400000 ≤ va ∧ va < 0xC0000000) ∧ va % 4096 = 0 := by
  intro va mem
  obtain ⟨i, in_range, rfl⟩ := mem_map.mp mem
  have := mem_range.mp in_range
  omega

variable {allocated : Bool}

/-- A mapping adds an area whose pages are new frames. -/
theorem mmapImpl_own {areas : List VmArea} {framebuffer : ℕ} {args : MmapArgs}
    (anonymous : hasFlag args.flags mapAnonymous = true) (own : OwnAreas proc.vmaList) :
    (mmapImpl areas framebuffer allocated args proc).2.pageDir = proc.pageDir ∧
      OwnAreas (mmapImpl areas framebuffer allocated args proc).2.vmaList := by
  unfold mmapImpl
  by_cases no_bytes : args.length = 0
  · rw [if_pos no_bytes]
    exact ⟨rfl, own⟩
  rw [if_neg no_bytes]
  cases mmapAddress areas args with
  | error errno => exact ⟨rfl, own⟩
  | ok vaddr =>
    cases allocated with
    | false => exact ⟨rfl, own⟩
    | true =>
      refine ⟨rfl, forall_mem_cons.mpr ⟨Or.inr ?_, own⟩⟩
      simp [mmapVma, anonymous, vmaCreate]

/-- `munmap_impl` does nothing, or gives back the pages and removes the area that was found. -/
theorem munmapImpl_cases (done : munmapImpl addr length proc s = some (unmapped, proc', s')) :
    (proc' = proc ∧ s' = s) ∨ ∃ vma, vmaFind proc.vmaList addr = some vma ∧ addr % 4096 = 0 ∧
      proc' = { proc with vmaList := vmaRemove proc.vmaList vma } ∧
      (pagesFrom addr (u32 (addr + pageLength length))).foldlM (munmapPage proc.pageDir vma) s =
        some s' := by
  unfold munmapImpl at done
  split_ifs at done with invalid
  · cases done
    exact Or.inl ⟨rfl, rfl⟩
  split at done
  · cases done
    exact Or.inl ⟨rfl, rfl⟩
  · obtain ⟨s₁, released, result⟩ := bind_eq_some_iff.mp done
    cases result
    exact Or.inr ⟨_, ‹_›, by omega, rfl, released⟩

theorem munmapImpl_own (own : OwnAreas proc.vmaList)
    (done : munmapImpl addr length proc s = some (unmapped, proc', s')) :
    proc'.pageDir = proc.pageDir ∧ OwnAreas proc'.vmaList := by
  rcases munmapImpl_cases done with ⟨rfl, -⟩ | ⟨vma, -, -, rfl, -⟩
  · exact ⟨rfl, own⟩
  · exact ⟨rfl, fun vma mem => own vma (mem_of_mem_erase mem)⟩

theorem own_replace {list : List Vma} {vma vma' : Vma} (own : OwnAreas list)
    (new : vma'.OwnFrames) : OwnAreas (list.replace vma vma') := by
  induction list with
  | nil => exact own
  | cons first rest ih =>
    obtain ⟨first_own, rest_own⟩ := forall_mem_cons.mp own
    rw [replace_cons]
    split
    · exact forall_mem_cons.mpr ⟨new, rest_own⟩
    · exact forall_mem_cons.mpr ⟨first_own, ih rest_own⟩

theorem brkGrow_own {heapStart oldBrk newBrk : ℕ} {list list' : List Vma} (own : OwnAreas list)
    (grown : brkGrow allocated heapStart oldBrk newBrk list = some list') :
    OwnAreas list' := by
  unfold brkGrow at grown
  split at grown
  · rename_i existing found
    cases grown
    have mem : existing ∈ list := mem_of_find?_eq_some (filter_eq_some_iff.mp found).1
    exact own_replace own (own existing mem)
  · split_ifs at grown
    cases grown
    exact forall_mem_cons.mpr ⟨Or.inr rfl, own⟩

/-- A break within the user addresses: the areas of the process change, and pages of user addresses
may be given back. -/
theorem sysBrk_cases {result : ℕ} {brk brk' : Brk} (own : OwnAreas proc.vmaList)
    (user : brk.InUserSpace)
    (done : sysBrk allocated addr brk proc s = some (result, brk', proc', s')) :
    brk'.InUserSpace ∧ proc'.pageDir = proc.pageDir ∧
      OwnAreas proc'.vmaList ∧ GivesBack proc.pageDir s s' := by
  have user' : 0x400000 ≤ brk.started.heapStart ∧ brk.started.currentBrk < 0xC0000000 := by
    unfold Brk.started
    split_ifs with unset
    · decide
    · exact ⟨user.1.resolve_left unset, user.2⟩
  unfold sysBrk at done
  dsimp only at done
  generalize brk.started = brk at *
  obtain ⟨start, below⟩ := user'
  have moved : 0xC0000000 ≤ addr ∨ Brk.InUserSpace ⟨brk.heapStart, addr⟩ :=
    (Nat.lt_or_ge addr 0xC0000000).symm.imp_right fun below => ⟨Or.inr start, below⟩
  have idle : brk.InUserSpace ∧ proc.pageDir = proc.pageDir ∧
      OwnAreas proc.vmaList ∧ GivesBack proc.pageDir s s :=
        ⟨⟨Or.inr start, below⟩, rfl, own, .refl _ _⟩
  split_ifs at done with query low high grows shrinks
  · cases done
    exact idle
  · cases done
    exact idle
  · cases done
    exact idle
  · split at done
    · rename_i list grown
      cases done
      exact ⟨moved.resolve_left high, rfl, brkGrow_own own grown, .refl _ _⟩
    · cases done
      exact idle
  · split at done
    · rename_i vma found
      obtain ⟨s₁, released, eq⟩ := map_eq_some_iff.mp done
      obtain ⟨-, rfl, rfl, rfl⟩ := eq
      have mem : vma ∈ proc.vmaList :=
        mem_of_find?_eq_some (filter_eq_some_iff.mp found).1
      have old_bounds := pageLength_bounds (show brk.currentBrk ≤ 0xFFFFF000 by omega)
      have new_bounds := pageLength_bounds (show addr ≤ 0xFFFFF000 by omega)
      exact ⟨moved.resolve_left high, rfl, own_replace own (own vma mem), _,
        pagesFrom_user (by omega) (by omega) new_bounds.2.2, released⟩
    · cases done
      exact ⟨moved.resolve_left high, rfl, own, .refl _ _⟩
  · cases done
    exact ⟨moved.resolve_left high, rfl, own, .refl _ _⟩

/-- The pages that `munmap_impl` gives back. -/
theorem munmapImpl_pages (safe : ∀ vma, vmaFind proc.vmaList addr = some vma →
      hasFlag vma.flags vmaPrivate = true ∧ 0x400000 ≤ addr ∧
        u32 (addr + pageLength length) ≤ 0xC0000000)
    (done : munmapImpl addr length proc s = some (unmapped, proc', s')) :
    GivesBack proc.pageDir s s' := by
  rcases munmapImpl_cases done with ⟨-, rfl⟩ | ⟨vma, found, aligned, -, released⟩
  · exact .refl _ _
  · obtain ⟨is_private, high, limit⟩ := safe vma found
    rw [munmapPage_of_private is_private] at released
    exact ⟨_, pagesFrom_user high limit aligned, released⟩

/-- **A fault** of a process, unless frames are lost. -/
theorem Owning.fault (owning : Owning role dirs s content) (d_dir : proc.pageDir ∈ dirs)
    (own : OwnAreas proc.vmaList) {write served : Bool} (safe : addr < 0xC0000000 →
      ((walk s.mem proc.pageDir addr).isSome = true → write = true → nextFrame s = 0) ∧
        (walk s.mem proc.pageDir addr = none → nextFrame s ≠ 0 →
          0x400000 ≤ addr ∧ s.PageReady proc.pageDir (dirIndex addr)))
    (done : handlePageFault proc addr (walk s.mem proc.pageDir addr).isSome write s =
      some (served, s')) :
    ∃ role',
      Owning role' dirs s' (if served = true then insert (nextFrame s) content else content) := by
  unfold handlePageFault at done
  split_ifs at done with kernel present is_write
  · cases done
    exact ⟨role, owning⟩
  · -- a write to a page that is present: there is no frame for a copy
    obtain ⟨t, walked⟩ := isSome_iff_exists.mp present
    obtain ⟨refused, kept⟩ := copyOnWrite_of_refused walked
      (Or.inr ((safe (by omega)).1 present is_write)) done
    subst refused
    rcases kept with rfl | rfl
    · exact ⟨role, owning⟩
    · exact ⟨role, owning.pmm owning.spaces.skip (pmmAllocFrame_totalFrames _)⟩
  · cases done
    exact ⟨role, owning⟩
  · have unmapped : walk s.mem proc.pageDir addr = none := not_isSome_iff_eq_none.mp present
    cases found : vmaFind proc.vmaList addr with
    | none =>
      rw [found] at done
      cases done
      exact ⟨role, owning⟩
    | some vma =>
      rw [found] at done
      rcases vmaHandlePageFault_cases done with
        ⟨rfl, rfl | rfl⟩ | ⟨rfl, -, some_frame, s₁, phys, rfl, backing⟩
      · exact ⟨role, owning⟩
      · exact ⟨role, owning.pmm owning.spaces.skip (pmmAllocFrame_totalFrames _)⟩
      · rcases backingAddress_cases backing with ⟨rfl, rfl⟩ | ⟨not_own, -⟩
        · obtain ⟨high, ready⟩ := (safe (by omega)).2 unmapped some_frame
          exact owning.demand d_dir (by omega) unmapped some_frame ready _ vma
        · exact absurd (own vma (mem_of_find?_eq_some found)) not_own

/-- Pages are given back, and `content` is reduced to what is still in use. -/
theorem Owning.givesBack {frames : List ℕ} (owning : Owning role dirs s {f | f ∈ frames})
    (d_dir : s.cr3 ∈ dirs) (back : GivesBack s.cr3 s s') :
    ∃ role', Owning role' dirs s' {f | f ∈ frames.filter s'.pmm.testBit} := by
  obtain ⟨pages, user, done⟩ := back
  have start : Owning role dirs s {f | f ∈ frames ∧ s.pmm.testBit f = true} :=
    owning.anti fun f mem => mem.1
  clear owning
  generalize loaded : s.cr3 = pd at d_dir done
  induction pages generalizing s role with
  | nil =>
    cases done
    exact ⟨role, start.anti fun f mem => mem_filter.mp mem⟩
  | cons va rest ih =>
    obtain ⟨s₁, first, later⟩ := bind_eq_some_iff.mp done
    obtain ⟨⟨inside, aligned⟩, user⟩ := forall_mem_cons.mp user
    subst loaded
    obtain ⟨⟨role₁, start₁⟩, loaded₁⟩ := Owning.releasePage start d_dir inside aligned first
    exact ih user start₁ loaded₁ later

end

section

variable {areas : List VmArea} {framebuffer : ℕ} {s s' : FrameState} {event : ℕ × FrameCall}

variable {processes : List Process} {proc proc' : Process}

/-- A process is replaced by one with the same directory. -/
theorem dirs_set (found : processes[i]? = some proc) (same : proc'.pageDir = proc.pageDir) :
    (processes.set i proc').map Process.pageDir = processes.map Process.pageDir := by
  obtain ⟨inside, rfl⟩ := List.getElem?_eq_some_iff.mp found
  rw [map_set, same, ← map_set, set_getElem_self]

theorem areas_set (own : ∀ proc ∈ processes, OwnAreas proc.vmaList)
    (own' : OwnAreas proc'.vmaList) :
    ∀ proc ∈ processes.set i proc', OwnAreas proc.vmaList := by
  intro proc mem
  rcases mem_or_eq_of_mem_set mem with old | rfl
  · exact own proc old
  · exact own'

/-- The state after a call that changes the areas of the process. -/
theorem OwningState.replace {vmm' : Vmm} {brk' : Brk} {content' : List ℕ}
    (owned : OwningState s) (found : s.processes[i]? = some proc)
    (same : proc'.pageDir = proc.pageDir) (own' : OwnAreas proc'.vmaList)
    (owning : ∃ role, Owning role s.dirs vmm' {f | f ∈ content'})
    (user : brk'.InUserSpace) :
    OwningState ⟨vmm', s.processes.set i proc', brk', content'⟩ := by
  refine ⟨?_, areas_set owned.areas own', user⟩
  show ∃ role, Owning role ((s.processes.set i proc').map Process.pageDir) vmm' {f | f ∈ content'}
  rw [dirs_set found same]
  exact owning

/-- The areas of the child of a fork. -/
theorem doForkMemory_own {memory : ForkMemory} {parent child : Process} {s s' : Vmm}
    (forked : doForkMemory memory parent s = some (some child, s')) :
    OwnAreas child.vmaList := by
  rw [(doForkMemory_copied forked).2.2, copyVmaList_eq]
  intro vma mem
  obtain ⟨old, -, rfl⟩ := mem_map.mp (mem_reverse.mp mem)
  refine Or.inr ?_
  unfold copyVma
  split_ifs
  · rfl
  · rfl

/-- **One call keeps the invariant**, unless it loses frames. -/
theorem OwningState.step (owned : OwningState s) (legal : frameLegal s event)
    (safe : frameSafe s event) (done : frameStep areas framebuffer s event = some s') :
    OwningState s' := by
  obtain ⟨proc, found, rest⟩ := bind_eq_some_iff.mp done
  obtain ⟨role, owning⟩ := owned.owning
  have mem := mem_of_getElem? found
  have d_dir : proc.pageDir ∈ s.dirs := mem_map_of_mem mem
  have own := owned.areas proc mem
  have safe := safe proc found
  have owning := owning.load proc.pageDir
  obtain ⟨i, call⟩ := event
  cases call with
  | mmap allocated args =>
    cases rest
    obtain ⟨same, own'⟩ := mmapImpl_own legal.1 own
    exact owned.replace found same own' ⟨role, owning⟩ owned.brk
  | fault addr write =>
    obtain ⟨⟨served, vmm'⟩, handled, rfl⟩ := map_eq_some_iff.mp rest
    obtain ⟨role', owning'⟩ := owning.fault d_dir own safe handled
    refine ⟨⟨role', ?_⟩, owned.areas, owned.brk⟩
    cases served with
    | false => exact owning'
    | true =>
      refine owning'.anti fun f mem => ?_
      exact mem_cons.mp mem
  | fork memory =>
    obtain ⟨⟨child, vmm'⟩, forked, rfl⟩ := map_eq_some_iff.mp rest
    cases child with
    | none =>
      dsimp only [Option.toList]
      rw [append_nil]
      exact ⟨⟨role, owning.failedFork forked⟩, owned.areas, owned.brk⟩
    | some child =>
      have split := owning.spaces.fork d_dir rfl forked
      refine ⟨⟨update role child.pageDir .directory, ?_⟩, ?_, owned.brk⟩
      · show Owning _ ((s.processes ++ [child]).map Process.pageDir) _ _
        rw [map_append]
        exact owning.fork d_dir split split.total
      · exact forall_mem_append.mpr ⟨owned.areas, forall_mem_singleton.mpr
          (doForkMemory_own forked)⟩
  | munmap addr length =>
    obtain ⟨⟨unmapped, proc', vmm'⟩, handled, rfl⟩ := map_eq_some_iff.mp rest
    obtain ⟨same, own'⟩ := munmapImpl_own own handled
    obtain ⟨role', owning'⟩ := owning.givesBack d_dir (munmapImpl_pages safe handled)
    exact owned.replace found same own' ⟨role', owning'⟩ owned.brk
  | brk allocated addr =>
    obtain ⟨⟨result, brk', proc', vmm'⟩, handled, rfl⟩ := map_eq_some_iff.mp rest
    obtain ⟨user, same, own', back⟩ := sysBrk_cases own owned.brk handled
    obtain ⟨role', owning'⟩ := owning.givesBack d_dir back
    exact owned.replace found same own' ⟨role', owning'⟩ user

end

/-- **Ownership of frames**, in every state that calls lead to that do not lose frames. -/
theorem frames_owned {areas : List VmArea} {framebuffer : ℕ} {s₀ s : FrameState}
    {calls : List (ℕ × FrameCall)} (owned : OwningState s₀)
    (legal : Allowed (frameStep areas framebuffer) frameLegal s₀ calls)
    (safe : Allowed (frameStep areas framebuffer) frameSafe s₀ calls)
    (ran : exec (frameStep areas framebuffer) s₀ calls = some s) : FramesOwned s := by
  have owned := exec_keeps OwningState (fun _ _ _ owned both done => owned.step both.1 both.2 done)
    calls s₀ s owned (allowed_and.mpr ⟨legal, safe⟩) ran
  obtain ⟨role, owning⟩ := owned.owning
  exact ⟨fun f mapped inside => owning.used mapped inside, owning.mapped⟩

/-! ### The first process -/

/-- **The invariant holds at the start**, for the first process that has a directory from
`create_user_page_directory`. -/
theorem KernelLoaded.owningState {role : ℕ → Role} {s₀ s : Vmm} {allocated : Bool} {pd : ℕ}
    (kernel : KernelLoaded role s₀) (low : entryPresent (s₀.mem s₀.cr3 0) = true ∧
      entryUser (s₀.mem s₀.cr3 0) = false)
    (first : ∀ t, role t ≠ .table)
    (created : createUserPageDirectory allocated s₀ = some (pd, s)) (nonzero : pd ≠ 0) :
    OwningState ⟨s, [⟨pd, [], fun _ => none⟩], ⟨0, 0⟩, []⟩ := by
  have shared := kernel.lowShared low.1 created nonzero
  obtain ⟨s₁, new, s_eq⟩ := createUserPageDirectory_eq_some kernel low.1 created nonzero
  have rights : OpenTables (s.mem pd) := by
    intro i below there
    rcases Nat.eq_zero_or_pos i with rfl | positive
    · simp [shared.shared, low.2]
    · have entry : s.mem pd i = 0 := by
        rw [s_eq]
        dsimp only
        rw [write_of_index_ne (by omega), new.entries, if_neg (by omega), if_neg (by omega)]
      rw [entry] at there
      cases there
  refine ⟨⟨update role pd .directory, shared.spaces, ?_, ?_, ?_, nofun, nofun⟩, ?_, Or.inl rfl,
    Nat.zero_lt_succ _⟩
  · exact forall_mem_singleton.mpr rights
  · exact forall_mem_singleton.mpr shared.self
  · rintro ⟨t, j⟩ ⟨is_table, -⟩
    exact absurd (role_of_update is_table (by simp)) (first t)
  · exact forall_mem_singleton.mpr nofun

/-- The machine with a directory for the first process, in frame 288. -/
def firstVmm : Vmm where
  mem := (withDirectory bootMemory 9 288 289).write 288 0 0xA003
  cr3 := 9
  pmm := pmmFreeFrame (pmmAllocFrame (pmmAllocFrame bootDirectories.vmm.pmm).2).2 0x121000

set_option maxRecDepth 20000 in
theorem createUserPageDirectory_boot :
    createUserPageDirectory true bootDirectories.vmm = some (288, firstVmm) := rfl

/-- The machine with one process, in directory 288. -/
def firstProcess : FrameState := ⟨firstVmm, [⟨288, [], fun _ => none⟩], ⟨0, 0⟩, []⟩

theorem firstProcess_owning : OwningState firstProcess := by
  refine kernelLoaded_boot.owningState ⟨rfl, rfl⟩ (fun t => ?_) createUserPageDirectory_boot
    (by decide)
  unfold bootRole
  split_ifs <;> simp

/-- One private page, for reading and writing. -/
def privatePage : MmapArgs where
  addr := 0
  length := 0x1000
  prot := 0x3
  flags := 0x22
  fd := -1
  offset := 0

/-- The page is mapped and read, and then the process forks. -/
theorem frames_owned_read :
    ∃ s, exec (frameStep [] 0) firstProcess
        [(0, .mmap true privatePage), (0, .fault 0x40000000 false),
          (0, .fork ⟨true, true, true, fun _ => true⟩)] = some s ∧ FramesOwned s := by
  refine Exists.imp (fun s ran => ⟨ran, frames_owned firstProcess_owning ?_ ?_ ran⟩)
    (isSome_iff_exists.mp (by decide))
  · exact ⟨⟨by decide, by decide⟩, fun _ _ => ⟨trivial, fun _ _ => ⟨trivial, fun _ _ => trivial⟩⟩⟩
  · refine ⟨fun _ _ => trivial, fun s₁ mapped => ⟨fun proc found => ?_, fun _ _ =>
      ⟨fun _ _ => trivial, fun _ _ => trivial⟩⟩⟩
    cases mapped
    exact fun _ => ⟨fun _ => nofun, fun _ _ => ⟨by decide, Or.inr (by decide)⟩⟩

/-- The memory after the page is read, which takes frame 289 and a table in frame 290, and written,
which takes frame 291. -/
def leakedMemory (zeros : ℕ → BitVec 32) : Memory :=
  let m := (((firstVmm.mem.writePage 289 zeros).writePage 290 fun _ => 0).write 288 256
    0x122007).write 290 0 0x121005
  (m.writePage 291 (m 289)).write 290 0 0x123007

variable {zeros : ℕ → BitVec 32}

theorem leakedMemory_entry (small : i < 768) (there : EntryOpen (leakedMemory zeros 288 i)) :
    i = 256 := by
  by_contra other
  have entry : leakedMemory zeros 288 i = firstVmm.mem 288 i := by
    simp [leakedMemory, Memory.write, Memory.writePage, other]
  rw [entry] at there
  rcases Nat.eq_zero_or_pos i with rfl | positive
  · exact absurd there.2 (by decide)
  · have empty : firstVmm.mem 288 i = 0 := by
      rw [firstVmm]
      dsimp only
      rw [write_of_index_ne (by omega), withDirectory_self, if_neg (by omega), if_neg (by omega)]
    rw [empty] at there
    cases there.1

theorem leakedMemory_table {j : ℕ} (there : entryPresent (leakedMemory zeros 290 j) = true) :
    entryFrame (leakedMemory zeros 290 j) = 291 := by
  by_cases first : j = 0
  · have entry : leakedMemory zeros 290 j = 0x123007 := by
      rw [first]
      exact write_self
    rw [entry]
    decide
  · have entry : leakedMemory zeros 290 j = 0 := by
      simp [leakedMemory, Memory.write, Memory.writePage, first]
    rw [entry] at there
    cases there

/-- The page is mapped, read and written: the frame of the read is still in use, but it is not
mapped any more. -/
theorem cow_leaks_frame :
    OwningState firstProcess ∧ ∃ s,
      exec (frameStep [] 0) firstProcess
        [(0, .mmap true privatePage), (0, .fault 0x40000000 false), (0, .fault 0x40000000 true)] =
          some s ∧
      289 ∈ s.content ∧ s.vmm.pmm.testBit 289 = true ∧ ¬UserMapped s.dirs s.vmm.mem 289 := by
  refine ⟨firstProcess_owning, ⟨⟨leakedMemory _, 288, _⟩, _, _, _⟩, rfl, by decide, by decide,
    fun mapped => ?_⟩
  obtain ⟨d, d_dir, a, below, there, page, names⟩ := userMapped_iff.mp mapped
  obtain rfl : d = 288 := mem_singleton.mp d_dir
  have slot := leakedMemory_entry (dirIndex_lt_768 below) there
  rw [tableEntry, slot] at page names
  have frame := leakedMemory_table page.1
  exact absurd (frame.symm.trans names) (by decide)

end EduOS
