import EduOS.Library.FrameRoles
import EduOS.Mm.VmmDirectories

/-!
# Address spaces of processes

The calls of `kernel/mm/vmm.c` that edit a page directory which need not be loaded, and
the invariant of all directories.  The code reaches the frames of a directory in two
ways.  `kmap` maps them for the time of an access, and is taken here as access to the
frame.  An address `phys + 0xC0000000` is good for the first 4 MiB only
(`directWindow`); beyond them nothing is mapped, the kernel faults and panics, and the
call has no result.

`vmm_create_page_directory` is restated on frames; `vmmCreatePageDirectory_eq` says that
it is what the accesses through the loaded directory amount to.

`Spaces` gives every frame that the frame allocator has handed out a role.  Directories
name tables in their entries for user addresses, other than the first one, which is the
kernel's table of the first 4 MiB, and in entry 1022, where copy-on-write has its
windows.
-/

namespace EduOS

open Option

open Function Memory

/-- The frame seen at `phys + 0xC0000000`. -/
def directWindow (phys : ℕ) : Option ℕ :=
  if phys < 0x400000 then some (phys / 4096) else none

/-- The entry for `virt` in the page table that directory `pd` names. -/
def Vmm.setEntryIn (pd virt : ℕ) (word : BitVec 32) (s : Vmm) : Vmm :=
  { s with mem := s.mem.write (entryFrame (s.mem pd (dirIndex virt))) (tableIndex virt) word }

/-- `vmm_map_page_in_directory` -/
def Vmm.mapPageInDirectory (pd virt phys : ℕ) (flags : BitVec 32) (s : Vmm) : Vmm :=
  if pteIsPresent (s.mem pd (dirIndex virt)) then s.setEntryIn pd virt (pteCreate phys flags)
  else
    let (ptPhys, pmm) := pmmAllocFrame s.pmm
    if ptPhys = 0 then { s with pmm := pmm }
    else
      Vmm.setEntryIn pd virt (pteCreate phys flags)
        { s with
          mem := (s.mem.writePage (ptPhys / 4096) fun _ => 0).write pd (dirIndex virt)
            (pdeCreate ptPhys (pagePresent ||| pageWrite ||| pageUser))
          pmm := pmm }

/-- `vmm_virt_to_phys_in_directory` -/
def Vmm.virtToPhysInDirectory (pd virt : ℕ) (s : Vmm) : Option ℕ := do
  let pageDirectory ← directWindow (4096 * pd)
  let pde := s.mem pageDirectory (dirIndex virt)
  if !pteIsPresent pde then some 0
  else do
    let pageTable ← directWindow (pdeGetAddr pde)
    let pte := s.mem pageTable (tableIndex virt)
    if !pteIsPresent pte then some 0 else some (u32 (pteGetAddr pte + virt % 4096))

/-- `vmm_create_page_directory` on frames; frame 0 is `NULL`. -/
def Vmm.createPageDirectory (allocated : Bool) (s : Vmm) : Option (ℕ × Vmm) :=
  if !allocated then some (0, s)
  else
    let (pdPhys, pmm) := pmmAllocFrame s.pmm
    if pdPhys = 0 then some (0, { s with pmm := pmm })
    else
      let (tempPtPhys, pmm) := pmmAllocFrame pmm
      if tempPtPhys = 0 then some (0, { s with pmm := pmmFreeFrame pmm pdPhys })
      else do
        let temp ← directWindow tempPtPhys
        some (pdPhys / 4096,
          { s with
            mem := withDirectory s.mem s.cr3 (pdPhys / 4096) temp
            pmm := pmmFreeFrame pmm tempPtPhys })

/-- What the accesses through the loaded directory amount to, if the temporary table is
within the direct mapping. -/
theorem vmmCreatePageDirectory_eq {s : Directories} (allocated : Bool) (shared : Shared s)
    (direct : DirectMapped s.vmm (pmmAllocFrame (pmmAllocFrame s.vmm.pmm).2).1) :
    (vmmCreatePageDirectory allocated s).map (fun result => (result.1.getD 0, result.2.vmm)) =
      s.vmm.createPageDirectory allocated := by
  cases allocated with
  | false => rfl
  | true =>
    by_cases no_pd : (pmmAllocFrame s.vmm.pmm).1 = 0
    · simp [vmmCreatePageDirectory, Vmm.createPageDirectory, no_pd]
    by_cases no_temp : (pmmAllocFrame (pmmAllocFrame s.vmm.pmm).2).1 = 0
    · simp [vmmCreatePageDirectory, Vmm.createPageDirectory, no_pd, no_temp]
    obtain ⟨_, rfl, ran, -, -⟩ := shared.created rfl rfl no_pd no_temp direct
    rw [ran]
    simp [Vmm.createPageDirectory, no_pd, no_temp, directWindow, (direct no_temp).1,
      Directories.withNew]

/-! ## What the calls do -/

theorem directWindow_eq_some {phys frame : ℕ} (window : directWindow phys = some frame) :
    frame = phys / 4096 := by
  unfold directWindow at window
  split_ifs at window
  exact (Option.some.inj window).symm

theorem directWindow_frame {frame window : ℕ} (direct : directWindow (4096 * frame) = some window) :
    window = frame := by
  rw [directWindow_eq_some direct, Nat.mul_div_cancel_left _ (by omega)]

theorem pdeGetAddr_eq (pde : BitVec 32) : pdeGetAddr pde = 4096 * entryFrame pde :=
  pteGetAddr_eq pde

section

variable {s : Vmm} {pd virt phys : ℕ} {flags : BitVec 32}

/-- Directory `pd` with a new page table, open to user mode, at entry `i`. -/
def Vmm.withTableIn (s : Vmm) (pd i : ℕ) : Vmm :=
  { s with
    mem := (s.mem.writePage (nextFrame s) fun _ => 0).write pd i
      (pdeCreate (4096 * nextFrame s) (pagePresent ||| pageWrite ||| pageUser))
    pmm := (pmmAllocFrame s.pmm).2 }

/-- Directory `pd` with a page table at entry `i`. -/
def Vmm.ensureTableIn (s : Vmm) (pd i : ℕ) : Vmm :=
  if entryPresent (s.mem pd i) then s else s.withTableIn pd i

/-- There is a page table for entry `i` of directory `pd`, or a frame for one. -/
def Vmm.TableReady (s : Vmm) (pd i : ℕ) : Prop :=
  entryPresent (s.mem pd i) = true ∨ nextFrame s ≠ 0

/-- `vmm_map_page_in_directory` enters the page in a table that is there or new, or gives
up. -/
theorem Vmm.mapPageInDirectory_cases (s : Vmm) (pd virt phys : ℕ) (flags : BitVec 32) :
    (s.TableReady pd (dirIndex virt) ∧
        s.mapPageInDirectory pd virt phys flags =
          (s.ensureTableIn pd (dirIndex virt)).setEntryIn pd virt (pteCreate phys flags)) ∨
      (¬s.TableReady pd (dirIndex virt) ∧
        s.mapPageInDirectory pd virt phys flags = { s with pmm := (pmmAllocFrame s.pmm).2 }) := by
  unfold Vmm.TableReady Vmm.ensureTableIn
  have aligned := pmmAllocFrame_eq s
  cases present : entryPresent (s.mem pd (dirIndex virt)) with
  | true => exact Or.inl ⟨Or.inl rfl, by simp [Vmm.mapPageInDirectory, present]⟩
  | false =>
    by_cases no_frame : nextFrame s = 0
    · exact Or.inr ⟨by simp [no_frame],
        by simp [Vmm.mapPageInDirectory, present, pmmAllocFrame_failed no_frame]⟩
    have succeeded : ¬4096 * nextFrame s = 0 := by omega
    have frame : 4096 * nextFrame s / 4096 = nextFrame s := Nat.mul_div_cancel_left _ (by omega)
    refine Or.inl ⟨Or.inr no_frame, ?_⟩
    simp [Vmm.mapPageInDirectory, pteIsPresent_eq, present, aligned, succeeded, frame,
      Vmm.withTableIn]

/-- A look-up that returns is the walk of the processor. -/
theorem Vmm.virtToPhysInDirectory_eq {address : ℕ}
    (found : s.virtToPhysInDirectory pd virt = some address) :
    address = ((walk s.mem pd virt).map fun t => 4096 * t.frame + virt % 4096).getD 0 := by
  obtain ⟨dir, window, rest⟩ := bind_eq_some_iff.mp found
  obtain rfl := directWindow_frame window
  cases present : entryPresent (s.mem dir (dirIndex virt)) with
  | false =>
    rw [walk_of_absent present]
    simpa [present] using rest.symm
  | true =>
    simp only [pteIsPresent_eq, present, Bool.not_true, Bool.false_eq_true, if_false] at rest
    obtain ⟨table, window', rest⟩ := bind_eq_some_iff.mp rest
    rw [pdeGetAddr_eq] at window'
    obtain rfl := directWindow_frame window'
    rw [walk, mapping, present]
    split_ifs at rest with absent
    · simp_all
    · simp_all

/-- The frame of the page table for `virt`, once there is one. -/
def Vmm.tableFrame (s : Vmm) (pd virt : ℕ) : ℕ :=
  if entryPresent (s.mem pd (dirIndex virt)) then entryFrame (s.mem pd (dirIndex virt))
  else nextFrame s

theorem Vmm.ensureTableIn_entry (s : Vmm) (pd virt : ℕ) :
    entryPresent ((s.ensureTableIn pd (dirIndex virt)).mem pd (dirIndex virt)) = true ∧
      entryFrame ((s.ensureTableIn pd (dirIndex virt)).mem pd (dirIndex virt)) =
        s.tableFrame pd virt := by
  unfold Vmm.ensureTableIn Vmm.tableFrame
  split_ifs with present
  · exact ⟨present, rfl⟩
  have entry : (s.withTableIn pd (dirIndex virt)).mem pd (dirIndex virt) =
      pdeCreate (4096 * nextFrame s) (pagePresent ||| pageWrite ||| pageUser) :=
    write_self
  rw [entry]
  exact newEntry (nextFrame_lt s) pageUser

theorem directWindow_mul (frame : ℕ) :
    directWindow (4096 * frame) = if frame < 1024 then some frame else none := by
  rw [directWindow, Nat.mul_div_cancel_left _ (by omega)]
  exact if_congr (by omega) rfl rfl

end

/-- **Reading a mapping back** from a directory that need not be loaded: what
`vmm_map_page_in_directory` entered is found exactly if the directory and the page table
lie in the first 4 MiB. -/
theorem map_in_directory_read_iff (s : Vmm) (pd virt phys : ℕ) (flags : BitVec 32)
    (small : phys < 2 ^ 32) (present : entryPresent flags = true)
    (ready : s.TableReady pd (dirIndex virt)) (apart : s.tableFrame pd virt ≠ pd) :
    (s.mapPageInDirectory pd virt phys flags).virtToPhysInDirectory pd virt =
        some (4096 * (phys / 4096) + virt % 4096) ↔
      pd < 1024 ∧ s.tableFrame pd virt < 1024 := by
  rcases s.mapPageInDirectory_cases pd virt phys flags with ⟨-, eq⟩ | ⟨not_ready, -⟩
  swap
  · exact absurd ready not_ready
  obtain ⟨there, frame⟩ := s.ensureTableIn_entry pd virt
  have word : entryPresent (pteCreate phys flags) = true := by
    rw [entryPresent, pteCreate, makeEntry_flag (by omega)]
    exact present
  have same_dir : (s.mapPageInDirectory pd virt phys flags).mem pd =
      (s.ensureTableIn pd (dirIndex virt)).mem pd := by
    rw [eq]
    exact write_of_frame_ne (frame ▸ apart.symm)
  have entry : (s.mapPageInDirectory pd virt phys flags).mem (s.tableFrame pd virt)
      (tableIndex virt) = pteCreate phys flags := by
    rw [eq, ← frame]
    exact write_self
  unfold Vmm.virtToPhysInDirectory
  rw [directWindow_mul]
  by_cases low : pd < 1024
  · simp only [low, if_true, true_and, bind_eq_bind, bind_some, pteIsPresent_eq,
      same_dir, there, Bool.not_true, Bool.false_eq_true, if_false, pdeGetAddr_eq, frame,
      directWindow_mul]
    by_cases low_table : s.tableFrame pd virt < 1024
    · have address : entryFrame (pteCreate phys flags) = phys / 4096 := by
        rw [pteCreate, entryFrame_makeEntry, Nat.mod_eq_of_lt small]
      simp [low_table, entry, word, pteGetAddr_eq, u32_entryAddress, address]
    · simp [low_table]
  · simp [low]

theorem map_in_directory_read_back :
    (emptyVmm.mapPageInDirectory 9 0x400010 0x5000 7).virtToPhysInDirectory 9 0x400010 =
      some 0x5010 :=
  (map_in_directory_read_iff emptyVmm 9 0x400010 0x5000 7 (by decide) (by decide)
    (Or.inr (by decide)) (by decide)).mpr (by decide)

/-- A directory in frame 9 with one page table, which lies at 4 MiB. -/
def highTable : Vmm where
  mem frame i := if frame = 9 ∧ i = 1 then 0x400007 else 0
  cr3 := 9
  pmm := emptyVmm.pmm

/-- The kernel faults when it looks for a page in a table beyond the first 4 MiB. -/
theorem map_in_directory_unreadable :
    highTable.TableReady 9 1 ∧
      (highTable.mapPageInDirectory 9 0x400000 0x5000 7).virtToPhysInDirectory
      9 0x400000 = none :=
  ⟨Or.inl (by decide), by decide⟩

/-! ## The invariant -/

/-- The entries of a directory that name tables of the process: those for user
addresses, but for the first, and the one with the windows of copy-on-write. -/
def userSlots (i : ℕ) : Prop := (0 < i ∧ i < 768) ∨ i = 1022

/-- The directories are typed, and every frame with a role is marked used, or lies
outside of the memory that is managed. -/
structure Spaces (role : ℕ → Role) (dirs : List ℕ) (s : Vmm) : Prop where
  typed : Typed role userSlots dirs s.mem
  used : ∀ f, role f ≠ .unused → s.pmm.testBit f = true ∨ s.pmm.totalFrames ≤ f
  total : s.pmm.totalFrames ≤ 2 ^ 20

namespace Spaces

variable {role : ℕ → Role} {dirs : List ℕ} {s : Vmm} {d virt phys : ℕ} {flags : BitVec 32}

variable {m : Memory} {role' : ℕ → Role} {word : BitVec 32} {s' : Vmm}

section

variable (spaces : Spaces role dirs s)
include spaces

theorem setMem (typed : Typed role userSlots dirs m) : Spaces role dirs { s with mem := m } :=
  ⟨typed, spaces.used, spaces.total⟩

/-- The next frame has no role yet. -/
theorem next_unused (some_frame : nextFrame s ≠ 0) : role (nextFrame s) = .unused := by
  by_contra has_role
  exact Vmm.InUse.ne_next (spaces.used _ has_role) spaces.total some_frame rfl

/-- A frame is allocated; it may get a role. -/
theorem allocated {dirs' : List ℕ} (typed : Typed role' userSlots dirs' m)
    (roles : ∀ f, role' f ≠ .unused → role f ≠ .unused ∨ (f = nextFrame s ∧ nextFrame s ≠ 0)) :
    Spaces role' dirs' { s with mem := m, pmm := (pmmAllocFrame s.pmm).2 } := by
  refine ⟨typed, fun f has_role => ?_, ?_⟩
  · rcases roles f has_role with old | ⟨rfl, some_frame⟩
    · exact Vmm.InUse.alloc (spaces.used f old)
    · exact Vmm.inUse_next spaces.total some_frame
  · rw [pmmAllocFrame_totalFrames]
    exact spaces.total

omit spaces in
theorem roles_update (some_frame : nextFrame s ≠ 0) {r : Role} (f : ℕ)
    (has_role : update role (nextFrame s) r f ≠ .unused) :
    role f ≠ .unused ∨ (f = nextFrame s ∧ nextFrame s ≠ 0) := by
  rcases eq_or_ne f (nextFrame s) with rfl | other
  · exact Or.inr ⟨rfl, some_frame⟩
  · rw [update_of_ne other] at has_role
    exact Or.inl has_role

theorem skip : Spaces role dirs { s with pmm := (pmmAllocFrame s.pmm).2 } :=
  spaces.allocated spaces.typed fun _ has_role => Or.inl has_role

/-- The roles that a frame may get before it is written. -/
theorem take (some_frame : nextFrame s ≠ 0) {r : Role} (plain : r ≠ .table) :
    Spaces (update role (nextFrame s) r) dirs { s with pmm := (pmmAllocFrame s.pmm).2 } := by
  exact spaces.allocated (spaces.typed.assign (spaces.next_unused some_frame) plain)
    (roles_update some_frame)

theorem table_of_present (d_dir : d ∈ dirs)
    (slot : userSlots (dirIndex virt)) (present : entryPresent (s.mem d (dirIndex virt)) = true) :
    role (entryFrame (s.mem d (dirIndex virt))) = .table :=
  spaces.typed.table d d_dir _ slot present

theorem setEntryIn (d_dir : d ∈ dirs)
    (slot : userSlots (dirIndex virt)) (present : entryPresent (s.mem d (dirIndex virt)) = true)
    (names : entryPresent word = true → role (entryFrame word) = .page) :
    Spaces role dirs (s.setEntryIn d virt word) :=
  spaces.setMem (spaces.typed.setPte (spaces.table_of_present d_dir slot present) names)

theorem withTableIn {i : ℕ} (d_dir : d ∈ dirs) (some_frame : nextFrame s ≠ 0) :
    Spaces (update role (nextFrame s) .table) dirs (s.withTableIn d i) := by
  have unused := spaces.next_unused some_frame
  have typed :=
    (spaces.typed.writePage (f := nextFrame s) (by simp [unused]) fun _ => 0).assignTable
    unused fun j _ => by rw [writePage_self]; rfl
  refine spaces.allocated (typed.setPde d_dir fun _ _ => ?_) (roles_update some_frame)
  rw [(newEntry (nextFrame_lt s) pageUser).2, update_self]

end

/-- What `s.ensureTableIn d i` is, for a directory `d` of the invariant. -/
structure Ensured (role : ℕ → Role) (dirs : List ℕ) (s : Vmm) (d i : ℕ) (role' : ℕ → Role)
    (s' : Vmm) : Prop where
  spaces : Spaces role' dirs s'
  grows : ∀ f, role f ≠ .unused → role' f = role f
  present : entryPresent (s'.mem d i) = true
  frames : ∀ f, role f ≠ .unused → role f ≠ .directory → s'.mem f = s.mem f
  entries : ∀ f, role f = .directory → ∀ j, ¬(f = d ∧ j = i) → s'.mem f j = s.mem f j
  kept : entryPresent (s.mem d i) = true → s' = s ∧ role' = role
  added : entryPresent (s.mem d i) = false →
    role' = update role (nextFrame s) .table ∧ nextFrame s ≠ 0 ∧
      entryFrame (s'.mem d i) = nextFrame s ∧ (∀ j, s'.mem (nextFrame s) j = 0) ∧
      entryUser (s'.mem d i) = true

theorem ensureTableIn {i : ℕ} (spaces : Spaces role dirs s) (d_dir : d ∈ dirs)
    (ready : s.TableReady d i) :
    ∃ role', Ensured role dirs s d i role' (s.ensureTableIn d i) := by
  unfold Vmm.ensureTableIn
  cases present : entryPresent (s.mem d i) with
  | true =>
    exact ⟨role, spaces, fun _ _ => rfl, present, fun _ _ _ => rfl, fun _ _ _ _ => rfl,
      fun _ => ⟨rfl, rfl⟩, fun absent => by rw [present] at absent; cases absent⟩
  | false =>
    have some_frame : nextFrame s ≠ 0 := by
      rcases ready with there | some_frame
      · rw [present] at there
        cases there
      · exact some_frame
    have unused := spaces.next_unused some_frame
    have not_dir : nextFrame s ≠ d :=
      ne_of_role unused (by simp [spaces.typed.directory d d_dir])
    have entry : (s.withTableIn d i).mem d i =
        pdeCreate (4096 * nextFrame s) (pagePresent ||| pageWrite ||| pageUser) :=
      write_self
    refine ⟨_, spaces.withTableIn d_dir some_frame,
      fun f has_role => role_update unused has_role _, ?_, fun f has_role not_directory => ?_,
      fun f is_dir j other => ?_, fun there => ?_, fun _ => ⟨rfl, some_frame, ?_, fun j => ?_, ?_⟩⟩
    · rw [if_neg (by simp), entry]
      exact (newEntry (nextFrame_lt s) pageUser).1
    · have other : f ≠ d := by
        rintro rfl
        exact not_directory (spaces.typed.directory f d_dir)
      show (Memory.write _ d i _) f = _
      rw [write_of_frame_ne other, writePage_of_ne (ne_of_role unused has_role).symm]
    · show (Memory.write _ d i _) f j = _
      rw [write_of_ne other, writePage_of_ne (ne_of_role unused (by simp [is_dir])).symm]
    · rw [present] at there
      cases there
    · rw [if_neg (by simp), entry]
      exact (newEntry (nextFrame_lt s) pageUser).2
    · show (Memory.write _ d i _) (nextFrame s) j = _
      rw [write_of_frame_ne not_dir, writePage_self]
    · rw [if_neg (by simp), entry, pdeCreate, entryUser, makeEntry_flag (by omega)]
      decide

/-- **Mapping a page** of a process, when there is a table for it or a frame for one: the
page gets its entry, and neither pages nor what belongs to the kernel are touched. -/
structure Mapped (role : ℕ → Role) (dirs : List ℕ) (s : Vmm) (d virt : ℕ) (word : BitVec 32)
    (role' : ℕ → Role) (s' : Vmm) : Prop where
  spaces : Spaces role' dirs s'
  grows : ∀ f, role f ≠ .unused → role' f = role f
  frames : ∀ f, role f = .kernel ∨ role f = .page → s'.mem f = s.mem f
  entries : ∀ f, role f = .directory → ∀ j, ¬(f = d ∧ j = dirIndex virt) → s'.mem f j = s.mem f j
  present : entryPresent (s'.mem d (dirIndex virt)) = true
  kept : entryPresent (s.mem d (dirIndex virt)) = true →
    s'.mem d (dirIndex virt) = s.mem d (dirIndex virt)
  entry : s'.mem (entryFrame (s'.mem d (dirIndex virt))) (tableIndex virt) = word

theorem mapPageInDirectory (spaces : Spaces role dirs s) (d_dir : d ∈ dirs)
    (slot : userSlots (dirIndex virt)) (ready : s.TableReady d (dirIndex virt))
    (names : entryPresent (pteCreate phys flags) = true →
      role (entryFrame (pteCreate phys flags)) = .page) :
    ∃ role', Mapped role dirs s d virt (pteCreate phys flags) role'
      (s.mapPageInDirectory d virt phys flags) := by
  obtain ⟨role', ensured⟩ := spaces.ensureTableIn d_dir ready
  have table := ensured.spaces.table_of_present d_dir slot ensured.present
  have dir_ne : d ≠ entryFrame ((s.ensureTableIn d (dirIndex virt)).mem d (dirIndex virt)) :=
    ne_of_role (ensured.spaces.typed.directory d d_dir) (by simp [table])
  have same_dir : ((s.ensureTableIn d (dirIndex virt)).setEntryIn d virt
      (pteCreate phys flags)).mem d = (s.ensureTableIn d (dirIndex virt)).mem d :=
    write_of_frame_ne dir_ne
  rcases s.mapPageInDirectory_cases d virt phys flags with ⟨-, eq⟩ | ⟨not_ready, -⟩
  · rw [eq]
    refine ⟨role', ensured.spaces.setEntryIn d_dir slot ensured.present fun there => ?_,
      ensured.grows, fun f plain => ?_, fun f f_dir j other => ?_, ?_, fun there => ?_, ?_⟩
    · rw [ensured.grows _ (by simp [names there])]
      exact names there
    · have has_role : role f ≠ .unused := by rcases plain with h | h <;> simp [h]
      have not_dir : role f ≠ .directory := by rcases plain with h | h <;> simp [h]
      have not_table : f ≠ entryFrame ((s.ensureTableIn d (dirIndex virt)).mem d (dirIndex virt)) :=
        (ne_of_role table (by rw [ensured.grows f has_role]; rcases plain with h | h <;>
          simp [h])).symm
      exact (write_of_frame_ne not_table).trans (ensured.frames f has_role not_dir)
    · have not_table : f ≠ entryFrame ((s.ensureTableIn d (dirIndex virt)).mem d (dirIndex virt)) :=
        (ne_of_role table (by rw [ensured.grows f (by simp [f_dir])]; simp [f_dir])).symm
      exact (congrFun (write_of_frame_ne not_table) j).trans (ensured.entries f f_dir j other)
    · rw [same_dir]
      exact ensured.present
    · rw [same_dir, (ensured.kept there).1]
    · rw [same_dir]
      exact write_self
  · exact absurd ready not_ready

/-- The translation of the page afterwards. -/
theorem Mapped.walk {a : ℕ} (mapped : Mapped role dirs s d virt word role' s')
    (page : a / 4096 = virt / 4096) :
    walk s'.mem d a = mapping (s'.mem d (dirIndex virt)) word := by
  obtain ⟨at_dir, at_table⟩ := (page_eq_iff a virt).mp page
  rw [EduOS.walk, at_dir, at_table, mapped.entry]

/-! ## Edits for user mode -/

/-- What may happen to memory on behalf of a process: frames get roles, but no frame
loses its role, and neither the frames of the kernel change nor the directory entries
that are not for tables of processes. -/
structure Edited (role : ℕ → Role) (dirs : List ℕ) (s : Vmm) (role' : ℕ → Role) (s' : Vmm) :
    Prop where
  spaces : Spaces role' dirs s'
  grows : ∀ f, role f ≠ .unused → role' f = role f
  kernel : ∀ f, role f = .kernel → s'.mem f = s.mem f
  entries : ∀ d, role d = .directory → ∀ i, ¬userSlots i → s'.mem d i = s.mem d i
  total : s'.pmm.totalFrames = s.pmm.totalFrames
  loaded : s'.cr3 = s.cr3

theorem Edited.refl (spaces : Spaces role dirs s) : Edited role dirs s role s :=
  ⟨spaces, fun _ _ => rfl, fun _ _ => rfl, fun _ _ _ _ => rfl, rfl, rfl⟩

theorem Edited.trans {role₁ role₂ : ℕ → Role} {s₁ s₂ : Vmm} (first : Edited role dirs s role₁ s₁)
    (second : Edited role₁ dirs s₁ role₂ s₂) : Edited role dirs s role₂ s₂ := by
  refine ⟨second.spaces, fun f has_role => ?_, fun f is_kernel => ?_, fun d is_dir i not_slot => ?_,
    second.total.trans first.total, second.loaded.trans first.loaded⟩
  · have same := first.grows f has_role
    rw [second.grows f (by rwa [same]), same]
  · have same := first.grows f (by simp [is_kernel])
    rw [second.kernel f (by rw [same, is_kernel]), first.kernel f is_kernel]
  · have same := first.grows d (by simp [is_dir])
    rw [second.entries d (by rw [same, is_dir]) i not_slot, first.entries d is_dir i not_slot]

section

variable (spaces : Spaces role dirs s)
include spaces

/-- A frame is allocated and not used. -/
theorem edited_skip : Edited role dirs s role { s with pmm := (pmmAllocFrame s.pmm).2 } :=
  ⟨spaces.skip, fun _ _ => rfl, fun _ _ => rfl, fun _ _ _ _ => rfl,
    pmmAllocFrame_totalFrames _, rfl⟩

/-- A frame is allocated as a page. -/
theorem edited_take (some_frame : nextFrame s ≠ 0) :
    Edited role dirs s (update role (nextFrame s) .page)
      { s with pmm := (pmmAllocFrame s.pmm).2 } :=
  ⟨spaces.take some_frame (by simp), fun _ has_role =>
    role_update (spaces.next_unused some_frame) has_role _, fun _ _ => rfl, fun _ _ _ _ => rfl,
    pmmAllocFrame_totalFrames _, rfl⟩

/-- A frame that is no part of the paging structures is written. -/
theorem edited_mem {f : ℕ} (plain : role f = .page ∨ role f = .unused)
    (others : ∀ g, g ≠ f → m g = s.mem g) : Edited role dirs s role { s with mem := m } := by
  have apart : ∀ g, role g ≠ .page → role g ≠ .unused → m g = s.mem g := by
    intro g not_page not_unused
    refine others g ?_
    rintro rfl
    rcases plain with is_page | is_unused
    · exact not_page is_page
    · exact not_unused is_unused
  refine ⟨spaces.setMem (spaces.typed.frame fun g structural => apart g ?_ ?_), fun _ _ => rfl,
    fun g is_kernel => apart g (by simp [is_kernel]) (by simp [is_kernel]),
    fun d is_dir i _ => congrFun (apart d (by simp [is_dir]) (by simp [is_dir])) i, rfl, rfl⟩
  · rcases structural with h | h <;> simp [h]
  · rcases structural with h | h <;> simp [h]

theorem edited_writePage {f : ℕ}
    (plain : role f = .page ∨ role f = .unused) (page : ℕ → BitVec 32) :
    Edited role dirs s role { s with mem := s.mem.writePage f page } :=
  spaces.edited_mem plain fun _ other => writePage_of_ne other

/-- A frame without a role is given back. -/
theorem edited_free {frame : ℕ} (unused : role frame = .unused) :
    Edited role dirs s role { s with pmm := pmmFreeFrame s.pmm (4096 * frame) } := by
  refine ⟨⟨spaces.typed, fun f has_role => ?_, ?_⟩, fun _ _ => rfl, fun _ _ => rfl,
    fun _ _ _ _ => rfl, pmmFreeFrame_totalFrames _ _, rfl⟩
  · rw [pmmFreeFrame_totalFrames]
    refine (spaces.used f has_role).imp_left fun used => pmmFreeFrame_test used ?_
    rw [pageSize, Nat.mul_div_cancel_left _ (by omega)]
    exact ne_of_role unused has_role
  · rw [pmmFreeFrame_totalFrames]
    exact spaces.total

end

theorem Mapped.edited (mapped : Mapped role dirs s d virt word role' s')
    (slot : userSlots (dirIndex virt)) (total : s'.pmm.totalFrames = s.pmm.totalFrames)
    (loaded : s'.cr3 = s.cr3) : Edited role dirs s role' s' :=
  ⟨mapped.spaces, mapped.grows, fun f is_kernel => mapped.frames f (Or.inl is_kernel),
    fun f is_dir i not_slot => mapped.entries f is_dir i fun here => not_slot (here.2 ▸ slot),
    total, loaded⟩

theorem mapPageInDirectory_total (s : Vmm) (pd virt phys : ℕ) (flags : BitVec 32) :
    (s.mapPageInDirectory pd virt phys flags).pmm.totalFrames = s.pmm.totalFrames ∧
      (s.mapPageInDirectory pd virt phys flags).cr3 = s.cr3 := by
  unfold Vmm.mapPageInDirectory
  split_ifs
  · exact ⟨rfl, rfl⟩
  · dsimp only
    split_ifs
    · exact ⟨pmmAllocFrame_totalFrames _, rfl⟩
    · exact ⟨pmmAllocFrame_totalFrames _, rfl⟩

/-- A page is mapped in a directory, if there is a table for it or a frame for one. -/
theorem edited_map (spaces : Spaces role dirs s) (d_dir : d ∈ dirs)
    (slot : userSlots (dirIndex virt)) (names : entryPresent (pteCreate phys flags) = true →
      role (entryFrame (pteCreate phys flags)) = .page) :
    ∃ role', Edited role dirs s role' (s.mapPageInDirectory d virt phys flags) := by
  obtain ⟨total, loaded⟩ := mapPageInDirectory_total s d virt phys flags
  rcases s.mapPageInDirectory_cases d virt phys flags with ⟨ready, -⟩ | ⟨-, eq⟩
  · obtain ⟨role', mapped⟩ := spaces.mapPageInDirectory d_dir slot ready names
    exact ⟨role', mapped.edited slot total loaded⟩
  · rw [eq]
    exact ⟨role, spaces.edited_skip⟩

/-! ## New directories -/

/-- **A new directory** in frame `pd`: it shares the kernel entries of the loaded one. -/
structure Created (role : ℕ → Role) (dirs : List ℕ) (s : Vmm) (pd : ℕ) (s' : Vmm) : Prop where
  unused : role pd = .unused
  small : pd < 2 ^ 20
  spaces : Spaces (update role pd .directory) (dirs ++ [pd]) s'
  frames : ∀ f, role f ≠ .unused → s'.mem f = s.mem f
  entries : ∀ i, s'.mem pd i =
    if i = 1023 then pdeCreate (4096 * pd) (pagePresent ||| pageWrite)
    else if 768 ≤ i ∧ i < 1023 then s.mem s.cr3 i else 0
  total : s'.pmm.totalFrames = s.pmm.totalFrames
  loaded : s'.cr3 = s.cr3

/-- The frame for the temporary table, when a directory is created. -/
def tempFrame (s : Vmm) : ℕ := nextFrame { s with pmm := (pmmAllocFrame s.pmm).2 }

theorem createPageDirectory_eq_some {allocated : Bool} {pd : ℕ}
    (created : s.createPageDirectory allocated = some (pd, s')) (nonzero : pd ≠ 0) :
    pd = nextFrame s ∧ tempFrame s ≠ 0 ∧
      s' = { s with
        mem := withDirectory s.mem s.cr3 (nextFrame s) (tempFrame s)
        pmm := pmmFreeFrame (pmmAllocFrame (pmmAllocFrame s.pmm).2).2 (4096 * tempFrame s) } := by
  have aligned : (pmmAllocFrame (pmmAllocFrame s.pmm).2).1 = 4096 * tempFrame s :=
    (pmmAllocFrame_aligned (pmmAllocFrame s.pmm).2).1
  unfold Vmm.createPageDirectory at created
  split_ifs at created
  · cases created
    exact absurd rfl nonzero
  dsimp only at created
  split_ifs at created with no_pd no_temp
  · cases created
    exact absurd rfl nonzero
  · cases created
    exact absurd rfl nonzero
  · obtain ⟨temp, window, result⟩ := bind_eq_some_iff.mp created
    cases result
    obtain rfl : temp = tempFrame s := directWindow_eq_some window
    refine ⟨rfl, by omega, ?_⟩
    rw [aligned]
    rfl

/-- A creation that fails has at most tried to allocate frames. -/
theorem createPageDirectory_eq_zero {allocated : Bool} (spaces : Spaces role dirs s)
    (failed : s.createPageDirectory allocated = some (0, s')) :
    s'.mem = s.mem ∧ s'.pmm.totalFrames = s.pmm.totalFrames ∧ s'.cr3 = s.cr3 ∧
      Spaces role dirs s' := by
  have aligned := pmmAllocFrame_eq s
  unfold Vmm.createPageDirectory at failed
  dsimp only at failed
  split_ifs at failed with no_memory no_pd no_temp
  · cases failed
    exact ⟨rfl, rfl, rfl, spaces⟩
  · cases failed
    exact ⟨rfl, pmmAllocFrame_totalFrames _, rfl, spaces.skip⟩
  · cases failed
    have unused := spaces.next_unused (by omega : nextFrame s ≠ 0)
    refine ⟨rfl, ?_, rfl, ?_⟩
    · rw [pmmFreeFrame_totalFrames, pmmAllocFrame_totalFrames, pmmAllocFrame_totalFrames]
    · rw [aligned]
      exact (spaces.skip.skip.edited_free unused).spaces
  · obtain ⟨temp, window, result⟩ := bind_eq_some_iff.mp failed
    have is_zero := (Prod.mk.inj (Option.some.inj result)).1
    omega

theorem typed_withDirectory {dir pd temp : ℕ} (typed : Typed role userSlots dirs m)
    (pd_unused : role pd = .unused) (temp_unused : role temp = .unused)
    (windows : entryPresent (m dir 1022) = true → role (entryFrame (m dir 1022)) = .table) :
    Typed (update role pd .directory) userSlots (dirs ++ [pd]) (withDirectory m dir pd temp) := by
  have filled : Typed role userSlots dirs (withDirectory m dir pd temp) :=
    (typed.writePage (by simp [temp_unused]) _).writePage (by simp [pd_unused]) _
  refine (filled.assign pd_unused (by simp)).addDirectory (update_self _ _ _) fun i slot there => ?_
  rw [withDirectory_self] at there ⊢
  rcases slot with ⟨-, low⟩ | rfl
  · rw [if_neg (by omega), if_neg (by omega)] at there
    cases there
  · rw [role_update pd_unused (by simp [windows there])]
    exact windows there

theorem createPageDirectory {allocated : Bool} {pd : ℕ} (spaces : Spaces role dirs s)
    (windows : entryPresent (s.mem s.cr3 1022) = true →
      role (entryFrame (s.mem s.cr3 1022)) = .table)
    (created : s.createPageDirectory allocated = some (pd, s')) (nonzero : pd ≠ 0) :
    Created role dirs s pd s' := by
  obtain ⟨rfl, temp_some, rfl⟩ := createPageDirectory_eq_some created nonzero
  have unused := spaces.next_unused nonzero
  have taken := spaces.take nonzero (r := .directory) (by simp)
  have temp_unused : update role (nextFrame s) .directory (tempFrame s) = .unused :=
    taken.next_unused temp_some
  have released := (taken.skip.edited_free temp_unused).spaces
  have not_pd : tempFrame s ≠ nextFrame s := ne_of_role temp_unused (by simp)
  rw [update_of_ne not_pd] at temp_unused
  refine ⟨unused, nextFrame_lt s,
    ⟨typed_withDirectory spaces.typed unused temp_unused windows, released.used, released.total⟩,
    fun f has_role => ?_, withDirectory_self, ?_, rfl⟩
  · exact withDirectory_of_ne (ne_of_role unused has_role).symm
      (ne_of_role temp_unused has_role).symm
  · rw [pmmFreeFrame_totalFrames, pmmAllocFrame_totalFrames, pmmAllocFrame_totalFrames]

end Spaces

end EduOS
