import EduOS.Mm.Vma

/-!
# Page faults of user programs

`handle_page_fault` of `kernel/arch/i386/exception.c` for faults in user mode, and the
accesses of a user program that lead to it: an access is performed if the rights of the
page allow it, and otherwise the handler serves the fault, or the process is killed.

A write to a page that is present is taken for a write to a page under copy-on-write,
whatever the page is.  Frames beyond the first 4 MiB are copied through two windows in
the directory of the process.
-/

namespace EduOS

open Option

/-- `struct process`, as far as memory goes: the frame of the page directory, the areas,
and the file descriptors. -/
structure Process where
  pageDir : ℕ
  vmaList : List Vma
  files : ℕ → Option VfsFile

/-- The kernel's access to the page at `paddr`: by the direct mapping, or through
`window` in directory `pd`. -/
def cowWindow (pd window paddr : ℕ) (s : Vmm) : Option (ℕ × Vmm) :=
  if paddr < 0x400000 then some (paddr / 4096, s)
  else
    let s := s.mapPageInDirectory pd window paddr 0x03
    (walk s.mem s.cr3 window).map fun t => (t.frame, s)

/-- The branch of `handle_page_fault` for a write to a page that is present. -/
def copyOnWrite (pd faultAddr : ℕ) (s : Vmm) : Option (Bool × Vmm) := do
  let vaddr := 4096 * (faultAddr / 4096)
  let oldPaddr ← s.virtToPhysInDirectory pd vaddr
  if oldPaddr = 0 then some (false, s)
  else
    let (newPaddr, pmm) := pmmAllocFrame s.pmm
    let s := { s with pmm := pmm }
    if newPaddr = 0 then some (false, s)
    else do
      let (oldPage, s) ← cowWindow pd 0xFFBFF000 oldPaddr s
      let (newPage, s) ← cowWindow pd 0xFFBFE000 newPaddr s
      let s := { s with mem := s.mem.writePage newPage (s.mem oldPage) }
      some (true, s.mapPageInDirectory pd vaddr newPaddr 0x07)

/-- `handle_page_fault` for an access in user mode: whether the fault was served. -/
def handlePageFault (proc : Process) (faultAddr : ℕ) (present write : Bool) (s : Vmm) :
    Option (Bool × Vmm) :=
  if 0xC0000000 ≤ faultAddr then some (false, s)
  else if present then
    if write then copyOnWrite proc.pageDir faultAddr s else some (false, s)
  else
    match vmaFind proc.vmaList faultAddr with
    | some vma => vmaHandlePageFault proc.files vma faultAddr proc.pageDir s
    | none => some (false, s)

/-! ## Accesses in user mode -/

/-- What a program does with a byte. -/
inductive Access
  | read
  | write (value : BitVec 8)

def Access.isWrite : Access → Bool
  | .read => false
  | .write _ => true

/-- The rights that an access needs. -/
def Access.allowed (access : Access) (t : Mapping) : Bool :=
  t.user && (!access.isWrite || t.writable)

/-- The access is made, it is to be made again, or the process is killed. -/
inductive Outcome
  | performed
  | served
  | killed
  deriving DecidableEq

/-- What a write leaves in memory. -/
def Access.perform (access : Access) (t : Mapping) (addr : ℕ) (m : Memory) : Memory :=
  match access with
  | .read => m
  | .write value => m.writeByte t.frame (addr % 4096) value

def faultOutcome (result : Bool × Vmm) : Outcome × Vmm :=
  (if result.1 then .served else .killed, result.2)

/-- An access to the byte at `addr` by a process, which runs with its directory
loaded. -/
def userAccess (proc : Process) (addr : ℕ) (access : Access) (s : Vmm) : Option (Outcome × Vmm) :=
  let s := { s with cr3 := proc.pageDir }
  match walk s.mem proc.pageDir addr with
  | some t =>
    if access.allowed t then some (.performed, { s with mem := access.perform t addr s.mem })
    else (handlePageFault proc addr true access.isWrite s).map faultOutcome
  | none => (handlePageFault proc addr false access.isWrite s).map faultOutcome

/-- What an access may lead to, from a state with the directory of the process loaded. -/
inductive UserStep (proc : Process) (addr : ℕ) (access : Access) (s : Vmm) : Outcome → Vmm → Prop
  | performed {t : Mapping} (walked : walk s.mem proc.pageDir addr = some t)
      (allowed : access.allowed t = true) :
      UserStep proc addr access s .performed { s with mem := access.perform t addr s.mem }
  | killed : UserStep proc addr access s .killed s
  | copied {t : Mapping} {result : Bool × Vmm} (walked : walk s.mem proc.pageDir addr = some t)
      (denied : access.allowed t = false) (is_write : access.isWrite = true)
      (done : copyOnWrite proc.pageDir addr s = some result) :
      UserStep proc addr access s (faultOutcome result).1 result.2
  | demanded {vma : Vma} {result : Bool × Vmm} (absent : walk s.mem proc.pageDir addr = none)
      (found : vmaFind proc.vmaList addr = some vma)
      (done : vmaHandlePageFault proc.files vma addr proc.pageDir s = some result) :
      UserStep proc addr access s (faultOutcome result).1 result.2

theorem userAccess_step {proc : Process} {addr : ℕ} {access : Access} {s s' : Vmm}
    {outcome : Outcome} (below : addr < 0xC0000000)
    (done : userAccess proc addr access s = some (outcome, s')) :
    UserStep proc addr access { s with cr3 := proc.pageDir } outcome s' := by
  unfold userAccess at done
  dsimp only at done
  cases walked : walk s.mem proc.pageDir addr with
  | some t =>
    rw [walked] at done
    dsimp only at done
    split_ifs at done with allowed
    · cases done
      exact .performed walked allowed
    rw [handlePageFault, if_neg (by omega), if_pos rfl] at done
    split_ifs at done with is_write
    · obtain ⟨result, copied, eq⟩ := map_eq_some_iff.mp done
      cases eq
      exact .copied walked (Bool.eq_false_of_not_eq_true allowed) is_write copied
    · cases done
      exact .killed
  | none =>
    rw [walked] at done
    dsimp only at done
    rw [handlePageFault, if_neg (by omega), if_neg (by simp)] at done
    cases found : vmaFind proc.vmaList addr with
    | none =>
      rw [found] at done
      cases done
      exact .killed
    | some vma =>
      rw [found] at done
      obtain ⟨result, handled, eq⟩ := map_eq_some_iff.mp done
      cases eq
      exact .demanded walked found handled

/-! ## What faults do to memory -/

/-- Copy-on-write that finds frame 0, or no frame. -/
theorem copyOnWrite_of_refused {pd addr : ℕ} {s : Vmm} {t : Mapping} {result : Bool × Vmm}
    (walked : walk s.mem pd addr = some t) (refused : t.frame = 0 ∨ nextFrame s = 0)
    (done : copyOnWrite pd addr s = some result) :
    result.1 = false ∧ (result.2 = s ∨ result.2 = { s with pmm := (pmmAllocFrame s.pmm).2 }) := by
  obtain ⟨old, looked_up, rest⟩ := bind_eq_some_iff.mp done
  have old_eq := Vmm.virtToPhysInDirectory_eq looked_up
  have same_page : walk s.mem pd (4096 * (addr / 4096)) = walk s.mem pd addr := by
    obtain ⟨at_dir, at_table⟩ := (page_eq_iff (4096 * (addr / 4096)) addr).mp (by omega)
    rw [walk, walk, at_dir, at_table]
  rw [same_page, walked, Nat.mul_mod_right] at old_eq
  obtain rfl : old = 4096 * t.frame := old_eq
  split_ifs at rest with no_old
  · cases rest
    exact ⟨rfl, Or.inl rfl⟩
  dsimp only at rest
  have aligned := pmmAllocFrame_eq s
  rw [if_pos (by omega)] at rest
  cases rest
  exact ⟨rfl, Or.inr rfl⟩

section

variable {role : ℕ → Role} {dirs : List ℕ} {s s' : Vmm} {pd : ℕ}

/-- A window onto a page: the direct mapping, or an entry in the directory. -/
def WindowStep (dirs : List ℕ) (pd window frame : ℕ) (role : ℕ → Role) (s : Vmm)
    (role' : ℕ → Role) (s' : Vmm) : Prop :=
  (role' = role ∧ s' = s) ∨
    (s.TableReady pd (dirIndex window) ∧ s' = s.mapPageInDirectory pd window (4096 * frame) 0x03 ∧
      Spaces.Mapped role dirs s pd window (pteCreate (4096 * frame) 0x03) role' s')

theorem Spaces.cowWindow {window frame page : ℕ} (spaces : Spaces role dirs s) (d_dir : pd ∈ dirs)
    (loaded : s.cr3 = pd) (slot : userSlots (dirIndex window)) (small : frame < 2 ^ 20)
    (is_page : role frame = .page) (done : cowWindow pd window (4096 * frame) s = some (page, s')) :
    page = frame ∧ ∃ role', WindowStep dirs pd window frame role s role' s' := by
  unfold EduOS.cowWindow at done
  split_ifs at done with direct
  · cases done
    exact ⟨Nat.mul_div_cancel_left _ (by omega), role, Or.inl ⟨rfl, rfl⟩⟩
  obtain ⟨t, walked, result⟩ := map_eq_some_iff.mp done
  cases result
  rcases s.mapPageInDirectory_cases pd window (4096 * frame) 0x03 with ⟨ready, -⟩ | ⟨not_ready, eq⟩
  · obtain ⟨role', mapped⟩ := spaces.mapPageInDirectory d_dir slot ready
      (pteCreate_names small 0x03 is_page)
    rw [(Spaces.mapPageInDirectory_total s pd window (4096 * frame) 0x03).2, loaded,
      mapped.walk rfl] at walked
    unfold mapping at walked
    split_ifs at walked
    cases walked
    exact ⟨pteCreate_frame small 0x03, role', Or.inr ⟨ready, rfl, mapped⟩⟩
  · have absent : entryPresent (s.mem pd (dirIndex window)) = false := by
      by_contra present
      exact not_ready (Or.inl (Bool.eq_true_of_not_eq_false present))
    rw [eq, loaded, walk_of_absent absent] at walked
    cases walked

theorem WindowStep.edited {window frame : ℕ} {role' : ℕ → Role} (spaces : Spaces role dirs s)
    (slot : userSlots (dirIndex window)) (step : WindowStep dirs pd window frame role s role' s') :
    Spaces.Edited role dirs s role' s' := by
  rcases step with ⟨rfl, rfl⟩ | ⟨-, rfl, mapped⟩
  · exact .refl spaces
  · obtain ⟨total, loaded⟩ := Spaces.mapPageInDirectory_total s pd window (4096 * frame) 0x03
    exact mapped.edited slot total loaded

/-- The machine after copy-on-write of a page at `vaddr` in frame `old`: the next frame
becomes a page, the windows are set up, the page is copied and mapped. -/
structure CowSteps (role : ℕ → Role) (dirs : List ℕ) (s : Vmm) (pd vaddr old : ℕ) (s' : Vmm) :
    Prop where
  some_frame : nextFrame s ≠ 0
  windows : ∃ role₁ s₁ role₂ s₂,
    WindowStep dirs pd 0xFFBFF000 old (Function.update role (nextFrame s) .page)
        { s with pmm := (pmmAllocFrame s.pmm).2 } role₁ s₁ ∧
      WindowStep dirs pd 0xFFBFE000 (nextFrame s) role₁ s₁ role₂ s₂ ∧
      s' = Vmm.mapPageInDirectory pd vaddr (4096 * nextFrame s) 0x07
        { s₂ with mem := s₂.mem.writePage (nextFrame s) (s₂.mem old) }

theorem Spaces.copyOnWrite {addr : ℕ} {served : Bool} (spaces : Spaces role dirs s)
    (d_dir : pd ∈ dirs) (loaded : s.cr3 = pd)
    (is_page : ∀ t, walk s.mem pd (4096 * (addr / 4096)) = some t → role t.frame = .page)
    (done : copyOnWrite pd addr s = some (served, s')) :
    (served = false ∧ (s' = s ∨ s' = { s with pmm := (pmmAllocFrame s.pmm).2 })) ∨
      (served = true ∧ ∃ t, walk s.mem pd (4096 * (addr / 4096)) = some t ∧
        CowSteps role dirs s pd (4096 * (addr / 4096)) t.frame s') := by
  obtain ⟨old, looked_up, rest⟩ := bind_eq_some_iff.mp done
  have old_eq := Vmm.virtToPhysInDirectory_eq looked_up
  rw [Nat.mul_mod_right] at old_eq
  split_ifs at rest with no_old
  · cases rest
    exact Or.inl ⟨rfl, Or.inl rfl⟩
  dsimp only at rest
  split_ifs at rest with no_new
  · cases rest
    exact Or.inl ⟨rfl, Or.inr rfl⟩
  have aligned := pmmAllocFrame_eq s
  have some_frame : nextFrame s ≠ 0 := by omega
  rw [aligned] at rest
  cases walked : walk s.mem pd (4096 * (addr / 4096)) with
  | none =>
    rw [walked] at old_eq
    exact absurd old_eq no_old
  | some t =>
    rw [walked] at old_eq
    obtain rfl : old = 4096 * t.frame := old_eq
    have old_page := is_page t walked
    have taken := spaces.edited_take some_frame
    obtain ⟨⟨oldPage, s₁⟩, first, rest⟩ := bind_eq_some_iff.mp rest
    obtain ⟨rfl, role₁, first⟩ := taken.spaces.cowWindow d_dir loaded (Or.inr (by decide))
      (frame_of_walk walked)
      (by rw [taken.grows _ (by simp [old_page]), old_page]) first
    have windowed := first.edited taken.spaces (Or.inr (by decide))
    obtain ⟨⟨newPage, s₂⟩, second, rest⟩ := bind_eq_some_iff.mp rest
    obtain ⟨rfl, role₂, second⟩ := windowed.spaces.cowWindow d_dir (windowed.loaded.trans loaded)
      (Or.inr (by decide)) (nextFrame_lt s) (by rw [windowed.grows] <;> simp) second
    cases rest
    exact Or.inr ⟨rfl, t, rfl, some_frame, role₁, s₁, role₂, s₂, first, second, rfl⟩

theorem CowSteps.edited {vaddr : ℕ} {t : Mapping} (spaces : Spaces role dirs s) (d_dir : pd ∈ dirs)
    (slot : userSlots (dirIndex vaddr)) (steps : CowSteps role dirs s pd vaddr t.frame s') :
    ∃ role', Spaces.Edited role dirs s role' s' := by
  obtain ⟨some_frame, role₁, s₁, role₂, s₂, first, second, rfl⟩ := steps
  have taken := spaces.edited_take some_frame
  have windowed := first.edited taken.spaces (Or.inr (by decide))
  have windowed := windowed.trans (second.edited windowed.spaces (Or.inr (by decide)))
  have new_page : role₂ (nextFrame s) = .page := by
    rw [windowed.grows _ (by simp), Function.update_self]
  have copied := windowed.spaces.edited_writePage (Or.inl new_page) (s₂.mem t.frame)
  obtain ⟨role', mapped⟩ :=
    copied.spaces.edited_map d_dir slot (pteCreate_names (nextFrame_lt s) 0x07 new_page)
  exact ⟨role', (taken.trans windowed).trans (copied.trans mapped)⟩

end

end EduOS
