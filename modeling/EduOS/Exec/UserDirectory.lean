import EduOS.Arch.PageFault

/-!
# The directory of a user process

`create_user_page_directory` of `kernel/exec/user_process.c`.  The directory of a process
has the kernel half of the loaded directory, and its first entry names the kernel's own
table for the first 4 MiB, for the sake of the VGA memory at `0xB8000`.

The pages there are not open to user mode, but that does not keep a process from changing
the table: the fault handler takes a write to a page that is present for copy-on-write,
and enters a new frame, open to user mode, in the table that the kernel uses.
`kernel_low_kept` says what is needed beyond the rights of the pages.
-/

namespace EduOS

open Option

open Function Memory

/-- `create_user_page_directory`, the entry for the framebuffer at `0xE0000000`. -/
def shareFramebuffer (pd : ℕ) (s : Vmm) : Option Vmm := do
  let kernelFbPage ← Vmm.virtToPhys 0xE0000000 s
  if kernelFbPage = 0 then some s
  else do
    let userPde ← directWindow (4096 * pd)
    let kernelPde ← directWindow (4096 * s.cr3)
    some { s with mem := s.mem.write userPde 896 (s.mem kernelPde 896) }

/-- `create_user_page_directory`, the entry for the VGA memory at `0xB8000`. -/
def shareVgaMemory (pd : ℕ) (s : Vmm) : Option Vmm := do
  let kernelPde ← directWindow (4096 * s.cr3)
  if !pteIsPresent (s.mem kernelPde 0) then some s
  else do
    let userPde ← directWindow (4096 * pd)
    some { s with mem := s.mem.write userPde 0 (s.mem kernelPde 0) }

/-- `create_user_page_directory`; frame 0 is `NULL`. -/
def createUserPageDirectory (allocated : Bool) (s : Vmm) : Option (ℕ × Vmm) := do
  let (pd, s) ← s.createPageDirectory allocated
  if pd = 0 then some (0, s)
  else do
    let s ← shareFramebuffer pd s
    let s ← shareVgaMemory pd s
    some (pd, s)

/-- The machine after an access of a process. -/
def userStep (proc : Process) (s : Vmm) (call : ℕ × Access) : Option Vmm :=
  (userAccess proc call.1 call.2 s).map Prod.snd

/-- The pages below 4 MiB that directory `dir` had in memory `m₀` are in the same frames in
memory `m`, and are closed to user mode if they were. -/
def LowKept (dir : ℕ) (m₀ m : Memory) : Prop :=
  ∀ a < 0x400000, ∀ t, walk m₀ dir a = some t →
    ∃ t', walk m dir a = some t' ∧ t'.frame = t.frame ∧ (t.user = false → t'.user = false)

/-- The kernel's directory is loaded.  It and its tables are kept for the kernel, and no
page below 4 MiB is open to user mode; frames beyond the managed memory are devices, and
may be pages of processes. -/
structure KernelLoaded (role : ℕ → Role) (s : Vmm) : Prop where
  spaces : Spaces role [] s
  self : SelfMapped s.mem s.cr3
  directory : role s.cr3 = .kernel
  tables : ∀ i, i = 0 ∨ (768 ≤ i ∧ i < 1022) → entryPresent (s.mem s.cr3 i) = true →
    role (entryFrame (s.mem s.cr3 i)) = .kernel ∧ entryFrame (s.mem s.cr3 i) ≠ s.cr3
  windows : entryPresent (s.mem s.cr3 1022) = true → role (entryFrame (s.mem s.cr3 1022)) = .table
  outside : ∀ f, s.pmm.totalFrames ≤ f → role f = .page
  noUser : ∀ a < 0x400000, ∀ t, walk s.mem s.cr3 a = some t → t.user = false

/-- What a process may do without harm to the kernel's table: no write below 4 MiB ends up
in copy-on-write, and what an area with private data shows is no memory that is managed. -/
structure KeepsLow (proc : Process) (s : Vmm) (call : ℕ × Access) : Prop where
  below : call.1 < 0xC0000000
  notCopied : call.1 < 0x400000 → call.2.isWrite = true →
    ∀ t, walk s.mem proc.pageDir call.1 = some t → call.2.allowed t = false →
      t.frame = 0 ∨ nextFrame s = 0
  backed : walk s.mem proc.pageDir call.1 = none →
    ∀ vma, vmaFind proc.vmaList call.1 = some vma →
      vma.OwnFrames ∨ vma.BackedOutside (4096 * (call.1 / 4096)) proc.pageDir s

/-! ## The invariant -/

/-- Directory `pd` shares the table for the first 4 MiB with directory `kernel`, which has
the entries that it had in memory `m₀`, and pages of the process besides. -/
structure LowShared (kernel : ℕ) (m₀ : Memory) (pd : ℕ) (role : ℕ → Role) (s : Vmm) : Prop where
  spaces : Spaces role [pd] s
  self : SelfMapped s.mem pd
  kernelRole : role kernel = .kernel
  tableRole : role (entryFrame (m₀ kernel 0)) = .kernel
  apart : entryFrame (m₀ kernel 0) ≠ kernel
  present : entryPresent (m₀ kernel 0) = true
  row : s.mem kernel = m₀ kernel
  shared : s.mem pd 0 = m₀ kernel 0
  named : ∀ i, ¬userSlots i → entryPresent (s.mem pd i) = true →
    role (entryFrame (s.mem pd i)) ≠ .unused
  outside : ∀ f, s.pmm.totalFrames ≤ f → role f = .page
  kept : ∀ j < 1024, entryPresent (m₀ (entryFrame (m₀ kernel 0)) j) = true →
    s.mem (entryFrame (m₀ kernel 0)) j = m₀ (entryFrame (m₀ kernel 0)) j
  added : ∀ j < 1024, entryPresent (m₀ (entryFrame (m₀ kernel 0)) j) = false →
    entryPresent (s.mem (entryFrame (m₀ kernel 0)) j) = true →
      role (entryFrame (s.mem (entryFrame (m₀ kernel 0)) j)) = .page

theorem userSlots_of_lt {a : ℕ} (below : a < 0xC0000000) (high : dirIndex a ≠ 0) :
    userSlots (dirIndex a) := by
  refine Or.inl ?_
  unfold dirIndex at high ⊢
  omega

namespace LowShared

variable {kernel pd : ℕ} {m₀ : Memory} {role role' : ℕ → Role} {s s' : Vmm}

section

variable (shared : LowShared kernel m₀ pd role s)
include shared

theorem lowKept : LowKept kernel m₀ s.mem := by
  intro a low t walked
  have at_dir : dirIndex a = 0 := by
    unfold dirIndex
    omega
  have same : walk s.mem kernel a = walk m₀ kernel a := by
    obtain ⟨-, pte, -⟩ := walk_eq_some walked
    rw [at_dir] at pte
    refine walk_congr (by rw [shared.row]) fun _ => ?_
    rw [at_dir]
    exact shared.kept _ (tableIndex_lt a) pte
  exact ⟨t, by rw [same, walked], rfl, id⟩

/-- Another directory is loaded. -/
theorem load (cr3 : ℕ) : LowShared kernel m₀ pd role { s with cr3 := cr3 } :=
  { shared with spaces := { shared.spaces with } }

/-- Edits for user mode do not reach the table. -/
theorem edited (edit : Spaces.Edited role [pd] s role' s') : LowShared kernel m₀ pd role' s' := by
  have is_dir := shared.spaces.typed.directory pd (by simp)
  have table_row := edit.kernel _ shared.tableRole
  have entry : ∀ i, ¬userSlots i → s'.mem pd i = s.mem pd i := edit.entries pd is_dir
  have not_zero : ¬userSlots 0 := by simp [userSlots]
  have not_last : ¬userSlots 1023 := by simp [userSlots]
  refine ⟨edit.spaces, shared.self.of_last (entry 1023 not_last), ?_, ?_, shared.apart,
    shared.present, ?_, ?_, fun i not_slot there => ?_, fun f beyond => ?_, fun j j_lt there => ?_,
    fun j j_lt absent there => ?_⟩
  · rw [edit.grows _ (by simp [shared.kernelRole]), shared.kernelRole]
  · rw [edit.grows _ (by simp [shared.tableRole]), shared.tableRole]
  · rw [edit.kernel _ shared.kernelRole, shared.row]
  · rw [entry 0 not_zero, shared.shared]
  · rw [entry i not_slot] at there ⊢
    have named := shared.named i not_slot there
    rwa [edit.grows _ named]
  · rw [edit.total] at beyond
    have page := shared.outside f beyond
    rw [edit.grows _ (by simp [page]), page]
  · rw [table_row, shared.kept j j_lt there]
  · rw [table_row] at there ⊢
    have page := shared.added j j_lt absent there
    rw [edit.grows _ (by simp [page]), page]

theorem not_mapped {virt : ℕ} (low : dirIndex virt = 0) (absent : walk s.mem pd virt = none) :
    entryPresent (m₀ (entryFrame (m₀ kernel 0)) (tableIndex virt)) = false := by
  by_contra there
  rw [walk, low, shared.shared, shared.kept _ (tableIndex_lt virt) (by simpa using there),
    mapping, shared.present] at absent
  simp [there] at absent

/-- A page of the process is entered in the table, where the kernel has none. -/
theorem addPage {virt : ℕ} {word : BitVec 32} (low : dirIndex virt = 0)
    (unmapped : entryPresent (m₀ (entryFrame (m₀ kernel 0)) (tableIndex virt)) = false)
    (page : role (entryFrame word) = .page) :
    LowShared kernel m₀ pd role (s.setEntryIn pd virt word) := by
  have is_dir := shared.spaces.typed.directory pd (by simp)
  have mem_eq : (s.setEntryIn pd virt word).mem =
      s.mem.write (entryFrame (m₀ kernel 0)) (tableIndex virt) word := by
    rw [Vmm.setEntryIn, low, shared.shared]
  have other : ∀ f, role f ≠ .kernel → (s.setEntryIn pd virt word).mem f = s.mem f := by
    intro f not_kernel
    rw [mem_eq, write_of_frame_ne (ne_of_role shared.tableRole not_kernel).symm]
  have pd_row := other pd (by simp [is_dir])
  refine ⟨shared.spaces.setMem (shared.spaces.typed.frame fun f structural => other f ?_),
    shared.self.of_last (congrFun pd_row _), shared.kernelRole, shared.tableRole, shared.apart,
    shared.present, ?_, ?_, fun i not_slot there => ?_, shared.outside, fun j j_lt there => ?_,
    fun j j_lt not_there there => ?_⟩
  · rcases structural with h | h <;> simp [h]
  · rw [mem_eq, write_of_frame_ne shared.apart.symm, shared.row]
  · rw [pd_row, shared.shared]
  · rw [pd_row] at there ⊢
    exact shared.named i not_slot there
  · have not_here : j ≠ tableIndex virt := by
      rintro rfl
      rw [unmapped] at there
      cases there
    rw [mem_eq, write_of_index_ne not_here, shared.kept j j_lt there]
  · rw [mem_eq] at there ⊢
    rcases eq_or_ne j (tableIndex virt) with rfl | not_here
    · rw [write_self]
      exact page
    · rw [write_of_index_ne not_here] at there ⊢
      exact shared.added j j_lt not_there there

/-- A page of the process, wherever it is. -/
theorem role_of_allowed {a : ℕ} {t : Mapping} {access : Access}
    (noUser : ∀ a < 0x400000, ∀ t, walk m₀ kernel a = some t → t.user = false)
    (below : a < 0xC0000000) (walked : walk s.mem pd a = some t)
    (allowed : access.allowed t = true) : role t.frame = .page := by
  by_cases low : dirIndex a = 0
  · have through : walk s.mem pd a =
        mapping (m₀ kernel 0) (s.mem (entryFrame (m₀ kernel 0)) (tableIndex a)) := by
      rw [walk, low, shared.shared]
    cases there : entryPresent (m₀ (entryFrame (m₀ kernel 0)) (tableIndex a)) with
    | true =>
      have same : walk m₀ kernel a = some t := by
        rw [walk, low, ← shared.kept _ (tableIndex_lt a) there, ← through, walked]
      have closed := noUser a (by unfold dirIndex at low; omega) t same
      simp [Access.allowed, closed] at allowed
    | false =>
      obtain ⟨-, pte, rfl⟩ := walk_eq_some walked
      rw [low, shared.shared] at pte
      rw [low, shared.shared]
      exact shared.added _ (tableIndex_lt a) there pte
  · exact shared.spaces.typed.role_of_walk (by simp) (userSlots_of_lt below low) walked

end

/-- **One access** that is harmless keeps the table. -/
theorem step {proc : Process} {call : ℕ × Access}
    (noUser : ∀ a < 0x400000, ∀ t, walk m₀ kernel a = some t → t.user = false)
    (shared : ∃ role, LowShared kernel m₀ proc.pageDir role s) (keeps : KeepsLow proc s call)
    (stepped : userStep proc s call = some s') :
    ∃ role, LowShared kernel m₀ proc.pageDir role s' := by
  obtain ⟨role, shared⟩ := shared
  obtain ⟨⟨outcome, s''⟩, done, rfl⟩ := map_eq_some_iff.mp stepped
  have shared := shared.load proc.pageDir
  cases userAccess_step keeps.below done with
  | performed walked allowed =>
    have page := shared.role_of_allowed noUser keeps.below walked allowed
    refine ⟨role, shared.edited ?_⟩
    cases call.2 with
    | read => exact .refl shared.spaces
    | write value =>
      exact shared.spaces.edited_mem (Or.inl page) fun g other => write_of_frame_ne other
  | killed => exact ⟨role, shared⟩
  | copied walked denied is_write copied =>
    by_cases low : dirIndex call.1 = 0
    · have refused := keeps.notCopied (by unfold dirIndex at low; omega) is_write _ walked denied
      rcases (copyOnWrite_of_refused walked refused copied).2 with same | skipped
      · rw [same]
        exact ⟨role, shared⟩
      · rw [skipped]
        exact ⟨role, shared.edited shared.spaces.edited_skip⟩
    · have slot := userSlots_of_lt keeps.below low
      have is_page : ∀ t, walk s.mem proc.pageDir (4096 * (call.1 / 4096)) = some t →
          role t.frame = .page := fun t walked =>
        shared.spaces.typed.role_of_walk (by simp) (by rwa [dirIndex_page]) walked
      rcases shared.spaces.copyOnWrite (by simp) rfl is_page copied with
        ⟨-, same | skipped⟩ | ⟨-, t, -, steps⟩
      · rw [same]
        exact ⟨role, shared⟩
      · rw [skipped]
        exact ⟨role, shared.edited shared.spaces.edited_skip⟩
      · obtain ⟨role', edit⟩ := steps.edited shared.spaces (by simp) (by rwa [dirIndex_page])
        exact ⟨role', shared.edited edit⟩
  | demanded absent found handled =>
    have named : ∀ i < 1024, entryPresent (s.mem proc.pageDir i) = true →
        role (entryFrame (s.mem proc.pageDir i)) ≠ .unused := by
      intro i _ there
      by_cases slot : userSlots i
      · simp [shared.spaces.typed.table proc.pageDir (by simp) i slot there]
      · exact shared.named i slot there
    rcases shared.spaces.edited_vmaFault (List.mem_singleton_self proc.pageDir) rfl shared.self
      named shared.outside
        (keeps.backed absent _ found) handled with
      edit | ⟨role₁, s₁, phys, flags, edit, page, mapped⟩
    · exact ⟨role, shared.edited edit⟩
    rw [mapped]
    have shared₁ := shared.edited edit
    by_cases low : dirIndex call.1 = 0
    · obtain ⟨at_dir, at_table⟩ := (page_eq_iff (4096 * (call.1 / 4096)) call.1).mp (by omega)
      rw [low] at at_dir
      have there :
          pteIsPresent (s₁.mem proc.pageDir (dirIndex (4096 * (call.1 / 4096)))) = true := by
        rw [pteIsPresent_eq, at_dir, shared₁.shared, shared.present]
      refine ⟨role₁, ?_⟩
      rw [Vmm.mapPageInDirectory, if_pos there]
      exact shared₁.addPage at_dir (at_table ▸ shared.not_mapped low absent) page
    · have slot := userSlots_of_lt keeps.below low
      obtain ⟨role', edit'⟩ := shared₁.spaces.edited_map (List.mem_singleton_self proc.pageDir)
        (by rwa [dirIndex_page]) fun _ => page
      exact ⟨role', shared₁.edited edit'⟩

end LowShared

/-! ## Creation -/

section

variable {role : ℕ → Role} {s₀ s : Vmm} {allocated : Bool} {pd : ℕ}

/-- The entry for the framebuffer is that of the kernel's directory anyway. -/
theorem shareFramebuffer_eq {s' : Vmm} (same : s.mem pd 896 = s.mem s.cr3 896)
    (shared : shareFramebuffer pd s = some s') : s' = s := by
  obtain ⟨fbPage, -, rest⟩ := bind_eq_some_iff.mp shared
  split_ifs at rest
  · exact (Option.some.inj rest).symm
  obtain ⟨userPde, user_window, rest⟩ := bind_eq_some_iff.mp rest
  obtain ⟨kernelPde, kernel_window, rest⟩ := bind_eq_some_iff.mp rest
  rw [directWindow_frame user_window, directWindow_frame kernel_window, write_eq_self same] at rest
  exact (Option.some.inj rest).symm

theorem shareVgaMemory_eq {s' : Vmm} (low : entryPresent (s.mem s.cr3 0) = true)
    (shared : shareVgaMemory pd s = some s') :
    s' = { s with mem := s.mem.write pd 0 (s.mem s.cr3 0) } := by
  obtain ⟨kernelPde, kernel_window, rest⟩ := bind_eq_some_iff.mp shared
  rw [directWindow_frame kernel_window, if_neg (by simp [low])] at rest
  obtain ⟨userPde, user_window, rest⟩ := bind_eq_some_iff.mp rest
  rw [directWindow_frame user_window] at rest
  exact (Option.some.inj rest).symm

section

variable (kernel : KernelLoaded role s₀) (low : entryPresent (s₀.mem s₀.cr3 0) = true)
    (created : createUserPageDirectory allocated s₀ = some (pd, s)) (nonzero : pd ≠ 0)
include kernel low created nonzero

/-- The new directory is that of `vmm_create_page_directory`, with the first entry of the
kernel's. -/
theorem createUserPageDirectory_eq_some :
    ∃ s₁, Spaces.Created role [] s₀ pd s₁ ∧
      s = { s₁ with mem := s₁.mem.write pd 0 (s₀.mem s₀.cr3 0) } := by
  obtain ⟨⟨pd', s₁⟩, new, rest⟩ := bind_eq_some_iff.mp created
  dsimp only at rest
  split_ifs at rest with no_pd
  · cases rest
    exact absurd rfl nonzero
  have done := kernel.spaces.createPageDirectory kernel.windows new no_pd
  have row : s₁.mem s₁.cr3 = s₀.mem s₀.cr3 := by
    rw [done.loaded, done.frames _ (by simp [kernel.directory])]
  obtain ⟨s₂, framebuffer, rest⟩ := bind_eq_some_iff.mp rest
  obtain ⟨s₃, vga, rest⟩ := bind_eq_some_iff.mp rest
  cases rest
  obtain rfl := shareFramebuffer_eq (by rw [done.entries, row]; rfl) framebuffer
  obtain rfl := shareVgaMemory_eq (by rw [row]; exact low) vga
  exact ⟨_, done, by rw [row]⟩

theorem KernelLoaded.lowShared : LowShared s₀.cr3 s₀.mem pd (update role pd .directory) s := by
  obtain ⟨s₁, done, s_eq⟩ := createUserPageDirectory_eq_some kernel low created nonzero
  have mem_eq : s.mem = s₁.mem.write pd 0 (s₀.mem s₀.cr3 0) := by rw [s_eq]
  obtain ⟨tableRole, apart⟩ := kernel.tables 0 (Or.inl rfl) low
  have roles : ∀ f, role f ≠ .unused → update role pd .directory f = role f :=
    fun f has_role => role_update done.unused has_role _
  have rows : ∀ f, role f ≠ .unused → s.mem f = s₀.mem f := by
    intro f has_role
    rw [mem_eq, write_of_frame_ne (ne_of_role done.unused has_role).symm, done.frames f has_role]
  have first : s.mem pd 0 = s₀.mem s₀.cr3 0 := by rw [mem_eq, write_self]
  have entry : ∀ i, i ≠ 0 → s.mem pd i =
      if i = 1023 then pdeCreate (4096 * pd) (pagePresent ||| pageWrite)
      else if 768 ≤ i ∧ i < 1023 then s₀.mem s₀.cr3 i else 0 := by
    intro i positive
    rw [mem_eq, write_of_index_ne positive, done.entries]
  have spaces : Spaces (update role pd .directory) [pd] s := by
    rw [s_eq]
    exact done.spaces.setMem
      (done.spaces.typed.setPde (by simp) fun slot => by simp [userSlots] at slot)
  have self := kernelEntry done.small
  refine ⟨spaces, ⟨?_, ?_⟩, ?_, ?_, apart, low, ?_, first, fun i not_slot there => ?_,
    fun f beyond => ?_, fun j j_lt there => ?_, fun j j_lt absent there => ?_⟩
  · rw [entry 1023 (by omega), if_pos rfl]
    exact self.1
  · rw [entry 1023 (by omega), if_pos rfl]
    exact self.2
  · rw [roles _ (by simp [kernel.directory]), kernel.directory]
  · rw [roles _ (by simp [tableRole]), tableRole]
  · exact rows _ (by simp [kernel.directory])
  · rcases Nat.eq_zero_or_pos i with rfl | positive
    · rw [first, roles _ (by simp [tableRole]), tableRole]
      simp
    rw [entry i (by omega)] at there ⊢
    split_ifs at there ⊢ with last high
    · rw [pdeCreate, self.2, update_self]
      simp
    · have not_window : i ≠ 1022 := fun window => not_slot (Or.inr window)
      obtain ⟨is_kernel, -⟩ := kernel.tables i (Or.inr ⟨high.1, by omega⟩) there
      rw [roles _ (by simp [is_kernel]), is_kernel]
      simp
    · cases there
  · rw [s_eq] at beyond
    have page := kernel.outside f (by rwa [← done.total])
    rw [roles _ (by simp [page]), page]
  · exact congrFun (rows _ (by simp [tableRole])) j
  · rw [rows _ (by simp [tableRole]), absent] at there
    cases there

end

end

/-- **The kernel's mappings below 4 MiB are kept**, as long as no access of the process ends
up in copy-on-write there, or shows managed memory through private data. -/
theorem kernel_low_kept {role : ℕ → Role} {s₀ s : Vmm} {allocated : Bool} (proc : Process)
    (kernel : KernelLoaded role s₀)
    (created : createUserPageDirectory allocated s₀ = some (proc.pageDir, s))
    (nonzero : proc.pageDir ≠ 0) (calls : List (ℕ × Access))
    (allowed : Allowed (userStep proc) (KeepsLow proc) s calls) (s' : Vmm)
    (ran : exec (userStep proc) s calls = some s') : LowKept s₀.cr3 s₀.mem s'.mem := by
  cases low : entryPresent (s₀.mem s₀.cr3 0) with
  | false =>
    intro a a_low t walked
    obtain ⟨present, -⟩ := walk_eq_some walked
    rw [show dirIndex a = 0 by unfold dirIndex; omega, low] at present
    cases present
  | true =>
    obtain ⟨role', shared⟩ := exec_keeps
      (fun s => ∃ role, LowShared s₀.cr3 s₀.mem proc.pageDir role s)
      (fun _ _ _ shared keeps stepped => LowShared.step kernel.noUser shared keeps stepped)
      calls s s' ⟨_, kernel.lowShared low created nonzero⟩ allowed ran
    exact shared.lowKept

/-- The roles of frames after `vmm_init`, for a machine with 128 MiB. -/
def bootRole (f : ℕ) : Role :=
  if f = 9 ∨ f = 0xA then .kernel else if 0x8000 ≤ f then .page else .unused

theorem kernelLoaded_boot : KernelLoaded bootRole bootDirectories.vmm := by
  have total : bootDirectories.vmm.pmm.totalFrames = 0x8000 := by decide
  have row : ∀ i, i = 0 ∨ (768 ≤ i ∧ i < 1022) → entryPresent (bootMemory 9 i) = true →
      bootMemory 9 i = 0xA003 := by
    intro i kernel there
    unfold bootMemory at there ⊢
    rw [if_pos rfl] at there ⊢
    split_ifs at there ⊢ with first last
    · rfl
    · omega
    · cases there
  refine ⟨⟨⟨by simp, by simp, fun t is_table => ?_⟩, fun f has_role => ?_, by rw [total]; omega⟩,
    ⟨by decide, by decide⟩, by decide, fun i kernel there => ?_, by decide, fun f beyond => ?_,
    fun a low t walked => ?_⟩
  · unfold bootRole at is_table
    split_ifs at is_table
  · unfold bootRole at has_role
    split_ifs at has_role with kernel outside
    · rcases kernel with rfl | rfl
      · exact Or.inl (by decide)
      · exact Or.inl (by decide)
    · exact Or.inr (by rw [total]; exact outside)
    · exact absurd rfl has_role
  · show bootRole (entryFrame (bootMemory 9 i)) = .kernel ∧ entryFrame (bootMemory 9 i) ≠ 9
    rw [show bootMemory 9 i = 0xA003 from row i kernel there]
    decide
  · rw [total] at beyond
    rw [bootRole, if_neg (by omega), if_pos beyond]
  · obtain ⟨-, -, rfl⟩ := walk_eq_some walked
    rw [show dirIndex a = 0 by unfold dirIndex; omega]
    rfl

/-- A process that has 1 MiB of anonymous memory at 4 MiB. -/
def anonymousProcess : Process where
  pageDir := 288
  vmaList := [vmaCreate 0x400000 0x500000 (vmaRead ||| vmaWrite ||| vmaAnonymous)]
  files := fun _ => none

theorem kernel_low_kept_written :
    ∃ s s', createUserPageDirectory true bootDirectories.vmm = some (288, s) ∧
      exec (userStep anonymousProcess) s
        [(0x400123, .write 7), (0x400123, .write 7), (0xB8000, .read)] = some s' ∧
      LowKept 9 bootMemory s'.mem := by
  have ran : ((createUserPageDirectory true bootDirectories.vmm).bind fun result =>
      (exec (userStep anonymousProcess) result.2
        [(0x400123, .write 7), (0x400123, .write 7), (0xB8000, .read)]).map fun _ => result.1) =
      some 288 := by
    decide +kernel
  obtain ⟨⟨pd, s⟩, created, rest⟩ := bind_eq_some_iff.mp ran
  obtain ⟨s', ran, pd_eq⟩ := map_eq_some_iff.mp rest
  obtain rfl : pd = 288 := pd_eq
  have keeps : ∀ s call, call.1 < 0xC0000000 → (call.1 < 0x400000 → call.2.isWrite = false) →
      KeepsLow anonymousProcess s call := by
    refine fun s call below reads => ⟨below, fun low is_write => ?_, fun _ vma found => ?_⟩
    · exact absurd (is_write.symm.trans (reads low)) nofun
    · rw [List.mem_singleton.mp (List.mem_of_find?_eq_some found)]
      exact Or.inl (Or.inr rfl)
  have allowed : Allowed (userStep anonymousProcess) (KeepsLow anonymousProcess) s
      [(0x400123, .write 7), (0x400123, .write 7), (0xB8000, .read)] :=
    ⟨keeps _ _ (by decide) (by decide), fun _ _ => ⟨keeps _ _ (by decide) (by decide),
      fun _ _ => ⟨keeps _ _ (by decide) (by decide), fun _ _ => trivial⟩⟩⟩
  exact ⟨s, s', created, ran, kernel_low_kept anonymousProcess kernelLoaded_boot created (by decide)
    _ allowed s' ran⟩

theorem kernel_low_not_kept :
    KernelLoaded bootRole bootDirectories.vmm ∧
      ∃ s s', createUserPageDirectory true bootDirectories.vmm = some (288, s) ∧
        exec (userStep anonymousProcess) s [(0xB8000, .write 0x41)] = some s' ∧
        ¬LowKept 9 bootMemory s'.mem := by
  have ran : ((createUserPageDirectory true bootDirectories.vmm).bind fun result =>
      (exec (userStep anonymousProcess) result.2 [(0xB8000, .write 0x41)]).map fun s' =>
        (result.1, (walk s'.mem 9 0xB8000).map Mapping.frame)) =
      some (288, some 289) := by
    decide +kernel
  obtain ⟨⟨pd, s⟩, created, rest⟩ := bind_eq_some_iff.mp ran
  obtain ⟨s', ran, seen⟩ := map_eq_some_iff.mp rest
  obtain ⟨rfl, moved⟩ := Prod.mk.inj seen
  refine ⟨kernelLoaded_boot, s, s', created, ran, fun kept => ?_⟩
  obtain ⟨t, walked, same, -⟩ := kept 0xB8000 (by decide) ⟨0xB8, true, false⟩ (by decide)
  rw [walked] at moved
  have frame : t.frame = 289 := Option.some.inj moved
  rw [frame] at same
  cases same

end EduOS
