import EduOS.Arch.PageFault

/-!
# The memory of forked processes

`copy_page_directory` and `copy_process_memory` of `kernel/process/fork.c`, and what parent and
child read and write afterwards.

The directory entries of the parent for user addresses go to the child, so both directories
name the same page tables, and lose their write bit on both sides.  Nothing ever sets that bit
again: copy-on-write replaces the page in the shared table, with the write bit in its entry,
while a write needs the bit in the directory as well.  So a write to a page that was there at
the fork faults again and again, each time with a new copy of the page, until the frames are
used up and the process is killed.  No write is performed, and every read gives the byte that
was there at the fork (`fork_isolated`).

The source copies the list of areas twice; the first copy is dropped and left out here.  The
second one makes file mappings private and forgets the private data (`fork_copies_iff`).
-/

namespace EduOS

open Memory Option

open Function List

/-! ## The call -/

/-- `entry & ~0x2` -/
def pdeReadOnly (pde : BitVec 32) : BitVec 32 := pde &&& ~~~pageWrite

/-- One pass of the loop over the directory of the parent. -/
def shareEntry (parentPd newPd : ℕ) (m : Memory) (i : ℕ) : Memory :=
  if pteIsPresent (m parentPd i) then
    let m := m.write newPd i (pdeReadOnly (m parentPd i))
    m.write parentPd i (pdeReadOnly (m parentPd i))
  else m

/-- The loop over the first `n` entries. -/
def shareEntries (parentPd newPd n : ℕ) (m : Memory) : Memory :=
  (List.range n).foldl (shareEntry parentPd newPd) m

/-- `copy_page_directory`; frame 0 is `NULL`. -/
def copyPageDirectory (allocated : Bool) (parent : Process) (s : Vmm) : Option (ℕ × Vmm) :=
  (s.createPageDirectory allocated).bind fun (childPd, s) =>
    if childPd = 0 then some (0, s)
    else do
      let parentDir := if parent.pageDir = 0 then s.cr3 else parent.pageDir
      let parentPd ← directWindow (4096 * parentDir)
      let newPd ← directWindow (4096 * childPd)
      some (childPd, { s with mem := shareEntries parentPd newPd 768 s.mem })

/-- The copy of an area. -/
def copyVma (vma : Vma) : Vma :=
  let copy := { vmaCreate vma.start vma.stop vma.flags with
    fileOffset := vma.fileOffset
    fd := vma.fd }
  if hasFlag vma.flags vmaFile then { copy with flags := copy.flags ||| vmaPrivate } else copy

/-- What `kmalloc` returns memory for: the control block, the stack, the directory, and the area
with each index. -/
structure ForkMemory where
  control : Bool
  stack : Bool
  directory : Bool
  vma : ℕ → Bool

/-- The loop over the areas of the parent. -/
def copyVmaList (memory : ForkMemory) (list : List Vma) : List Vma :=
  list.zipIdx.foldl (fun copies (vma, k) =>
    if memory.vma k then vmaAdd copies (copyVma vma) else copies) []

/-- `copy_process_memory`: the child, or `none` for `-ENOMEM`. -/
def copyProcessMemory (memory : ForkMemory) (parent : Process) (s : Vmm) :
    Option (Option Process × Vmm) :=
  (copyPageDirectory memory.directory parent s).map fun (childPd, s) =>
    if childPd = 0 then (none, s)
    else (some { parent with pageDir := childPd, vmaList := copyVmaList memory parent.vmaList }, s)

/-- `do_fork`, as far as memory goes. -/
def doForkMemory (memory : ForkMemory) (parent : Process) (s : Vmm) :
    Option (Option Process × Vmm) :=
  if !memory.control then some (none, s)
  else if !memory.stack then some (none, s)
  else copyProcessMemory memory parent s

/-! ## The areas of the child -/

theorem copyVmaList_eq (memory : ForkMemory) (list : List Vma) :
    copyVmaList memory list =
      ((list.zipIdx.filter fun vma => memory.vma vma.2).map fun vma => copyVma vma.1).reverse := by
  suffices folded : ∀ (indexed : List (Vma × ℕ)) copies,
      indexed.foldl (fun copies (vma, k) =>
          if memory.vma k then vmaAdd copies (copyVma vma) else copies) copies =
        ((indexed.filter fun vma => memory.vma vma.2).map fun vma => copyVma vma.1).reverse ++
          copies by
    rw [copyVmaList, folded, append_nil]
  intro indexed
  induction indexed with
  | nil => exact fun _ => rfl
  | cons first rest ih =>
    intro copies
    rw [foldl_cons, ih]
    cases room : memory.vma first.2 <;> simp [room, vmaAdd]

/-- A fork that succeeds has copied the directory and the list of areas. -/
theorem doForkMemory_copied {memory : ForkMemory} {parent child : Process} {s s' : Vmm}
    (forked : doForkMemory memory parent s = some (some child, s')) :
    copyPageDirectory memory.directory parent s = some (child.pageDir, s') ∧ child.pageDir ≠ 0 ∧
      child.vmaList = copyVmaList memory parent.vmaList := by
  unfold doForkMemory at forked
  split_ifs at forked
  · cases forked
  · cases forked
  · obtain ⟨⟨pd, s₂⟩, copied, result⟩ := map_eq_some_iff.mp forked
    dsimp only at result
    split_ifs at result with failed
    · cases result
    · cases result
      exact ⟨copied, failed, rfl⟩

/-- The area starts and ends at pages, a file mapping is private, and there is no private data. -/
def Vma.Copied (vma : Vma) : Prop :=
  vma.start % 4096 = 0 ∧ vma.stop % 4096 = 0 ∧
    (hasFlag vma.flags vmaFile = true → vma.flags ||| vmaPrivate = vma.flags) ∧ vma.privateData = 0

theorem copyVma_copied (vma : Vma) : (copyVma vma).Copied := by
  unfold copyVma Vma.Copied
  split_ifs with file
  · exact ⟨Nat.mul_mod_right .., Nat.mul_mod_right .., fun _ => by simp [BitVec.or_assoc], rfl⟩
  · exact ⟨Nat.mul_mod_right .., Nat.mul_mod_right .., fun file' => absurd file' file, rfl⟩

theorem Vma.Copied.copyVma_eq {vma : Vma} (copied : vma.Copied) (word : vma.stop < 2 ^ 32) :
    copyVma vma = vma := by
  obtain ⟨start, stop, flags, offset, fd, data⟩ := vma
  obtain ⟨first_page, last_page, is_private, no_data⟩ := copied
  dsimp only at first_page last_page is_private no_data word
  have first : 4096 * (start / 4096) = start := by omega
  have last : 4096 * (u32 (stop + 0xFFF) / 4096) = stop := by
    unfold u32
    omega
  unfold copyVma
  split_ifs with file
  · simp [vmaCreate, first, last, no_data, is_private file]
  · simp [vmaCreate, first, last, no_data]

/-- **The memory map of the child.**  When no allocation fails, the child has the areas of the
parent, each of them once, if and only if they are of the kind that is copied as it is. -/
theorem fork_copies_iff (memory : ForkMemory) (parent child : Process) (s s' : Vmm)
    (room : ∀ k, memory.vma k = true) (words : ∀ vma ∈ parent.vmaList, vma.stop < 2 ^ 32)
    (forked : doForkMemory memory parent s = some (some child, s')) :
    child.vmaList.Perm parent.vmaList ↔ ∀ vma ∈ parent.vmaList, vma.Copied := by
  have copies : child.vmaList = (parent.vmaList.map copyVma).reverse := by
    rw [(doForkMemory_copied forked).2.2, copyVmaList_eq,
      filter_eq_self.mpr fun vma _ => room vma.2]
    show (parent.vmaList.zipIdx.map (copyVma ∘ Prod.fst)).reverse = _
    rw [← List.map_map, zipIdx_map_fst]
  rw [copies]
  constructor
  · intro same vma member
    obtain ⟨other, -, rfl⟩ :=
      mem_map.mp (mem_reverse.mp (same.mem_iff.mpr member))
    exact copyVma_copied other
  · intro copied
    have same : parent.vmaList.map copyVma = parent.vmaList.map id :=
      map_congr_left fun vma member => (copied vma member).copyVma_eq (words vma member)
    rw [same, List.map_id]
    exact reverse_perm _

/-! ## Accesses of parent and child -/

/-- What a program reads at `addr`, if it may. -/
def userByte (pd addr : ℕ) (m : Memory) : Option (BitVec 8) :=
  (walk m pd addr).bind fun t => if t.user then some (m.byte t.frame (addr % 4096)) else none

/-- An access by one of the two processes. -/
structure ForkEvent where
  byChild : Bool
  addr : ℕ
  access : Access

/-- The machine, and what each of the two has written last at each address. -/
structure ForkState where
  vmm : Vmm
  written : Bool → ℕ → Option (BitVec 8)

/-- The process of an access. -/
def forkProcess (parent child : Process) (byChild : Bool) : Process :=
  if byChild then child else parent

/-- The writes after an access: one that was performed counts. -/
def recordWrite (event : ForkEvent) (outcome : Outcome) (written : Bool → ℕ → Option (BitVec 8)) :
    Bool → ℕ → Option (BitVec 8) :=
  match event.access, outcome with
  | .write value, .performed =>
    update written event.byChild (update (written event.byChild) event.addr (some value))
  | _, _ => written

/-- One access, which is recorded if it is a write that is performed. -/
def forkStep (parent child : Process) (s : ForkState) (event : ForkEvent) : Option ForkState :=
  (userAccess (forkProcess parent child event.byChild) event.addr event.access s.vmm).map
    fun (outcome, vmm) => ⟨vmm, recordWrite event outcome s.written⟩

/-! ## Entries without the write bit -/

variable {i d addr : ℕ} {m' m : Memory} {role' : ℕ → Role}

section

variable (pde : BitVec 32)

theorem getLsbD_pdeReadOnly (small : i < 32) :
    (pdeReadOnly pde).getLsbD i = (pde.getLsbD i && decide (i ≠ 1)) := by
  have bits : ∀ i : Fin 32, (~~~pageWrite).getLsbD i = decide (i.val ≠ 1) := by decide
  rw [pdeReadOnly, BitVec.getLsbD_and, bits ⟨i, small⟩]

theorem entryPresent_pdeReadOnly : entryPresent (pdeReadOnly pde) = entryPresent pde := by
  rw [entryPresent, getLsbD_pdeReadOnly pde (by decide)]
  simp [entryPresent]

theorem entryUser_pdeReadOnly : entryUser (pdeReadOnly pde) = entryUser pde := by
  rw [entryUser, getLsbD_pdeReadOnly pde (by decide)]
  simp [entryUser]

theorem entryWritable_pdeReadOnly : entryWritable (pdeReadOnly pde) = false := by
  rw [entryWritable, getLsbD_pdeReadOnly pde (by decide)]
  simp

theorem entryFrame_pdeReadOnly : entryFrame (pdeReadOnly pde) = entryFrame pde := by
  have shifted : pdeReadOnly pde >>> 12 = pde >>> 12 := by
    refine BitVec.eq_of_getLsbD_eq fun i _ => ?_
    rw [BitVec.getLsbD_ushiftRight, BitVec.getLsbD_ushiftRight]
    by_cases small : 12 + i < 32
    · have other : 12 + i ≠ 1 := by omega
      rw [getLsbD_pdeReadOnly pde small]
      simp [other]
    · rw [BitVec.getLsbD_of_ge _ _ (by omega), BitVec.getLsbD_of_ge _ _ (by omega)]
  have values := congrArg BitVec.toNat shifted
  simpa [entryFrame, Nat.shiftRight_eq_div_pow] using values

end

/-- **The loop of the fork**: both directories have the entries of the parent, without the write
bit. -/
theorem shareEntries_apply {parentPd newPd : ℕ} (ne : parentPd ≠ newPd) (m : Memory) (n f i : ℕ) :
    shareEntries parentPd newPd n m f i =
      if (f = parentPd ∨ f = newPd) ∧ i < n ∧ entryPresent (m parentPd i) = true then
        pdeReadOnly (m parentPd i)
      else m f i := by
  induction n generalizing f i with
  | zero => simp [shareEntries]
  | succ n ih =>
    have unfolded : shareEntries parentPd newPd (n + 1) m =
        shareEntry parentPd newPd (shareEntries parentPd newPd n m) n := by
      rw [shareEntries, range_succ, foldl_append]
      rfl
    have entry : shareEntries parentPd newPd n m parentPd n = m parentPd n := by
      rw [ih, if_neg (by simp)]
    rw [unfolded, shareEntry, entry, pteIsPresent_eq]
    by_cases here : i = n
    · subst here
      cases there : entryPresent (m parentPd i) with
      | false =>
        rw [if_neg (by simp), if_neg (by simp), ih, if_neg (by simp)]
      | true =>
        rw [if_pos rfl, write_of_frame_ne ne, entry]
        by_cases at_parent : f = parentPd
        · subst at_parent
          rw [write_self, if_pos ⟨Or.inl rfl, Nat.lt_succ_self _, rfl⟩]
        rw [write_of_frame_ne at_parent]
        by_cases at_new : f = newPd
        · subst at_new
          rw [write_self, if_pos ⟨Or.inr rfl, Nat.lt_succ_self _, rfl⟩]
        · rw [write_of_frame_ne at_new, ih, if_neg (by simp), if_neg (by simp [*])]
    · -- the pass is about another entry
      have same : (if entryPresent (m parentPd n) = true then
          let m' := (shareEntries parentPd newPd n m).write newPd n (pdeReadOnly (m parentPd n))
          m'.write parentPd n (pdeReadOnly (m' parentPd n))
        else shareEntries parentPd newPd n m) f i = shareEntries parentPd newPd n m f i := by
        split_ifs
        · exact (write_of_index_ne here).trans (write_of_index_ne here)
        · rfl
      rw [same, ih]
      exact if_congr (and_congr_right fun _ => and_congr_left fun _ => by omega) rfl rfl

/-! ## The address spaces after a fork -/

section

variable {role : ℕ → Role} {dirs : List ℕ} {s s' : Vmm}

/-- **The machine after a fork**: directory `child` is new, and both directories have the entries
of the parent for user addresses, without the write bit. -/
structure Forked (role : ℕ → Role) (dirs : List ℕ) (s : Vmm) (parent child : ℕ) (s' : Vmm) :
    Prop where
  unused : role child = .unused
  spaces : Spaces (update role child .directory) (dirs ++ [child]) s'
  frames : ∀ f, role f ≠ .unused → f ≠ parent → s'.mem f = s.mem f
  parentEntries : ∀ i, s'.mem parent i =
    if i < 768 ∧ entryPresent (s.mem parent i) = true then pdeReadOnly (s.mem parent i)
    else s.mem parent i
  childEntries : ∀ i, i < 768 → s'.mem child i =
    if entryPresent (s.mem parent i) = true then pdeReadOnly (s.mem parent i) else 0
  childSelf : SelfMapped s'.mem child
  childWindows : s'.mem child 1022 = s.mem parent 1022
  total : s'.pmm.totalFrames = s.pmm.totalFrames

/-- A directory entry without its write bit names the table that it named. -/
theorem Typed.readOnly {slots : ℕ → Prop} (typed : Typed role slots dirs m) (d_dir : d ∈ dirs)
    (entries : ∀ i, m' d i = m d i ∨ m' d i = pdeReadOnly (m d i)) (i : ℕ) (slot : slots i)
    (there : entryPresent (m' d i) = true) : role (entryFrame (m' d i)) = .table := by
  rcases entries i with same | cleared
  · rw [same] at there ⊢
    exact typed.table d d_dir i slot there
  · rw [cleared, entryPresent_pdeReadOnly] at there
    rw [cleared, entryFrame_pdeReadOnly]
    exact typed.table d d_dir i slot there

variable {memory : ForkMemory}

/-- A fork that succeeds has created a directory and shared the entries of the parent. -/
theorem doForkMemory_eq_some {parent child : Process} (loaded : s.cr3 = parent.pageDir)
    (kept : ∀ pd s₁, s.createPageDirectory memory.directory = some (pd, s₁) → pd ≠ 0 →
      s₁.cr3 = s.cr3) (forked : doForkMemory memory parent s = some (some child, s')) :
    ∃ s₁, s.createPageDirectory memory.directory = some (child.pageDir, s₁) ∧ child.pageDir ≠ 0 ∧
      s' = { s₁ with mem := shareEntries parent.pageDir child.pageDir 768 s₁.mem } := by
  obtain ⟨copied, failed, -⟩ := doForkMemory_copied forked
  obtain ⟨⟨childPd, s₁⟩, created, rest⟩ := bind_eq_some_iff.mp copied
  dsimp only at rest
  by_cases no_dir : childPd = 0
  · rw [if_pos no_dir] at rest
    exact absurd (congrArg Prod.fst (Option.some.inj rest)).symm failed
  rw [if_neg no_dir] at rest
  obtain ⟨parentPd, parent_window, rest⟩ := bind_eq_some_iff.mp rest
  obtain ⟨newPd, new_window, rest⟩ := bind_eq_some_iff.mp rest
  cases rest
  have parent_eq : parentPd = parent.pageDir := by
    rw [directWindow_frame parent_window, kept _ _ created no_dir, loaded]
    split_ifs <;> rfl
  exact ⟨s₁, created, no_dir, by rw [parent_eq, directWindow_frame new_window]⟩

/-- A fork that fails has created no directory. -/
theorem doForkMemory_eq_none {parent : Process}
    (failed : doForkMemory memory parent s = some (none, s')) :
    s' = s ∨ s.createPageDirectory memory.directory = some (0, s') := by
  unfold doForkMemory at failed
  split_ifs at failed
  · exact Or.inl (congrArg Prod.snd (Option.some.inj failed)).symm
  · exact Or.inl (congrArg Prod.snd (Option.some.inj failed)).symm
  · obtain ⟨⟨pd, s₂⟩, copied, result⟩ := map_eq_some_iff.mp failed
    dsimp only at result
    split_ifs at result with no_child
    · cases result
      obtain ⟨⟨childPd, s₁⟩, created, rest⟩ := bind_eq_some_iff.mp copied
      dsimp only at rest
      by_cases no_dir : childPd = 0
      · rw [if_pos no_dir] at rest
        cases rest
        exact Or.inr (no_dir ▸ created)
      · rw [if_neg no_dir] at rest
        obtain ⟨_, _, rest⟩ := bind_eq_some_iff.mp rest
        obtain ⟨_, _, rest⟩ := bind_eq_some_iff.mp rest
        exact absurd ((Prod.mk.inj (Option.some.inj rest)).1.trans no_child) no_dir
    · cases result

theorem Spaces.fork {parent child : Process} (spaces : Spaces role dirs s)
    (listed : parent.pageDir ∈ dirs) (loaded : s.cr3 = parent.pageDir)
    (forked : doForkMemory memory parent s = some (some child, s')) :
    Forked role dirs s parent.pageDir child.pageDir s' := by
  have windows : entryPresent (s.mem s.cr3 1022) = true →
      role (entryFrame (s.mem s.cr3 1022)) = .table := fun there =>
    spaces.typed.table _ (loaded ▸ listed) 1022 (Or.inr rfl) there
  obtain ⟨s₁, made, nonzero, rfl⟩ := doForkMemory_eq_some loaded
    (fun _ _ made nonzero => (spaces.createPageDirectory windows made nonzero).loaded) forked
  have created := spaces.createPageDirectory windows made nonzero
  generalize child.pageDir = pd at *
  generalize parent.pageDir = dir at *
  have is_dir := spaces.typed.directory dir listed
  have ne : dir ≠ pd := ne_of_role is_dir (by simp [created.unused])
  have same_dir : s₁.mem dir = s.mem dir := created.frames dir (by simp [is_dir])
  have typed := created.spaces.typed
  have in_dirs : dir ∈ dirs ++ [pd] := mem_append_left _ listed
  have shared := shareEntries_apply ne s₁.mem 768
  generalize shareEntries dir pd 768 s₁.mem = m at *
  have in_parent : ∀ i, m dir i = if i < 768 ∧ entryPresent (s₁.mem dir i) = true then
      pdeReadOnly (s₁.mem dir i) else s₁.mem dir i := by
    intro i
    exact (shared dir i).trans (if_congr (and_iff_right (Or.inl rfl)) rfl rfl)
  have in_new : ∀ i, m pd i = if i < 768 ∧ entryPresent (s₁.mem dir i) = true then
      pdeReadOnly (s₁.mem dir i) else s₁.mem pd i := by
    intro i
    exact (shared pd i).trans (if_congr (and_iff_right (Or.inr rfl)) rfl rfl)
  have elsewhere : ∀ f, f ≠ dir → f ≠ pd → m f = s₁.mem f := by
    intro f not_parent not_new
    funext i
    rw [shared, if_neg fun here => here.1.elim not_parent not_new]
  refine ⟨created.unused, created.spaces.setMem ⟨typed.directory, ?_, ?_⟩, ?_, ?_, ?_, ?_, ?_,
    created.total⟩
  · intro d d_dir i slot there
    by_cases at_parent : d = dir
    · subst at_parent
      refine typed.readOnly in_dirs (fun i => ?_) i slot there
      rw [in_parent i]
      split_ifs
      · exact Or.inr rfl
      · exact Or.inl rfl
    · by_cases at_child : d = pd
      · subst at_child
        rw [in_new i] at there ⊢
        split_ifs at there ⊢ with shared
        · rw [entryFrame_pdeReadOnly]
          exact typed.table dir in_dirs i slot shared.2
        · exact typed.table d d_dir i slot there
      · rw [elsewhere d at_parent at_child] at there ⊢
        exact typed.table d d_dir i slot there
  · intro t t_table j j_lt there
    have not_parent : t ≠ dir := ne_of_role t_table (by simp [typed.directory dir in_dirs])
    have not_child : t ≠ pd := ne_of_role t_table (by simp)
    rw [elsewhere t not_parent not_child] at there ⊢
    exact typed.page t t_table j j_lt there
  · intro f has_role not_parent
    have not_child : f ≠ pd := (ne_of_role created.unused has_role).symm
    exact (elsewhere f not_parent not_child).trans (created.frames f has_role)
  · intro i
    rw [← same_dir]
    exact in_parent i
  · intro i below
    have in_new_i := in_new i
    have empty : s₁.mem pd i = 0 := by
      rw [created.entries, if_neg (by omega), if_neg (by omega)]
    rw [empty, same_dir] at in_new_i
    exact in_new_i.trans (if_congr (and_iff_right below) rfl rfl)
  · obtain ⟨present, frame⟩ := newEntry created.small 0
    have last : m pd 1023 = pdeCreate (4096 * pd) (pagePresent ||| pageWrite) := by
      rw [in_new, if_neg (by simp), created.entries, if_pos rfl]
    exact ⟨(congrArg entryPresent last).trans present, (congrArg entryFrame last).trans frame⟩
  · have copied : s₁.mem pd 1022 = s.mem s.cr3 1022 := by
      rw [created.entries, if_neg (by omega), if_pos (by omega)]
    rw [← loaded, ← copied]
    exact (in_new 1022).trans (if_neg (by simp))

end

/-! ## Pages that were there at the fork -/

/-- The entry for `addr` in the page table that directory `d` names. -/
def tableEntry (m : Memory) (d addr : ℕ) : BitVec 32 :=
  m (entryFrame (m d (dirIndex addr))) (tableIndex addr)

/-- The page at `addr` is open to user mode and not writable by the directory entry, and the byte
at `addr` is `value`. -/
structure Frozen (role : ℕ → Role) (m : Memory) (d addr : ℕ) (value : BitVec 8) : Prop where
  present : entryPresent (m d (dirIndex addr)) = true
  user : entryUser (m d (dirIndex addr)) = true
  readOnly : entryWritable (m d (dirIndex addr)) = false
  table : role (entryFrame (m d (dirIndex addr))) = .table ∨
    role (entryFrame (m d (dirIndex addr))) = .kernel
  pagePresent : entryPresent (tableEntry m d addr) = true
  pageUser : entryUser (tableEntry m d addr) = true
  page : role (entryFrame (tableEntry m d addr)) = .page
  byte : m.byte (entryFrame (tableEntry m d addr)) (addr % 4096) = value

/-- The frame of a table is nothing else. -/
theorem table_role_ne {r : Role} (table : r = .table ∨ r = .kernel) :
    r ≠ .unused ∧ r ≠ .directory ∧ r ≠ .page := by
  rcases table with rfl | rfl <;> simp

namespace Frozen

variable {role : ℕ → Role} {value : BitVec 8}

section

variable (frozen : Frozen role m d addr value)
include frozen

theorem walk : walk m d addr = some ⟨entryFrame (tableEntry m d addr), false, true⟩ := by
  have entry : m (entryFrame (m d (dirIndex addr))) (tableIndex addr) = tableEntry m d addr := rfl
  rw [EduOS.walk, mapping, entry, frozen.present, frozen.pagePresent, frozen.readOnly, frozen.user,
    frozen.pageUser]
  rfl

/-- Reads give the byte. -/
theorem userByte : userByte d addr m = some value := by
  rw [EduOS.userByte, frozen.walk]
  exact congrArg some frozen.byte

/-- Writes fault. -/
theorem not_allowed {access : Access} {t : Mapping}
    (walked : EduOS.walk m d addr = some t) (is_write : access.isWrite = true) :
    access.allowed t = false := by
  obtain rfl := mem_unique walked frozen.walk
  simp [Access.allowed, is_write]

/-- What the page depends on. -/
theorem congr (grows : ∀ f, role f ≠ .unused → role' f = role f)
    (pde : m' d (dirIndex addr) = m d (dirIndex addr))
    (pte : m' (entryFrame (m d (dirIndex addr))) (tableIndex addr) = tableEntry m d addr)
    (page : m' (entryFrame (tableEntry m d addr)) = m (entryFrame (tableEntry m d addr))) :
    Frozen role' m' d addr value := by
  have entry : tableEntry m' d addr = tableEntry m d addr := by
    rw [tableEntry, pde]
    exact pte
  have table_role : role' (entryFrame (m d (dirIndex addr))) =
      role (entryFrame (m d (dirIndex addr))) := grows _ (table_role_ne frozen.table).1
  refine ⟨pde ▸ frozen.present, pde ▸ frozen.user, pde ▸ frozen.readOnly, ?_,
    entry ▸ frozen.pagePresent, entry ▸ frozen.pageUser, ?_, ?_⟩
  · rw [pde, table_role]
    exact frozen.table
  · rw [entry, grows _ (by simp [frozen.page])]
    exact frozen.page
  · rw [entry, Memory.byte, page]
    exact frozen.byte

end

end Frozen

/-- **The invariant after a fork**: in both directories the pages that were there are frozen, and
the table with the windows of copy-on-write is none of their tables. -/
structure Split (parent child : ℕ) (value : ℕ → Option (BitVec 8)) (role : ℕ → Role)
    (dirs : List ℕ) (s : Vmm) : Prop where
  spaces : Spaces role dirs s
  listed : ∀ d, d = parent ∨ d = child → d ∈ dirs
  frozen : ∀ d, d = parent ∨ d = child → ∀ addr v, value addr = some v → Frozen role s.mem d addr v
  below : ∀ addr v, value addr = some v → addr < 0xC0000000
  windows : ∀ d, d = parent ∨ d = child → entryPresent (s.mem d 1022) = true →
    ∀ d', d' = parent ∨ d' = child → ∀ addr v, value addr = some v →
      entryFrame (s.mem d 1022) ≠ entryFrame (s.mem d' (dirIndex addr))

/-- What a program could read in a directory. -/
def forkValue (pd : ℕ) (m : Memory) (addr : ℕ) : Option (BitVec 8) :=
  if addr < 0xC0000000 then userByte pd addr m else none

/-- **A process that can be forked**: it is running, its address space is typed, also where it has
pages below 4 MiB, and the table with the windows of copy-on-write is none of its own. -/
structure ForkReady (role : ℕ → Role) (dirs : List ℕ) (s : Vmm) (parent : ℕ) : Prop where
  spaces : Spaces role dirs s
  listed : parent ∈ dirs
  loaded : s.cr3 = parent
  low : ∀ addr v, dirIndex addr = 0 → userByte parent addr s.mem = some v →
    (role (entryFrame (s.mem parent 0)) = .table ∨ role (entryFrame (s.mem parent 0)) = .kernel) ∧
      role (entryFrame (tableEntry s.mem parent addr)) = .page
  windows : entryPresent (s.mem parent 1022) = true →
    ∀ addr v, forkValue parent s.mem addr = some v →
    entryFrame (s.mem parent 1022) ≠ entryFrame (s.mem parent (dirIndex addr))

section

variable {role : ℕ → Role} {dirs : List ℕ} {s s' : Vmm} {parent child pd : ℕ}
    {value : ℕ → Option (BitVec 8)}

variable {v : BitVec 8}

/-- The entries for a byte that can be read. -/
theorem userByte_eq_some (read : userByte pd addr m = some v) :
    entryPresent (m pd (dirIndex addr)) = true ∧ entryUser (m pd (dirIndex addr)) = true ∧
      entryPresent (tableEntry m pd addr) = true ∧ entryUser (tableEntry m pd addr) = true ∧
      m.byte (entryFrame (tableEntry m pd addr)) (addr % 4096) = v := by
  obtain ⟨t, walked, rest⟩ := bind_eq_some_iff.mp read
  obtain ⟨pde, pte, rfl⟩ := walk_eq_some walked
  split_ifs at rest with user
  obtain ⟨pde_user, pte_user⟩ := Bool.and_eq_true_iff.mp user
  exact ⟨pde, pde_user, pte, pte_user, Option.some.inj rest⟩

theorem forkValue_eq_some (read : forkValue pd m addr = some v) :
    addr < 0xC0000000 ∧ userByte pd addr m = some v := by
  unfold forkValue at read
  split_ifs at read with below
  exact ⟨below, read⟩

/-- The roles of the frames that lead to a byte of the parent. -/
theorem ForkReady.roles (ready : ForkReady role dirs s parent) (below : addr < 0xC0000000)
    (read : userByte parent addr s.mem = some v) :
    (role (entryFrame (s.mem parent (dirIndex addr))) = .table ∨
        role (entryFrame (s.mem parent (dirIndex addr))) = .kernel) ∧
      role (entryFrame (tableEntry s.mem parent addr)) = .page := by
  by_cases low : dirIndex addr = 0
  · rw [low]
    exact ready.low addr v low read
  · have slot : userSlots (dirIndex addr) := Or.inl (by unfold dirIndex at *; omega)
    obtain ⟨pde, _, pte, _, _⟩ := userByte_eq_some read
    have table := ready.spaces.typed.table parent ready.listed _ slot pde
    exact ⟨Or.inl table, ready.spaces.typed.page _ table _ (Nat.mod_lt _ (by omega)) pte⟩

/-- **A fork establishes the invariant.** -/
theorem Forked.split (forked : Forked role dirs s parent child s')
    (ready : ForkReady role dirs s parent) :
    Split parent child (forkValue parent s.mem) (update role child .directory)
      (dirs ++ [child]) s' := by
  have is_dir := ready.spaces.typed.directory parent ready.listed
  -- both directories have the entry of the parent, without the write bit
  have entry : ∀ d, d = parent ∨ d = child → ∀ addr v, forkValue parent s.mem addr = some v →
      s'.mem d (dirIndex addr) = pdeReadOnly (s.mem parent (dirIndex addr)) := by
    intro d which addr v read
    obtain ⟨below, read⟩ := forkValue_eq_some read
    have there := (userByte_eq_some read).1
    have slot := dirIndex_lt_768 below
    rcases which with rfl | rfl
    · rw [forked.parentEntries, if_pos ⟨slot, there⟩]
    · rw [forked.childEntries _ slot, if_pos there]
  have grows : ∀ f, role f ≠ .unused → update role child .directory f = role f :=
    fun f has_role => role_update forked.unused has_role _
  refine ⟨forked.spaces, ?_, ?_, fun addr v read => (forkValue_eq_some read).1, ?_⟩
  · rintro d (rfl | rfl)
    · exact mem_append_left _ ready.listed
    · simp
  · intro d which addr v read
    have pde := entry d which addr v read
    obtain ⟨below, read⟩ := forkValue_eq_some read
    obtain ⟨there, user, page_there, page_user, byte⟩ := userByte_eq_some read
    obtain ⟨table, page⟩ := ready.roles below read
    obtain ⟨table_role, not_dir, -⟩ := table_role_ne table
    have table_ne : entryFrame (s.mem parent (dirIndex addr)) ≠ parent := fun same =>
      not_dir (same.symm ▸ is_dir)
    have pte : tableEntry s'.mem d addr = tableEntry s.mem parent addr := by
      rw [tableEntry, pde, entryFrame_pdeReadOnly, forked.frames _ table_role table_ne]
      rfl
    refine ⟨?_, ?_, ?_, ?_, ?_, ?_, ?_, ?_⟩
    · rw [pde, entryPresent_pdeReadOnly, there]
    · rw [pde, entryUser_pdeReadOnly, user]
    · rw [pde, entryWritable_pdeReadOnly]
    · rw [pde, entryFrame_pdeReadOnly, grows _ table_role]
      exact table
    · rw [pte, page_there]
    · rw [pte, page_user]
    · rw [pte, grows _ (by simp [page]), page]
    · have page_ne : entryFrame (tableEntry s.mem parent addr) ≠ parent :=
        ne_of_role page (by simp [is_dir])
      rw [pte, Memory.byte, forked.frames _ (by simp [page]) page_ne]
      exact byte
  · intro d which there d' which' addr v read
    have same : s'.mem d 1022 = s.mem parent 1022 := by
      rcases which with rfl | rfl
      · rw [forked.parentEntries, if_neg (by simp)]
      · exact forked.childWindows
    rw [same] at there ⊢
    rw [entry d' which' addr v read, entryFrame_pdeReadOnly]
    exact ready.windows there addr v read

/-- What is not touched by a window of copy-on-write: the entries for the pages that were there at
the fork, their tables, and all pages. -/
structure Untouched (parent child : ℕ) (value : ℕ → Option (BitVec 8)) (role : ℕ → Role)
    (m m' : Memory) : Prop where
  pde : ∀ d, d = parent ∨ d = child → ∀ addr v, value addr = some v →
    m' d (dirIndex addr) = m d (dirIndex addr)
  table : ∀ d, d = parent ∨ d = child → ∀ addr v, value addr = some v →
    m' (entryFrame (m d (dirIndex addr))) = m (entryFrame (m d (dirIndex addr)))
  page : ∀ f, role f = .page → m' f = m f

namespace Untouched

theorem refl (m : Memory) : Untouched parent child value role m m :=
  ⟨fun _ _ _ _ _ => rfl, fun _ _ _ _ _ => rfl, fun _ _ => rfl⟩

theorem trans {m'' : Memory} (first : Untouched parent child value role m m')
    (second : Untouched parent child value role' m' m'')
    (grows : ∀ f, role f ≠ .unused → role' f = role f) :
    Untouched parent child value role m m'' := by
  refine ⟨fun d which addr v read => ?_, fun d which addr v read => ?_, fun f is_page => ?_⟩
  · rw [second.pde d which addr v read, first.pde d which addr v read]
  · have later := second.table d which addr v read
    rw [first.pde d which addr v read] at later
    rw [later, first.table d which addr v read]
  · rw [second.page f (by rw [grows f (by simp [is_page]), is_page]), first.page f is_page]

theorem frozen (untouched : Untouched parent child value role m m')
    (grows : ∀ f, role f ≠ .unused → role' f = role f) (which : d = parent ∨ d = child)
    (read : value addr = some v) (frozen : Frozen role m d addr v) : Frozen role' m' d addr v := by
  refine frozen.congr grows (untouched.pde d which addr v read) ?_ (untouched.page _ frozen.page)
  rw [untouched.table d which addr v read]
  rfl

end Untouched

/-- Mapping a page touches one entry of the directory and one table, or a frame that was
unused. -/
theorem Spaces.mapPage_elsewhere {virt phys : ℕ} {flags : BitVec 32} (spaces : Spaces role dirs s)
    (d_dir : pd ∈ dirs) {f j : ℕ} (has_role : role f ≠ .unused)
    (not_entry : ¬(f = pd ∧ j = dirIndex virt))
    (not_table : entryPresent (s.mem pd (dirIndex virt)) = true →
      f ≠ entryFrame (s.mem pd (dirIndex virt))) :
    (s.mapPageInDirectory pd virt phys flags).mem f j = s.mem f j := by
  rcases s.mapPageInDirectory_cases pd virt phys flags with ⟨ready, eq⟩ | ⟨-, eq⟩
  · obtain ⟨_, ensured⟩ := spaces.ensureTableIn d_dir ready
    have table_ne :
        f ≠ entryFrame ((s.ensureTableIn pd (dirIndex virt)).mem pd (dirIndex virt)) := by
      cases there : entryPresent (s.mem pd (dirIndex virt)) with
      | true =>
        rw [(ensured.kept there).1]
        exact not_table there
      | false =>
        obtain ⟨_, some_frame, is_new, _⟩ := ensured.added there
        rw [is_new]
        exact (ne_of_role (spaces.next_unused some_frame) has_role).symm
    rw [eq]
    refine (congrFun (write_of_frame_ne table_ne) j).trans ?_
    by_cases is_dir : role f = .directory
    · exact ensured.entries f is_dir j not_entry
    · exact congrFun (ensured.frames f has_role is_dir) j
  · rw [eq]

/-- The table of the entry afterwards: the one that was there, or a frame that was unused. -/
theorem Spaces.mapPage_table {virt : ℕ} (spaces : Spaces role dirs s) (d_dir : pd ∈ dirs)
    (ready : s.TableReady pd (dirIndex virt)) (slot : userSlots (dirIndex virt)) (phys : ℕ)
    (flags : BitVec 32) :
    (entryPresent (s.mem pd (dirIndex virt)) = true ∧
        entryFrame ((s.mapPageInDirectory pd virt phys flags).mem pd (dirIndex virt)) =
          entryFrame (s.mem pd (dirIndex virt))) ∨
      role (entryFrame ((s.mapPageInDirectory pd virt phys flags).mem pd (dirIndex virt))) =
        .unused := by
  rcases s.mapPageInDirectory_cases pd virt phys flags with ⟨-, eq⟩ | ⟨not_ready, -⟩
  · obtain ⟨_, ensured⟩ := spaces.ensureTableIn d_dir ready
    have table := ensured.spaces.table_of_present d_dir slot ensured.present
    have dir_ne : pd ≠ entryFrame ((s.ensureTableIn pd (dirIndex virt)).mem pd (dirIndex virt)) :=
      ne_of_role (ensured.spaces.typed.directory pd d_dir) (by simp [table])
    have same : (s.mapPageInDirectory pd virt phys flags).mem pd (dirIndex virt) =
        (s.ensureTableIn pd (dirIndex virt)).mem pd (dirIndex virt) := by
      rw [eq]
      exact congrFun (write_of_frame_ne dir_ne) _
    rw [same]
    cases there : entryPresent (s.mem pd (dirIndex virt)) with
    | true =>
      rw [(ensured.kept there).1]
      exact Or.inl ⟨rfl, rfl⟩
    | false =>
      obtain ⟨_, some_frame, is_new, _⟩ := ensured.added there
      rw [is_new]
      exact Or.inr (spaces.next_unused some_frame)
  · exact absurd ready not_ready

namespace Split

section

variable (split : Split parent child value role dirs s)
include split

/-- The roles of the tables and directories of the invariant. -/
theorem table_used (which : d = parent ∨ d = child) (read : value addr = some v) :
    role (entryFrame (s.mem d (dirIndex addr))) ≠ .unused ∧
      role (entryFrame (s.mem d (dirIndex addr))) ≠ .directory ∧
      role (entryFrame (s.mem d (dirIndex addr))) ≠ .page :=
  table_role_ne (split.frozen d which addr v read).table

theorem dir_role : ∀ d, d = parent ∨ d = child → role d = .directory := fun d which =>
  split.spaces.typed.directory d (split.listed d which)

/-- A frame is allocated. -/
theorem take (some_frame : nextFrame s ≠ 0) :
    Split parent child value (update role (nextFrame s) .page) dirs
      { s with pmm := (pmmAllocFrame s.pmm).2 } :=
  ⟨(split.spaces.edited_take some_frame).spaces, split.listed, fun d which addr v read =>
    (Untouched.refl s.mem).frozen (split.spaces.edited_take some_frame).grows which read
      (split.frozen d which addr v read), split.below, split.windows⟩

theorem skip : Split parent child value role dirs { s with pmm := (pmmAllocFrame s.pmm).2 } :=
  ⟨split.spaces.skip, split.listed, split.frozen, split.below, split.windows⟩

theorem load (pd : ℕ) : Split parent child value role dirs { s with cr3 := pd } :=
  ⟨{ split.spaces with }, split.listed, split.frozen,
    split.below, split.windows⟩

/-- **A window of copy-on-write** is set up. -/
theorem window (which : pd = parent ∨ pd = child) {window frame : ℕ}
    (at_1022 : dirIndex window = 1022) (step : WindowStep dirs pd window frame role s role' s') :
    Split parent child value role' dirs s' ∧ Untouched parent child value role s.mem s'.mem := by
  have slot : userSlots (dirIndex window) := Or.inr at_1022
  have edit := step.edited split.spaces slot
  rcases step with ⟨rfl, rfl⟩ | ⟨ready, rfl, mapped⟩
  · exact ⟨split, .refl s'.mem⟩
  have d_dir := split.listed pd which
  have elsewhere : ∀ {f j}, role f ≠ .unused → ¬(f = pd ∧ j = 1022) →
      (entryPresent (s.mem pd 1022) = true → f ≠ entryFrame (s.mem pd 1022)) →
      (s.mapPageInDirectory pd window (4096 * frame) 0x03).mem f j = s.mem f j := by
    intro f j has_role not_entry not_table
    exact split.spaces.mapPage_elsewhere d_dir has_role (at_1022.symm ▸ not_entry)
      (at_1022.symm ▸ not_table)
  have dir_role := split.dir_role
  have windows_table : entryPresent (s.mem pd 1022) = true →
      role (entryFrame (s.mem pd 1022)) = .table := fun there =>
    split.spaces.typed.table pd d_dir 1022 (Or.inr rfl) there
  have dir_entry : ∀ d, d = parent ∨ d = child → ∀ j, ¬(d = pd ∧ j = 1022) →
      (s.mapPageInDirectory pd window (4096 * frame) 0x03).mem d j = s.mem d j := by
    intro d which j not_entry
    refine elsewhere (by simp [dir_role d which]) not_entry fun there => ?_
    exact ne_of_role (dir_role d which) (by simp [windows_table there])
  have slot_ne : ∀ addr v, value addr = some v → dirIndex addr ≠ 1022 := by
    intro addr v read
    have := split.below addr v read
    unfold dirIndex
    omega
  have untouched : Untouched parent child value role s.mem
      (s.mapPageInDirectory pd window (4096 * frame) 0x03).mem := by
    refine ⟨fun d which addr v read => ?_, fun d which' addr v read => ?_, fun f is_page => ?_⟩
    · exact dir_entry d which _ fun here => slot_ne addr v read here.2
    · obtain ⟨used, not_dir, _⟩ := split.table_used which' read
      funext j
      refine elsewhere used (fun here => not_dir (here.1 ▸ dir_role pd which)) fun there => ?_
      exact (split.windows pd which there d which' addr v read).symm
    · funext j
      refine elsewhere (by simp [is_page]) (fun here => ?_) fun there => ?_
      · exact absurd (here.1 ▸ is_page) (by simp [dir_role pd which])
      · exact ne_of_role is_page (by simp [windows_table there])
  refine ⟨⟨edit.spaces, split.listed, fun d which addr v read =>
    untouched.frozen edit.grows which read (split.frozen d which addr v read), split.below, ?_⟩,
    untouched⟩
  intro d which' there d' which'' addr v read
  rw [untouched.pde d' which'' addr v read]
  by_cases here : d = pd
  · subst here
    rcases split.spaces.mapPage_table d_dir ready slot (4096 * frame) 0x03 with
      ⟨was_there, same⟩ | is_new
    · rw [at_1022] at was_there same
      rw [same]
      exact split.windows d which was_there d' which'' addr v read
    · rw [at_1022] at is_new
      exact ne_of_role is_new (split.table_used which'' read).1
  · rw [dir_entry d which' 1022 fun both => here both.1] at there ⊢
    exact split.windows d which' there d' which'' addr v read

end

/-- An entry of a table is set, to a page. -/
theorem setEntry_spaces (spaces : Spaces role dirs s) {t j : ℕ} {word : BitVec 32}
    (table : role t = .table ∨ role t = .kernel)
    (names : entryPresent word = true → role (entryFrame word) = .page) :
    Spaces role dirs { s with mem := s.mem.write t j word } := by
  rcases table with is_table | is_kernel
  · exact spaces.setMem (spaces.typed.setPte is_table names)
  · refine spaces.setMem (spaces.typed.frame fun f structural => write_of_frame_ne ?_)
    rintro rfl
    rcases structural with h | h <;> simp [h] at is_kernel

section

variable (split : Split parent child value role dirs s) (which : pd = parent ∨ pd = child)
    (read : value addr = some v)
include split which read

/-- A page is copied to a frame that no page of the invariant is in, and the copy is mapped in its
place. -/
theorem remap {n : ℕ} (small : n < 2 ^ 20) (is_page : role n = .page)
    (fresh : ∀ d, d = parent ∨ d = child → ∀ a w, value a = some w →
      entryFrame (tableEntry s.mem d a) ≠ n) :
    Split parent child value role dirs
      (Vmm.mapPageInDirectory pd (4096 * (addr / 4096)) (4096 * n) 0x07
        { s with mem := s.mem.writePage n (s.mem (entryFrame (tableEntry s.mem pd addr))) }) := by
  obtain ⟨at_dir, at_table⟩ := (page_eq_iff (4096 * (addr / 4096)) addr).mp (by omega)
  have frozen := split.frozen pd which addr v read
  have dir_role := split.dir_role
  have dir_ne : ∀ d, d = parent ∨ d = child → d ≠ n := fun d which' =>
    ne_of_role (dir_role d which') (by simp [is_page])
  have table_ne : ∀ d, d = parent ∨ d = child → ∀ a w, value a = some w →
      entryFrame (s.mem d (dirIndex a)) ≠ n := by
    rintro d which' a w read' rfl
    exact (split.table_used which' read').2.2 is_page
  generalize old_eq : s.mem (entryFrame (tableEntry s.mem pd addr)) = old
  generalize word_eq : pteCreate (4096 * n) 0x07 = word
  -- the entry of the directory is there, so the page table is edited
  have same_pde : (s.mem.writePage n old) pd (dirIndex addr) = s.mem pd (dirIndex addr) :=
    congrFun (writePage_of_ne (dir_ne pd which)) _
  have mapped : Vmm.mapPageInDirectory pd (4096 * (addr / 4096)) (4096 * n) 0x07
      { s with mem := s.mem.writePage n old } =
        { s with
          mem := (s.mem.writePage n old).write (entryFrame (s.mem pd (dirIndex addr)))
            (tableIndex addr) word } := by
    have there :
        pteIsPresent ((s.mem.writePage n old) pd (dirIndex (4096 * (addr / 4096)))) = true := by
      rw [at_dir, same_pde, pteIsPresent_eq, frozen.present]
    rw [Vmm.mapPageInDirectory, if_pos there, Vmm.setEntryIn]
    dsimp only
    rw [at_dir, at_table, same_pde, word_eq]
  rw [mapped]
  obtain ⟨_, table_not_dir, table_not_page⟩ := split.table_used which read
  have in_dir : ∀ d, d = parent ∨ d = child → ∀ i,
      (s.mem.writePage n old).write (entryFrame (s.mem pd (dirIndex addr)))
        (tableIndex addr) word d i
        = s.mem d i := by
    intro d which' i
    have not_table : d ≠ entryFrame (s.mem pd (dirIndex addr)) := fun same =>
      table_not_dir (same ▸ dir_role d which')
    rw [write_of_frame_ne not_table, writePage_of_ne (dir_ne d which')]
  have word_frame : entryFrame word = n := by rw [← word_eq, pteCreate_frame small]
  have word_present : entryPresent word = true := by
    rw [← word_eq, pteCreate, entryPresent, makeEntry_flag (by omega)]
    decide
  have word_user : entryUser word = true := by
    rw [← word_eq, pteCreate, entryUser, makeEntry_flag (by omega)]
    decide
  refine ⟨?_, split.listed, fun d which' a w read' => ?_, split.below, ?_⟩
  · have copied := (split.spaces.edited_writePage (Or.inl is_page) old).spaces
    exact setEntry_spaces copied frozen.table fun _ => by rw [word_frame, is_page]
  · show Frozen role (Memory.write _ _ _ _) d a w
    have frozen' := split.frozen d which' a w read'
    have page_ne : entryFrame (tableEntry s.mem d a) ≠ entryFrame (s.mem pd (dirIndex addr)) :=
      fun same => table_not_page (same ▸ frozen'.page)
    by_cases here : entryFrame (s.mem d (dirIndex a)) = entryFrame (s.mem pd (dirIndex addr)) ∧
        tableIndex a = tableIndex addr
    · -- the page that is replaced
      have entry : tableEntry ((s.mem.writePage n old).write (entryFrame (s.mem pd (dirIndex addr)))
          (tableIndex addr) word) d a = word := by
        rw [tableEntry, in_dir d which', here.1, here.2, write_self]
      have same_page : tableEntry s.mem d a = tableEntry s.mem pd addr := by
        rw [tableEntry, here.1, here.2]
        rfl
      refine ⟨?_, ?_, ?_, ?_, ?_, ?_, ?_, ?_⟩
      · exact (congrArg entryPresent (in_dir d which' _)).trans frozen'.present
      · exact (congrArg entryUser (in_dir d which' _)).trans frozen'.user
      · exact (congrArg entryWritable (in_dir d which' _)).trans frozen'.readOnly
      · rw [in_dir d which']
        exact frozen'.table
      · rw [entry, word_present]
      · rw [entry, word_user]
      · rw [entry, word_frame, is_page]
      · have n_ne : n ≠ entryFrame (s.mem pd (dirIndex addr)) :=
          (table_ne pd which addr v read).symm
        rw [entry, word_frame, Memory.byte, write_of_frame_ne n_ne, writePage_self,
          ← old_eq, ← same_page]
        exact frozen'.byte
    · refine frozen'.congr (fun _ _ => rfl) (in_dir d which' _) ?_ ?_
      · rw [write_of_ne here, writePage_of_ne (table_ne d which' a w read')]
        rfl
      · rw [write_of_frame_ne page_ne, writePage_of_ne (fresh d which' a w read')]
  · intro d which' there d' which'' a w read'
    dsimp only at there ⊢
    rw [in_dir d which'] at there ⊢
    rw [in_dir d' which'']
    exact split.windows d which' there d' which'' a w read'

/-- **Copy-on-write keeps the invariant**: the new page is a copy of the old one, for both. -/
theorem cow {t : Mapping} (walked : walk s.mem pd (4096 * (addr / 4096)) = some t)
    (steps : CowSteps role dirs s pd (4096 * (addr / 4096)) t.frame s') :
    ∃ role', Split parent child value role' dirs s' := by
  obtain ⟨some_frame, role₁, s₁, role₂, s₂, first, second, rfl⟩ := steps
  have unused := split.spaces.next_unused some_frame
  have small := nextFrame_lt s
  have taken := split.spaces.edited_take some_frame
  obtain ⟨split₁, untouched₁⟩ := (split.take some_frame).window which (by decide) first
  obtain ⟨split₂, untouched₂⟩ := split₁.window which (by decide) second
  have grows₁ := (first.edited taken.spaces (Or.inr (by decide))).grows
  have grows₂ := (second.edited split₁.spaces (Or.inr (by decide))).grows
  -- what the two windows leave as it was
  have untouched : Untouched parent child value role s.mem s₂.mem :=
    ((Untouched.refl s.mem).trans untouched₁ taken.grows).trans untouched₂ fun f has_role => by
      rw [grows₁ f (by rw [taken.grows f has_role]; exact has_role), taken.grows f has_role]
  have same_entry : ∀ d, d = parent ∨ d = child → ∀ a w, value a = some w →
      tableEntry s₂.mem d a = tableEntry s.mem d a := by
    intro d which' a w read'
    rw [tableEntry, untouched.pde d which' a w read', untouched.table d which' a w read']
    rfl
  have new_page : role₂ (nextFrame s) = .page := by
    rw [grows₂ _ (by rw [grows₁ _ (by simp)]; simp), grows₁ _ (by simp), update_self]
  obtain ⟨at_dir, at_table⟩ := (page_eq_iff (4096 * (addr / 4096)) addr).mp (by omega)
  have old_eq : t.frame = entryFrame (tableEntry s₂.mem pd addr) := by
    obtain ⟨-, -, rfl⟩ := walk_eq_some walked
    rw [same_entry pd which addr v read, at_dir, at_table]
    rfl
  refine ⟨role₂, ?_⟩
  rw [old_eq]
  refine split₂.remap which read small new_page fun d which' a w read' => ?_
  rw [same_entry d which' a w read']
  exact ne_of_role (split.frozen d which' a w read').page (by simp [unused])

end

/-- **An access to a page that was there at the fork** keeps the invariant, and is no write that is
performed. -/
theorem access (split : Split parent child value role dirs s) {proc : Process}
    (which : proc.pageDir = parent ∨ proc.pageDir = child) (read : value addr = some v)
    {access : Access} {outcome : Outcome}
    (done : userAccess proc addr access s = some (outcome, s')) :
    (∃ role', Split parent child value role' dirs s') ∧
      (access.isWrite = true → outcome ≠ .performed) := by
  have split := split.load proc.pageDir
  have frozen := split.frozen proc.pageDir which addr v read
  have step := userAccess_step (split.below addr v read) done
  have loaded : ({ s with cr3 := proc.pageDir } : Vmm).cr3 = proc.pageDir := rfl
  generalize { s with cr3 := proc.pageDir } = s at *
  cases step with
  | performed walked allowed =>
    cases access with
    | read => exact ⟨⟨role, split⟩, nofun⟩
    | write byte =>
      rw [frozen.not_allowed walked rfl] at allowed
      cases allowed
  | killed => exact ⟨⟨role, split⟩, fun _ => nofun⟩
  | demanded absent found done =>
    rw [frozen.walk] at absent
    cases absent
  | @copied t result walked denied is_write copied =>
    obtain ⟨served, s'⟩ := result
    obtain ⟨at_dir, at_table⟩ := (page_eq_iff (4096 * (addr / 4096)) addr).mp (by omega)
    have is_page : ∀ t, walk s.mem proc.pageDir (4096 * (addr / 4096)) = some t →
        role t.frame = .page := by
      intro t walked
      obtain ⟨-, -, rfl⟩ := walk_eq_some walked
      rw [at_dir, at_table]
      exact frozen.page
    refine ⟨?_, fun _ => by cases served <;> nofun⟩
    rcases split.spaces.copyOnWrite (split.listed _ which) loaded is_page copied with
      ⟨-, rfl | rfl⟩ | ⟨-, t, walked, steps⟩
    · exact ⟨role, split⟩
    · exact ⟨role, split.skip⟩
    · exact split.cow which read walked steps

end Split

/-- The writes that are recorded after an access that is no write that is performed. -/
theorem recordWrite_of_not_performed {event : ForkEvent} {outcome : Outcome}
    (refused : event.access.isWrite = true → outcome ≠ .performed)
    (written : Bool → ℕ → Option (BitVec 8)) : recordWrite event outcome written = written := by
  unfold recordWrite
  split
  · rename_i is_write
    exact absurd rfl (refused (by rw [is_write]; rfl))
  · rfl

theorem forkProcess_pageDir (parent child : Process) (byChild : Bool) :
    (forkProcess parent child byChild).pageDir = parent.pageDir ∨
      (forkProcess parent child byChild).pageDir = child.pageDir := by
  cases byChild
  · exact Or.inl rfl
  · exact Or.inr rfl

/-- **A run keeps the invariant**, and no write is performed. -/
theorem Split.run {parent child : Process} {events : List ForkEvent} {s s' : ForkState}
    (split : Split parent.pageDir child.pageDir value role dirs s.vmm)
    (present : ∀ event ∈ events, (value event.addr).isSome = true)
    (ran : exec (forkStep parent child) s events = some s') :
    (∃ role', Split parent.pageDir child.pageDir value role' dirs s'.vmm) ∧
      s'.written = s.written := by
  have allowed : Allowed (forkStep parent child) (fun _ event => (value event.addr).isSome = true)
      s events := allowed_of_forall_mem present s
  refine exec_keeps (fun t => (∃ role', Split parent.pageDir child.pageDir value role' dirs t.vmm) ∧
    t.written = s.written) ?_ events s s' ⟨⟨role, split⟩, rfl⟩ allowed ran
  rintro t event t' ⟨⟨role, split⟩, same⟩ there stepped
  obtain ⟨v, read⟩ := isSome_iff_exists.mp there
  obtain ⟨⟨outcome, vmm⟩, done, rfl⟩ := map_eq_some_iff.mp stepped
  obtain ⟨kept, refused⟩ := split.access (forkProcess_pageDir parent child event.byChild) read done
  exact ⟨kept, (recordWrite_of_not_performed refused _).trans same⟩

end

/-- **Isolation of parent and child.**  After a fork and any accesses of the two to pages that were
there, each reads what it wrote last itself, or else the byte at the time of the fork.  It is
always the latter: no write to a page that was there at the fork is ever performed. -/
theorem fork_isolated {role : ℕ → Role} {dirs : List ℕ} {s₀ s₁ : Vmm} {memory : ForkMemory}
    {parent child : Process} {events : List ForkEvent} {s : ForkState}
    (ready : ForkReady role dirs s₀ parent.pageDir)
    (forked : doForkMemory memory parent s₀ = some (some child, s₁))
    (present : ∀ event ∈ events, (forkValue parent.pageDir s₀.mem event.addr).isSome = true)
    (ran : exec (forkStep parent child) ⟨s₁, fun _ _ => none⟩ events = some s) (byChild : Bool)
    {addr : ℕ} {v : BitVec 8} (at_fork : forkValue parent.pageDir s₀.mem addr = some v) :
    userByte (forkProcess parent child byChild).pageDir addr s.vmm.mem =
      some ((s.written byChild addr).getD v) := by
  have split := (ready.spaces.fork ready.listed ready.loaded forked).split ready
  obtain ⟨⟨_, split⟩, written⟩ := split.run (s := ⟨s₁, fun _ _ => none⟩) present ran
  rw [written]
  exact (split.frozen _ (forkProcess_pageDir parent child byChild) addr v at_fork).userByte

/-! ### A fork and a write of the parent -/

/-- A directory in frame 9 with one table, in frame 12, and one page at `0x08048000`, in frame 5,
which starts with the byte `0x2A`. -/
def forkSampleMemory : Memory := fun frame i =>
  if frame = 9 ∧ i = 32 then 0xC007
  else if frame = 12 ∧ i = 0x48 then 0x5007
  else if frame = 5 ∧ i = 0 then 0x2A
  else 0

def forkSample : Vmm where
  mem := forkSampleMemory
  cr3 := 9
  pmm := [20, 21, 22].foldl Pmm.clearBit (pmmAllUsed 0x20000 0 0)

def forkSampleRole (f : ℕ) : Role :=
  if f = 9 then .directory else if f = 12 then .table else if f = 5 then .page else .unused

def forkSampleParent : Process := ⟨9, [], fun _ => none⟩

theorem forkSample_dir (there : entryPresent (forkSampleMemory 9 i) = true) : i = 32 := by
  by_contra other
  simp [forkSampleMemory, other, entryPresent] at there

theorem forkSample_table (there : entryPresent (forkSampleMemory 12 i) = true) : i = 0x48 := by
  by_contra other
  simp [forkSampleMemory, other, entryPresent] at there

theorem forkSample_ready : ForkReady forkSampleRole [9] forkSample 9 := by
  refine ⟨⟨⟨by simp [forkSampleRole], fun d d_dir i _ there => ?_, fun t is_table i _ there => ?_⟩,
    fun f has_role => Or.inl ?_, by decide⟩, by simp, rfl, fun addr v low read => ?_,
    fun there => ?_⟩
  · obtain rfl := mem_singleton.mp d_dir
    obtain rfl := forkSample_dir there
    decide
  · obtain rfl : t = 12 := by
      by_contra other
      unfold forkSampleRole at is_table
      split_ifs at is_table
    obtain rfl := forkSample_table there
    decide
  · unfold forkSampleRole at has_role
    split_ifs at has_role with is_dir is_table is_page
    · subst is_dir
      decide
    · subst is_table
      decide
    · subst is_page
      decide
    · exact absurd rfl has_role
  · have there := (userByte_eq_some read).1
    rw [low] at there
    exact absurd (forkSample_dir there) (by decide)
  · exact absurd (forkSample_dir there) (by decide)

/-- The machine after the fork: the child has its directory in frame 20. -/
def forkSampleForked : Vmm where
  mem frame i :=
    let m := withDirectory forkSampleMemory 9 20 21
    if (frame = 9 ∨ frame = 20) ∧ i < 768 ∧ entryPresent (m 9 i) = true then pdeReadOnly (m 9 i)
    else m frame i
  cr3 := 9
  pmm := pmmFreeFrame (pmmAllocFrame (pmmAllocFrame forkSample.pmm).2).2 0x15000

theorem forkSample_forked (list : List Vma) :
    doForkMemory ⟨true, true, true, fun _ => true⟩ ⟨9, list, fun _ => none⟩ forkSample =
      some (some ⟨20, copyVmaList ⟨true, true, true, fun _ => true⟩ list, fun _ => none⟩,
        forkSampleForked) := by
  have shared : shareEntries 9 20 768 (withDirectory forkSampleMemory 9 20 21) =
      forkSampleForked.mem := by
    funext f i
    exact shareEntries_apply (by decide) _ _ _ _
  have created : forkSample.createPageDirectory true =
      some (20, ⟨withDirectory forkSampleMemory 9 20 21, 9, forkSampleForked.pmm⟩) := rfl
  have copied :
      copyPageDirectory true forkSampleParent forkSample = some (20, forkSampleForked) := by
    rw [copyPageDirectory, created, bind_some]
    dsimp only
    rw [if_neg (by decide)]
    show some (20, (⟨shareEntries 9 20 768 (withDirectory forkSampleMemory 9 20 21), 9,
      forkSampleForked.pmm⟩ : Vmm)) = _
    rw [shared]
    rfl
  have same : copyPageDirectory true ⟨9, list, fun _ => none⟩ forkSample =
      copyPageDirectory true forkSampleParent forkSample := rfl
  rw [doForkMemory, if_neg (by decide), if_neg (by decide), copyProcessMemory, same, copied]
  rfl

/-- The parent writes, which faults, and the child reads. -/
theorem fork_isolated_write :
    ∃ s, exec (forkStep forkSampleParent ⟨20, [], fun _ => none⟩)
        ⟨forkSampleForked, fun _ _ => none⟩
        [⟨false, 0x08048000, .write 7⟩, ⟨true, 0x08048000, .read⟩] = some s ∧
      ∀ byChild, userByte (forkProcess forkSampleParent ⟨20, [], fun _ => none⟩ byChild).pageDir
        0x08048000 s.vmm.mem = some ((s.written byChild 0x08048000).getD 0x2A) := by
  have value : forkValue 9 forkSample.mem 0x08048000 = some 0x2A := by decide
  refine Exists.imp (fun s ran => ⟨ran, fun byChild =>
    fork_isolated forkSample_ready (forkSample_forked []) ?_ ran byChild value⟩)
    (isSome_iff_exists.mp (by decide))
  simp [value]

/-- A private page is copied. -/
theorem fork_copies_private :
    ∃ child s', doForkMemory ⟨true, true, true, fun _ => true⟩
        ⟨9, [⟨0x40000000, 0x40001000, 0xC3, 0, -1, 0⟩], fun _ => none⟩ forkSample =
        some (some child, s') ∧
      child.vmaList.Perm [⟨0x40000000, 0x40001000, 0xC3, 0, -1, 0⟩] :=
  ⟨_, _, forkSample_forked _, (fork_copies_iff _ _ _ _ _ (fun _ => rfl) (by simp)
    (forkSample_forked _)).mpr (by simp [Vma.Copied]; decide)⟩

/-- An area of shared memory loses the address of the memory. -/
theorem fork_drops_data :
    ∃ child s', doForkMemory ⟨true, true, true, fun _ => true⟩
        ⟨9, [⟨0x40000000, 0x40001000, 0x23, 0, -1, 0xC1000000⟩], fun _ => none⟩ forkSample =
        some (some child, s') ∧
      ¬child.vmaList.Perm [⟨0x40000000, 0x40001000, 0x23, 0, -1, 0xC1000000⟩] :=
  ⟨_, _, forkSample_forked _, by decide⟩

end EduOS
