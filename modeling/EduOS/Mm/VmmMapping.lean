import EduOS.Mm.Vmm

/-!
# The algebra of mappings

`vmm_map_page` and `vmm_unmap_page` on one page directory, as an outsider sees them
through `vmm_virt_to_phys`: a page translates to what it was last mapped to, and no
other page is affected.

The second half is an aliasing argument.  It needs that the entries of the directory
name tables of their own (`OwnTables`), and fails in the directory that the kernel
boots with: `entry.asm` lets the entries 0 and 768 share one table, so that a mapping
below 4 MiB is one above `0xC0000000`, too.
-/

namespace EduOS

open Memory

/-- The directory names itself in its last entry, in no other one, and names the tables of the
entries in `owned` once. -/
structure OwnTablesOn (owned : ℕ → Prop) (m : Memory) (dir : ℕ) : Prop where
  self : SelfMapped m dir
  apart : ∀ i < 1023, entryPresent (m dir i) = true → entryFrame (m dir i) ≠ dir
  distinct : ∀ i < 1023, owned i → ∀ j < 1023, entryPresent (m dir i) = true →
    entryPresent (m dir j) = true → entryFrame (m dir i) = entryFrame (m dir j) → i = j

/-- The directory names no frame twice. -/
abbrev OwnTables : Memory → ℕ → Prop := OwnTablesOn fun _ => True

/-- A frame that is neither the directory nor one of its tables. -/
def OwnTables.Fresh (m : Memory) (dir frame : ℕ) : Prop :=
  frame ≠ dir ∧ ∀ i < 1023, entryPresent (m dir i) = true → entryFrame (m dir i) ≠ frame

variable {owned : ℕ → Prop}

namespace OwnTablesOn

variable {m m' : Memory} {dir : ℕ}

theorem of_entries (own : OwnTablesOn owned m dir) (same : m' dir = m dir) :
    OwnTablesOn owned m' dir :=
  ⟨own.self.of_last (congrFun same 1023), same ▸ own.apart, same ▸ own.distinct⟩

/-- An edit of a table entry is seen on its own page only. -/
theorem walk_write {i k a : ℕ} (own : OwnTablesOn owned m dir) (low : i < 1023) (mine : owned i)
    (present : entryPresent (m dir i) = true) (word : BitVec 32) (below : a < 0xFFC00000)
    (other : ¬(dirIndex a = i ∧ tableIndex a = k)) :
    walk (m.write (entryFrame (m dir i)) k word) dir a = walk m dir a := by
  have same : m.write (entryFrame (m dir i)) k word dir = m dir :=
    write_of_frame_ne (own.apart i low present).symm
  refine walk_congr (by rw [same]) fun there => ?_
  by_cases index : tableIndex a = k
  · refine congrFun (write_of_frame_ne fun clash => other ⟨?_, index⟩) _
    exact (own.distinct i low mine _ (dirIndex_lt below) present there clash.symm).symm
  · exact write_of_index_ne index

theorem write {i k : ℕ} (own : OwnTablesOn owned m dir) (low : i < 1023)
    (present : entryPresent (m dir i) = true) (word : BitVec 32) :
    OwnTablesOn owned (m.write (entryFrame (m dir i)) k word) dir :=
  own.of_entries (write_of_frame_ne (own.apart i low present).symm)

end OwnTablesOn

/-- The entry that `vmm_map_page` makes for a new table. -/
theorem newEntry {table : ℕ} (small : table < 2 ^ 20) (flags : BitVec 32) :
    entryPresent (pdeCreate (4096 * table) (pagePresent ||| pageWrite ||| flags)) = true ∧
      entryFrame (pdeCreate (4096 * table) (pagePresent ||| pageWrite ||| flags)) = table := by
  refine ⟨?_, ?_⟩
  · rw [BitVec.or_assoc]
    exact entryPresent_create _ _
  · rw [pdeCreate, entryFrame_makeEntry]
    omega

section

variable {m : Memory} {dir i table : ℕ} {flags : BitVec 32}

theorem withTable_dir (other : table ≠ dir) (j : ℕ) :
    withTable m dir i table flags dir j =
      if j = i then pdeCreate (4096 * table) (pagePresent ||| pageWrite ||| flags)
      else m dir j := by
  rw [withTable, writePage_of_ne other.symm]
  split_ifs with same
  · rw [same, write_self]
  · exact write_of_index_ne same

/-- A new table takes nothing away. -/
theorem OwnTablesOn.withTable (own : OwnTablesOn owned m dir) (low : i < 1023)
    (fresh : OwnTables.Fresh m dir table) (small : table < 2 ^ 20) :
    OwnTablesOn owned (withTable m dir i table flags) dir := by
  obtain ⟨not_dir, not_table⟩ := fresh
  obtain ⟨new_present, new_frame⟩ := newEntry small flags
  have entry : ∀ j, EduOS.withTable m dir i table flags dir j = _ := withTable_dir not_dir
  have last : EduOS.withTable m dir i table flags dir 1023 = m dir 1023 := by
    rw [entry, if_neg (Nat.ne_of_gt low)]
  refine ⟨own.self.of_last last, fun j j_low there => ?_,
    fun j j_low mine k k_low j_there k_there same => ?_⟩
  · rw [entry] at there ⊢
    split_ifs at there ⊢ with at_i
    · rw [new_frame]
      exact not_dir
    · exact own.apart j j_low there
  · rw [entry] at j_there k_there
    rw [entry, entry] at same
    split_ifs at j_there k_there same with j_i k_i k_i
    · rw [j_i, k_i]
    · rw [new_frame] at same
      exact absurd same.symm (not_table k k_low k_there)
    · rw [new_frame] at same
      exact absurd same (not_table j j_low j_there)
    · exact own.distinct j j_low mine k k_low j_there k_there same

theorem OwnTablesOn.walk_withTable (own : OwnTablesOn owned m dir)
    (fresh : OwnTables.Fresh m dir table)
    (small : table < 2 ^ 20) (absent : entryPresent (m dir i) = false) {a : ℕ}
    (below : a < 0xFFC00000) :
    walk (EduOS.withTable m dir i table flags) dir a = walk m dir a := by
  obtain ⟨not_dir, not_table⟩ := fresh
  obtain ⟨new_present, new_frame⟩ := newEntry small flags
  have entry : ∀ j, EduOS.withTable m dir i table flags dir j = _ := withTable_dir not_dir
  by_cases at_i : dirIndex a = i
  · have before : walk m dir a = none := walk_of_absent (at_i ▸ absent)
    rw [before, walk, entry, if_pos at_i, new_frame, EduOS.withTable, writePage_self]
    exact mapping_eq_none_of_pte rfl
  · refine walk_congr (by rw [entry, if_neg at_i]) fun there => ?_
    have other := not_table _ (dirIndex_lt below) there
    have not_self := own.apart _ (dirIndex_lt below) there
    rw [EduOS.withTable, writePage_of_ne other, write_of_frame_ne not_self]

end

/-! ## One call -/

/-- The physical page behind an address. -/
def pageAt (s : Vmm) (a : ℕ) : Option ℕ := (walk s.mem s.cr3 a).map fun t => 4096 * t.frame

section

variable {s : Vmm} {virt phys : ℕ} {flags : BitVec 32}

/-- The frame allocator serves `vmm_map_page`: it does not fail, and the frame that
becomes a page table is not in use as one. -/
def Served (s : Vmm) (virt : ℕ) : Prop :=
  entryPresent (s.mem s.cr3 (dirIndex virt)) = false →
    nextFrame s ≠ 0 ∧ OwnTables.Fresh s.mem s.cr3 (nextFrame s)

section

variable (own : OwnTablesOn owned s.mem s.cr3) (below : virt < 0xFFC00000)
include own below

theorem Vmm.ensureTable_spec (served : Served s virt) :
    ∃ s', Vmm.ensureTable (dirIndex virt) flags s = some s' ∧ OwnTablesOn owned s'.mem s'.cr3 ∧
      entryPresent (s'.mem s'.cr3 (dirIndex virt)) = true ∧
      ∀ a < 0xFFC00000, pageAt s' a = pageAt s a := by
  have low := dirIndex_lt below
  cases present : entryPresent (s.mem s.cr3 (dirIndex virt)) with
  | true =>
    exact ⟨s, Vmm.ensureTable_of_present own.self (Nat.lt_succ_of_lt low) present, own, present,
      fun _ _ => rfl⟩
  | false =>
    obtain ⟨some_frame, fresh⟩ := served present
    have small := nextFrame_lt s
    refine ⟨_, Vmm.ensureTable_of_absent own.self low present some_frame,
      own.withTable low fresh small, ?_, fun a a_below =>
        congrArg (Option.map _) (own.walk_withTable fresh small present a_below)⟩
    show entryPresent (withTable _ _ _ _ _ _ _) = true
    rw [withTable_dir fresh.1, if_pos rfl]
    exact (newEntry small flags).1

variable (mine : owned (dirIndex virt))
include mine

/-- An entry that is set is the translation of its page alone. -/
theorem pageAt_setEntry (present : entryPresent (s.mem s.cr3 (dirIndex virt)) = true)
    (word : BitVec 32) {a : ℕ} (a_below : a < 0xFFC00000) :
    pageAt (s.setEntry virt word) a =
      if a / 4096 = virt / 4096 then
        if entryPresent word then some (4096 * entryFrame word) else none
      else pageAt s a := by
  have low := dirIndex_lt below
  by_cases page : a / 4096 = virt / 4096
  · obtain ⟨at_dir, at_table⟩ := (page_eq_iff a virt).mp page
    have same_dir : (s.setEntry virt word).mem s.cr3 = s.mem s.cr3 :=
      write_of_frame_ne (own.apart _ low present).symm
    have walked :
        walk (s.setEntry virt word).mem s.cr3 a = mapping (s.mem s.cr3 (dirIndex virt)) word := by
      rw [walk, at_dir, at_table, same_dir]
      exact congrArg _ write_self
    rw [if_pos page]
    refine (congrArg (Option.map _) walked).trans ?_
    rw [mapping, present, Bool.true_and, apply_ite (Option.map _)]
    rfl
  · rw [if_neg page]
    exact congrArg (Option.map _) (own.walk_write low mine present _ a_below fun indices =>
      page ((page_eq_iff a virt).mpr indices))

/-- **Mapping a page** changes the translation of that page alone. -/
theorem Vmm.mapPage_spec
    (aligned : phys % 4096 = 0) (small : phys < 2 ^ 32) (served : Served s virt) :
    ∃ s', Vmm.mapPage virt phys flags s = some s' ∧ OwnTablesOn owned s'.mem s'.cr3 ∧
      ∀ a < 0xFFC00000,
        pageAt s' a = if a / 4096 = virt / 4096 then some phys else pageAt s a := by
  obtain ⟨s₁, ensured, own₁, present, same⟩ := Vmm.ensureTable_spec own below served
  refine ⟨s₁.setEntry virt (pteCreate phys (pagePresent ||| flags)), ?_,
    own₁.write (dirIndex_lt below) present _, fun a a_below => ?_⟩
  · rw [Vmm.mapPage, ensured]
    exact store_tableEntry own₁.self (by omega) present _
  · have frame : 4096 * (phys % 2 ^ 32 / 4096) = phys := by omega
    rw [pageAt_setEntry own₁ below mine present _ a_below, same a a_below, pteCreate,
      entryPresent_create, entryFrame_makeEntry, frame, if_pos rfl]

/-- **Unmapping a page** changes the translation of that page alone. -/
theorem Vmm.unmapPage_spec :
    ∃ s', Vmm.unmapPage virt s = some s' ∧ OwnTablesOn owned s'.mem s'.cr3 ∧
      ∀ a < 0xFFC00000, pageAt s' a = if a / 4096 = virt / 4096 then none else pageAt s a := by
  rcases Vmm.unmapPage_cases own.self below with ⟨idle, unmapped⟩ | ⟨present, cleared⟩
  · refine ⟨s, idle, own, fun a a_below => ?_⟩
    split_ifs with page
    · obtain ⟨at_dir, at_table⟩ := (page_eq_iff a virt).mp page
      rw [pageAt, walk, at_dir, at_table]
      exact congrArg (Option.map fun t : Mapping => 4096 * t.frame) unmapped
    · rfl
  · exact ⟨s.setEntry virt 0, cleared, own.write (dirIndex_lt below) present 0, fun a a_below =>
      pageAt_setEntry own below mine present 0 a_below⟩

end

theorem Vmm.virtToPhys_pageAt {a : ℕ} (self : SelfMapped s.mem s.cr3) (below : a < 0x100000000) :
    Vmm.virtToPhys a s = some (((pageAt s a).map (· + a % 4096)).getD 0) := by
  rw [Vmm.virtToPhys_eq self below, pageAt, Option.map_map]
  rfl

end

/-! ## Whole runs -/

/-- The calls on the loaded directory. -/
inductive MappingCall
  | map (virt phys : ℕ) (flags : BitVec 32)
  | unmap (virt : ℕ)

/-- One call. -/
def mappingStep (s : Vmm) : MappingCall → Option Vmm
  | .map virt phys flags => Vmm.mapPage virt phys flags s
  | .unmap virt => Vmm.unmapPage virt s

/-- Mappings below the window, of page-aligned frames other than frame 0. -/
def mappingLegal (s : Vmm) : MappingCall → Prop
  | .map virt phys _ =>
    virt < 0xFFC00000 ∧ phys % 4096 = 0 ∧ phys ≠ 0 ∧ phys < 2 ^ 32 ∧ Served s virt
  | .unmap virt => virt < 0xFFC00000

instance (s : Vmm) (virt : ℕ) : Decidable (Served s virt) :=
  inferInstanceAs (Decidable (_ → _ ∧ _ ∧ ∀ i < 1023, _ → _))

instance (s : Vmm) : (call : MappingCall) → Decidable (mappingLegal s call)
  | .map .. => inferInstanceAs (Decidable (_ ∧ _ ∧ _ ∧ _ ∧ Served ..))
  | .unmap _ => inferInstanceAs (Decidable (_ < _))

/-- What the last call on a page did to it: nothing, unmap it, or map it to a
physical address. -/
def lastMapping (page : ℕ) : List MappingCall → Option (Option ℕ)
  | [] => none
  | call :: rest =>
    match lastMapping page rest with
    | some done => some done
    | none =>
      match call with
      | .map virt phys _ => if virt / 4096 = page then some (some phys) else none
      | .unmap virt => if virt / 4096 = page then some none else none

theorem exec_mapping {s : Vmm} {calls : List MappingCall}
    (own : OwnTables s.mem s.cr3)
    (allowed : Allowed mappingStep mappingLegal s calls) :
    ∃ s', exec mappingStep s calls = some s' ∧ OwnTables s'.mem s'.cr3 ∧
      ∀ a < 0xFFC00000, pageAt s' a =
        match lastMapping (a / 4096) calls with
        | none => pageAt s a
        | some done => done := by
  induction calls generalizing s with
  | nil => exact ⟨s, rfl, own, fun _ _ => rfl⟩
  | cons call rest ih =>
    obtain ⟨legal, later⟩ := allowed_cons.mp allowed
    -- the effect of one call, in the form of `lastMapping`
    obtain ⟨s₁, stepped, own₁, first⟩ : ∃ s₁, mappingStep s call = some s₁ ∧
        OwnTables s₁.mem s₁.cr3 ∧ ∀ a < 0xFFC00000, pageAt s₁ a =
          match lastMapping (a / 4096) [call] with
          | none => pageAt s a
          | some done => done := by
      cases call with
      | map virt phys flags =>
        obtain ⟨below, aligned, -, small, served⟩ := legal
        obtain ⟨s₁, mapped, own₁, frames⟩ := Vmm.mapPage_spec own below trivial aligned small served
        refine ⟨s₁, mapped, own₁, fun a a_below => ?_⟩
        rw [frames a a_below]
        by_cases page : a / 4096 = virt / 4096
        · simp [lastMapping, page]
        · simp [lastMapping, page, Ne.symm page]
      | unmap virt =>
        obtain ⟨s₁, unmapped, own₁, frames⟩ := Vmm.unmapPage_spec own legal trivial
        refine ⟨s₁, unmapped, own₁, fun a a_below => ?_⟩
        rw [frames a a_below]
        by_cases page : a / 4096 = virt / 4096
        · simp [lastMapping, page]
        · simp [lastMapping, page, Ne.symm page]
    obtain ⟨s₂, ran, own₂, frames⟩ := ih own₁ (later s₁ stepped)
    refine ⟨s₂, by rw [exec_cons, stepped]; exact ran, own₂, fun a a_below => ?_⟩
    rw [frames a a_below, first a a_below]
    simp only [lastMapping]
    cases lastMapping (a / 4096) rest with
    | some done => rfl
    | none => rfl

/-- **The mapping algebra.**  In a directory with tables of its own, after any
sequence of `vmm_map_page` and `vmm_unmap_page`, `vmm_virt_to_phys` returns the
address in the frame that the page was last mapped to, 0 if it was last unmapped,
and what it returned at the start (0 if the page was not mapped) if no call was on the
page. -/
theorem vmm_mapping_algebra (s₀ : Vmm) (own : OwnTables s₀.mem s₀.cr3) (calls : List MappingCall)
    (allowed : Allowed mappingStep mappingLegal s₀ calls) :
    ∃ s, exec mappingStep s₀ calls = some s ∧
      ∀ a < 0xFFC00000, Vmm.virtToPhys a s =
        match lastMapping (a / 4096) calls with
        | none => Vmm.virtToPhys a s₀
        | some none => some 0
        | some (some phys) => some (phys + a % 4096) := by
  obtain ⟨s, ran, own', pages⟩ := exec_mapping own allowed
  refine ⟨s, ran, fun a below => ?_⟩
  have small : a < 0x100000000 := by omega
  rw [Vmm.virtToPhys_pageAt own'.self small, Vmm.virtToPhys_pageAt own.self small, pages a below]
  rcases lastMapping (a / 4096) calls with _ | _ | phys <;> rfl

/-- An empty directory in frame 9, and free frames from 10 on. -/
def emptyVmm : Vmm where
  mem frame i := if frame = 9 ∧ i = 1023 then 0x9003 else 0
  cr3 := 9
  pmm := (pmmAllUsed 0x10000 0 0).clearBit 10

theorem emptyVmm_own : OwnTables emptyVmm.mem emptyVmm.cr3 := by
  have absent : ∀ i < 1023, ¬entryPresent (emptyVmm.mem emptyVmm.cr3 i) = true := by
    intro i low
    have entry : emptyVmm.mem emptyVmm.cr3 i = 0 := if_neg fun last => Nat.ne_of_lt low last.2
    simp [entry, entryPresent]
  exact ⟨⟨rfl, rfl⟩, fun i low there => absurd there (absent i low),
    fun i low _ _ _ there => absurd there (absent i low)⟩

theorem vmm_mapping_algebra_remapped :
    ∃ s, exec mappingStep emptyVmm
        [.map 0x400000 0x5000 7, .unmap 0x400000, .map 0x401000 0x6000 7] = some s ∧
      Vmm.virtToPhys 0x400010 s = some 0 ∧ Vmm.virtToPhys 0x401010 s = some 0x6010 ∧
      Vmm.virtToPhys 0x402010 s = some 0 := by
  obtain ⟨s, ran, reads⟩ := vmm_mapping_algebra emptyVmm emptyVmm_own
    [.map 0x400000 0x5000 7, .unmap 0x400000, .map 0x401000 0x6000 7] (by decide +kernel)
  exact ⟨s, ran, reads 0x400010 (by decide), reads 0x401010 (by decide), reads 0x402010 (by decide)⟩

/-! ## The boot directory -/

/-- The directory and the page table that `entry.asm` sets up, after `vmm_init`:
the directory in frame 9, whose entries 0 and 768 name the table in frame `0xA`. -/
def bootMemory : Memory := fun frame i =>
  if frame = 9 then
    if i = 0 ∨ i = 768 then 0xA003 else if i = 1023 then 0x9003 else 0
  else if frame = 0xA then BitVec.ofNat 32 (4096 * i + 3)
  else 0

def bootVmm : Vmm where
  mem := bootMemory
  cr3 := 9
  pmm := pmmAllUsed 0x8000000 0x100000 0x200000

/-- In the boot directory a mapping at `0x1000` is one at `0xC0001000`. -/
theorem vmm_mapping_boot_alias :
    Allowed mappingStep mappingLegal bootVmm [.map 0xC0001000 0x5000 3, .map 0x1000 0x6000 3] ∧
      lastMapping (0xC0001000 / 4096) [.map 0xC0001000 0x5000 3, .map 0x1000 0x6000 3] =
        some (some 0x5000) ∧
      (exec mappingStep bootVmm [.map 0xC0001000 0x5000 3, .map 0x1000 0x6000 3]).bind
        (Vmm.virtToPhys 0xC0001000) = some 0x6000 := by
  decide +kernel

end EduOS
