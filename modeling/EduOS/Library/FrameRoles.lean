import EduOS.Library.Paging

/-!
# Roles of frames

Paging structures are typed memory: a frame is a directory, a page table, a page, kept
for the kernel, or unused, and an entry of one kind of frame names a frame of the next
kind.  The directory entries that are typed this way are given by a predicate, since a
system may have others (an entry for the directory itself, tables that are shared with
the kernel).

`Typed` is the invariant.  `Typed.frame` says which part of memory it depends on, and the
other lemmas are the edits that keep it: an unused frame gets a role (`Typed.assign`,
`Typed.assignTable`), an entry of a directory or of a table is set (`Typed.setPde`,
`Typed.setPte`), a directory is added (`Typed.addDirectory`), a page is released
(`Typed.release`).  `Typed.role_of_walk` says that a translation ends in a page.
-/

namespace EduOS

open Function

inductive Role
  | unused
  | kernel
  | directory
  | table
  | page
  deriving DecidableEq

/-- Directories name tables in their entries in `slots`, and tables name pages. -/
structure Typed (role : ℕ → Role) (slots : ℕ → Prop) (dirs : List ℕ) (m : Memory) : Prop where
  directory : ∀ d ∈ dirs, role d = .directory
  table : ∀ d ∈ dirs, ∀ i, slots i → entryPresent (m d i) = true →
    role (entryFrame (m d i)) = .table
  page : ∀ t, role t = .table → ∀ j < 1024, entryPresent (m t j) = true →
    role (entryFrame (m t j)) = .page

section

variable {role : ℕ → Role} {f g : ℕ} {r : Role}

theorem ne_of_role (f_role : role f = r) (g_role : role g ≠ r) : f ≠ g := by
  rintro rfl
  exact g_role f_role

/-- Giving `f` a new role does not affect frames of other roles than its old one. -/
theorem role_update (f_role : role f = r) (g_role : role g ≠ r) (r' : Role) :
    update role f r' g = role g :=
  update_of_ne (ne_of_role f_role g_role).symm _ _

/-- A frame whose role is not the new role of `f` had it before. -/
theorem role_of_update {r' : Role} (g_role : update role f r g = r') (other : r ≠ r') :
    role g = r' := by
  by_cases same : g = f
  · rw [same, update_self] at g_role
    exact absurd g_role other
  · rwa [update_of_ne same] at g_role

end

namespace Typed

variable {role : ℕ → Role} {slots : ℕ → Prop} {dirs : List ℕ} {m m' : Memory} {f : ℕ}

section

variable (typed : Typed role slots dirs m)
include typed

/-- Only directories and tables matter. -/
theorem frame (same : ∀ f, role f = .directory ∨ role f = .table → m' f = m f) :
    Typed role slots dirs m' := by
  refine ⟨typed.directory, fun d d_dir i slot there => ?_, fun t t_table j j_lt there => ?_⟩
  · rw [same d (Or.inl (typed.directory d d_dir))] at there ⊢
    exact typed.table d d_dir i slot there
  · rw [same t (Or.inr t_table)] at there ⊢
    exact typed.page t t_table j j_lt there

theorem writePage (plain : role f ≠ .directory ∧ role f ≠ .table) (page : ℕ → BitVec 32) :
    Typed role slots dirs (m.writePage f page) := by
  refine typed.frame fun g structural => Memory.writePage_of_ne ?_
  rintro rfl
  rcases structural with is_dir | is_table
  · exact plain.1 is_dir
  · exact plain.2 is_table

/-- A frame that is neither a directory nor a table, nor a page that some table names,
gets another role. -/
theorem retype {r : Role} (plain : role f ≠ .directory ∧ role f ≠ .table)
    (unnamed : role f = .page → ∀ t, role t = .table → ∀ j < 1024,
      entryPresent (m t j) = true → entryFrame (m t j) ≠ f)
    (empty : r = .table → ∀ j < 1024, entryPresent (m f j) = false) :
    Typed (update role f r) slots dirs m := by
  refine ⟨fun d d_dir => ?_, fun d d_dir i slot there => ?_, fun t t_table j j_lt there => ?_⟩
  · rw [role_update rfl (by rw [typed.directory d d_dir]; exact plain.1.symm)]
    exact typed.directory d d_dir
  · have named := typed.table d d_dir i slot there
    rw [role_update rfl (by rw [named]; exact plain.2.symm)]
    exact named
  · rcases eq_or_ne t f with rfl | other
    · rw [update_self] at t_table
      rw [empty t_table j j_lt] at there
      cases there
    rw [update_of_ne other] at t_table
    have named := typed.page t t_table j j_lt there
    have not_f : entryFrame (m t j) ≠ f := fun same =>
      unnamed (same ▸ named) t t_table j j_lt there same
    rw [update_of_ne not_f]
    exact named

/-- An unused frame gets a role that makes no demand on what is in it. -/
theorem assign (unused : role f = .unused) {r : Role}
    (plain : r ≠ .table) : Typed (update role f r) slots dirs m :=
  typed.retype (by simp [unused]) (by simp [unused]) fun is_table => absurd is_table plain

/-- An unused frame without present entries becomes a table. -/
theorem assignTable (unused : role f = .unused) (empty : ∀ j < 1024, entryPresent (m f j) = false) :
    Typed (update role f .table) slots dirs m :=
  typed.retype (by simp [unused]) (by simp [unused]) fun _ => empty

/-- A page that no table names is released. -/
theorem release (is_page : role f = .page)
    (unnamed : ∀ t, role t = .table → ∀ j < 1024, entryPresent (m t j) = true →
      entryFrame (m t j) ≠ f) :
    Typed (update role f .unused) slots dirs m :=
  typed.retype (by simp [is_page]) (fun _ => unnamed) fun is_table => by cases is_table

theorem setPde {d i : ℕ} {entry : BitVec 32} (d_dir : d ∈ dirs)
    (names : slots i → entryPresent entry = true → role (entryFrame entry) = .table) :
    Typed role slots dirs (m.write d i entry) := by
  refine ⟨typed.directory, fun d' d'_dir i' slot there => ?_, fun t t_table j j_lt there => ?_⟩
  · by_cases here : d' = d ∧ i' = i
    · obtain ⟨rfl, rfl⟩ := here
      rw [Memory.write_self] at there ⊢
      exact names slot there
    · rw [Memory.write_of_ne here] at there ⊢
      exact typed.table d' d'_dir i' slot there
  · have other : t ≠ d := ne_of_role t_table (by simp [typed.directory d d_dir])
    rw [Memory.write_of_frame_ne other] at there ⊢
    exact typed.page t t_table j j_lt there

theorem setPte {t j : ℕ} {entry : BitVec 32} (t_table : role t = .table)
    (names : entryPresent entry = true → role (entryFrame entry) = .page) :
    Typed role slots dirs (m.write t j entry) := by
  refine ⟨typed.directory, fun d d_dir i slot there => ?_, fun t' t'_table j' j_lt there => ?_⟩
  · have other : d ≠ t := ne_of_role (typed.directory d d_dir) (by simp [t_table])
    rw [Memory.write_of_frame_ne other] at there ⊢
    exact typed.table d d_dir i slot there
  by_cases here : t' = t ∧ j' = j
  · obtain ⟨rfl, rfl⟩ := here
    rw [Memory.write_self] at there ⊢
    exact names there
  · rw [Memory.write_of_ne here] at there ⊢
    exact typed.page t' t'_table j' j_lt there

theorem addDirectory (f_dir : role f = .directory)
    (names : ∀ i, slots i → entryPresent (m f i) = true → role (entryFrame (m f i)) = .table) :
    Typed role slots (dirs ++ [f]) m := by
  refine ⟨fun d d_dir => ?_, fun d d_dir i slot there => ?_, typed.page⟩
  · rcases List.mem_append.mp d_dir with old | new
    · exact typed.directory d old
    · rw [List.mem_singleton.mp new]
      exact f_dir
  · rcases List.mem_append.mp d_dir with old | new
    · exact typed.table d old i slot there
    · rw [List.mem_singleton.mp new] at there ⊢
      exact names i slot there

theorem role_of_walk {d a : ℕ} {rights : Mapping} (d_dir : d ∈ dirs)
    (slot : slots (dirIndex a)) (walked : walk m d a = some rights) :
    role rights.frame = .page := by
  obtain ⟨pde, pte, rfl⟩ := walk_eq_some walked
  exact typed.page _ (typed.table d d_dir _ slot pde) _ (Nat.mod_lt _ (by omega)) pte

end

end Typed

end EduOS
