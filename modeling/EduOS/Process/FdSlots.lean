import EduOS.Process.FdTable

/-!
# The slots of a descriptor table

`kernel/process/fd_table.c` and `kernel/syscall/sys_fd.c` again: how many slots of a table
are in use, and which one `F_DUPFD` takes.

`fd_table_alloc` and `fd_table_free` keep `count` in step with the slots.  `sys_dup2` and
`F_DUPFD` store a file in a slot by themselves and leave `count` as it is, so that every
such call leaves it one too small (`fd_count_iff`).

The loop of `F_DUPFD` starts at its argument, taken as an `int`.  An argument of `2 ^ 31`
or more is negative there, and the loop looks for a null pointer in the memory before the
table (`dupfd_right_iff`).
-/

namespace EduOS

open Function Option

variable {κ ω : Type} {i : Fin maxOpenFiles} {file : ℕ} {fd : ℤ} {arg : BitVec 32} {table : FdTable}

/-! ## The number of open files -/

/-- The number of slots in use. -/
def slotsInUse (slots : FileSlots) : ℕ := (Finset.univ.filter fun i => (slots i).isSome).card

/-- `count` is the number of slots in use, in every table. -/
def FdCounted (s : FdState κ ω) : Prop :=
  ∀ address table, s.tables address = some table → table.count = slotsInUse table.files

/-- A call on the table at an address. -/
inductive FdTableCall where
  | alloc (table file : ℕ)
  | free (table : ℕ) (fd : ℤ)
  | dup (table : ℕ) (oldfd : ℤ)
  | dup2 (table : ℕ) (oldfd newfd : ℤ)
  | dupfd (table : ℕ) (fd : ℤ) (arg : BitVec 32)
  | copy (source address : ℕ)

/-- A call; what it returns does not matter here.  `F_DUPFD` of an open descriptor with an
argument that is negative as an `int` leaves the table, which is a fault. -/
def fdTableStep (ops : κ → FileOperations κ ω) (s : FdState κ ω) :
    FdTableCall → Option (FdState κ ω)
  | .alloc table file => (fdTableAlloc table file s).map Prod.snd
  | .free table fd =>
    match fdSlot fd with
    | none => some s
    | some slot => (fdTableFree ops table slot s).map Prod.snd
  | .dup table oldfd => (sysDup ops table oldfd s).map Prod.snd
  | .dup2 table oldfd newfd => (sysDup2 ops table oldfd newfd s).map Prod.snd
  | .dupfd table fd arg =>
    if arg.msb && (s.fileAt table fd).isSome then none
    else (sysFcntlDupfd table fd arg.toNat s).map Prod.snd
  | .copy source address => fdTableCopy source address s

/-- `sys_dup2` fails or has nothing to do, and `F_DUPFD` fails. -/
def FdNoInstall (s : FdState κ ω) : FdTableCall → Prop
  | .dup2 table oldfd newfd =>
    s.fileAt table oldfd = none ∨ fdSlot newfd = none ∨ oldfd = newfd
  | .dupfd table fd arg =>
    s.fileAt table fd = none ∨ ∀ t ∈ s.tables table, ∀ i ∈ slotsFrom arg.toNat, t.files i ≠ none
  | .alloc _ _ | .free _ _ | .dup _ _ | .copy _ _ => True

/-! ### Filling and clearing a slot -/

section

variable {slots : FileSlots}

theorem slotsInUse_le (slots : FileSlots) : slotsInUse slots ≤ maxOpenFiles :=
  (Finset.card_le_univ _).trans (by simp)

theorem slotsInUse_fill (free : slots i = none) (file : ℕ) :
    slotsInUse (update slots i (some file)) = slotsInUse slots + 1 := by
  have grown : (Finset.univ.filter fun j => (update slots i (some file) j).isSome) =
      insert i (Finset.univ.filter fun j => (slots j).isSome) := by
    ext j
    by_cases same : j = i
    · simp [same]
    · simp [same]
  rw [slotsInUse, grown, Finset.card_insert_of_notMem (by simp [free])]
  rfl

theorem slotsInUse_clear (used : slots i = some file) :
    slotsInUse (update slots i none) + 1 = slotsInUse slots := by
  rw [← slotsInUse_fill (update_self ..) file, update_idem, ← used, update_eq_self]

end

/-! ### What the calls do to the tables -/

section

variable {ops : κ → FileOperations κ ω} {s s' : FdState κ ω} {address : ℕ}

/-- The tables are as before, but for the one at `address`, which is now `table'`. -/
def FdState.Stores (s s' : FdState κ ω) (address : ℕ) (table' : FdTable) : Prop :=
  s'.tables = update s.tables address (some table')

variable {table' : FdTable} {result : Except ℕ (Fin maxOpenFiles)}

theorem FdCounted.stores (counted : FdCounted s)
    (stores : s.Stores s' address table') (right : table'.count = slotsInUse table'.files) :
    FdCounted s' := by
  intro other table found
  rw [stores] at found
  by_cases same : other = address
  · subst same
    rw [update_self] at found
    rwa [← Option.some.inj found]
  · rw [update_of_ne same] at found
    exact counted other table found

theorem FdCounted.same (counted : FdCounted s) (same : s'.tables = s.tables) : FdCounted s' := by
  intro other table found
  rw [same] at found
  exact counted other table found

theorem not_fdCounted_of_stores (stores : s.Stores s' address table')
    (wrong : table'.count ≠ slotsInUse table'.files) : ¬FdCounted s' := fun counted =>
  wrong (counted address table' (by rw [stores, update_self]))

theorem fdTableAlloc_tables {result : Option (Fin maxOpenFiles)}
    (ran : fdTableAlloc address file s = some (result, s')) :
    s'.tables = s.tables ∨ ∃ table i, s.tables address = some table ∧ table.files i = none ∧
      s.Stores s' address ⟨update table.files i (some file), u32 (table.count + 1)⟩ := by
  obtain ⟨table, found, result_eq⟩ := map_eq_some_iff.mp ran
  cases free : freeSlot table.files with
  | none =>
    rw [free] at result_eq
    cases result_eq
    exact Or.inl rfl
  | some i =>
    rw [free] at result_eq
    cases result_eq
    exact Or.inr ⟨table, i, found, freeSlot_vacant free, rfl⟩

theorem fdTableFree_tables {result : Bool} (ran : fdTableFree ops address i s = some (result, s')) :
    ∃ table, s.tables address = some table ∧
      (table.files i = none ∧ s' = s ∨ ∃ file, table.files i = some file ∧
        s.Stores s' address ⟨update table.files i none, sub32 table.count 1⟩) := by
  obtain ⟨table, found, rest⟩ := bind_eq_some_iff.mp ran
  refine ⟨table, found, ?_⟩
  cases used : table.files i with
  | none =>
    rw [used] at rest
    cases rest
    exact Or.inl ⟨rfl, rfl⟩
  | some file =>
    rw [used] at rest
    obtain ⟨vfs, _, same⟩ := map_eq_some_iff.mp rest
    cases same
    exact Or.inr ⟨file, rfl, rfl⟩

theorem installFile_tables (ran : installFile address file i s = some s') :
    ∃ table, s.tables address = some table ∧
      s.Stores s' address ⟨update table.files i (some file), table.count⟩ := by
  obtain ⟨vfs, _, rest⟩ := bind_eq_some_iff.mp ran
  obtain ⟨table, found, rfl⟩ := map_eq_some_iff.mp rest
  exact ⟨table, found, rfl⟩

/-- `sys_dup` fails and leaves the tables alone, or is `fd_table_alloc`. -/
theorem sysDup_tables {oldfd : ℤ} (ran : sysDup ops address oldfd s = some (result, s')) :
    s'.tables = s.tables ∨ ∃ table file i, s.tables address = some table ∧ table.files i = none ∧
      s.Stores s' address ⟨update table.files i (some file), u32 (table.count + 1)⟩ := by
  unfold sysDup at ran
  cases held : s.fileAt address oldfd with
  | none =>
    rw [held] at ran
    cases ran
    exact Or.inl rfl
  | some file =>
    rw [held] at ran
    obtain ⟨vfs, _, rest⟩ := bind_eq_some_iff.mp ran
    obtain ⟨⟨fd, s₁⟩, allocated, rest⟩ := bind_eq_some_iff.mp rest
    have tables := fdTableAlloc_tables allocated
    have kept : s'.tables = s₁.tables := by
      cases fd with
      | some fd =>
        cases rest
        rfl
      | none =>
        obtain ⟨vfs', _, same⟩ := map_eq_some_iff.mp rest
        cases same
        rfl
    rcases tables with same | ⟨table, i, found, free, stores⟩
    · exact Or.inl (kept.trans same)
    · exact Or.inr ⟨table, file, i, found, free, kept.trans stores⟩

/-- `sys_dup2` has nothing to do, or installs the file in the slot, which is cleared
first. -/
theorem sysDup2_tables {oldfd newfd : ℤ} {result : Except ℕ ℤ}
    (ran : sysDup2 ops address oldfd newfd s = some (result, s')) :
    (FdNoInstall s (.dup2 address oldfd newfd) ∧ s' = s) ∨
      ¬FdNoInstall s (.dup2 address oldfd newfd) ∧
        ∃ file slot r s₁, fdTableFree ops address slot s = some (r, s₁) ∧
          installFile address file slot s₁ = some s' := by
  unfold sysDup2 at ran
  cases held : s.fileAt address oldfd with
  | none =>
    rw [held] at ran
    cases ran
    exact Or.inl ⟨Or.inl held, rfl⟩
  | some file =>
    cases slot_eq : fdSlot newfd with
    | none =>
      rw [held, slot_eq] at ran
      cases ran
      exact Or.inl ⟨Or.inr (Or.inl slot_eq), rfl⟩
    | some slot =>
      rw [held, slot_eq] at ran
      by_cases same : oldfd = newfd
      · simp only [if_pos same] at ran
        cases ran
        exact Or.inl ⟨Or.inr (Or.inr same), rfl⟩
      simp only [if_neg same] at ran
      obtain ⟨⟨r, s₁⟩, freed, rest⟩ := bind_eq_some_iff.mp ran
      obtain ⟨s₂, installed, result_eq⟩ := map_eq_some_iff.mp rest
      cases result_eq
      refine Or.inr ⟨?_, file, slot, r, s₁, freed, installed⟩
      simp [FdNoInstall, held, slot_eq, same]

/-- `F_DUPFD` fails, or installs the file in a free slot. -/
theorem sysFcntlDupfd_tables (ran : sysFcntlDupfd address fd arg.toNat s = some (result, s')) :
    (FdNoInstall s (.dupfd address fd arg) ∧ s' = s) ∨
      ¬FdNoInstall s (.dupfd address fd arg) ∧
        ∃ table file slot, s.tables address = some table ∧ table.files slot = none ∧
          installFile address file slot s = some s' := by
  unfold sysFcntlDupfd at ran
  cases held : s.fileAt address fd with
  | none =>
    rw [held] at ran
    cases ran
    exact Or.inl ⟨Or.inl held, rfl⟩
  | some file =>
    rw [held] at ran
    obtain ⟨table, found, rest⟩ := bind_eq_some_iff.mp ran
    cases free : (slotsFrom arg.toNat).find? fun i => (table.files i).isNone with
    | none =>
      rw [free] at rest
      cases rest
      refine Or.inl ⟨Or.inr fun t t_eq i mem vacant => ?_, rfl⟩
      obtain rfl := Option.mem_unique found t_eq
      have tested := List.find?_eq_none.mp free i mem
      simp [vacant] at tested
    | some slot =>
      rw [free] at rest
      obtain ⟨s₂, installed, same⟩ := map_eq_some_iff.mp rest
      cases same
      have vacant : table.files slot = none := by simpa using List.find?_some free
      refine Or.inr ⟨?_, table, file, slot, found, vacant, installed⟩
      rintro (closed | full)
      · rw [held] at closed
        exact absurd closed (by simp)
      · exact full table found slot (List.mem_of_find?_eq_some free) vacant

end

/-! ### Runs -/

section

variable {ops : κ → FileOperations κ ω} {s s' : FdState κ ω} {address : ℕ}

section

variable (counted : FdCounted s) (found : s.tables address = some table)
include counted found

/-- A slot is filled and counted. -/
theorem FdCounted.alloc (free : table.files i = none) (stores : s.Stores s' address
      ⟨update table.files i (some file), u32 (table.count + 1)⟩) : FdCounted s' := by
  refine counted.stores stores ?_
  have few := slotsInUse_le table.files
  simp only [maxOpenFiles] at few
  show u32 (table.count + 1) = _
  rw [slotsInUse_fill free, counted address table found, u32_of_lt (by omega)]

/-- A slot is cleared and counted. -/
theorem FdCounted.free (used : table.files i = some file)
    (stores : s.Stores s' address ⟨update table.files i none, sub32 table.count 1⟩) :
    FdCounted s' := by
  refine counted.stores stores ?_
  have few := slotsInUse_le table.files
  have fewer := slotsInUse_clear used
  simp only [maxOpenFiles] at few
  show sub32 table.count 1 = slotsInUse (update table.files i none)
  rw [counted address table found, sub32_of_le (by omega) (by omega)]
  omega

/-- A slot that is free is filled and not counted. -/
theorem FdCounted.install
    (free : table.files i = none) (installed : installFile address file i s = some s') :
    ¬FdCounted s' := by
  obtain ⟨table', found', stores⟩ := installFile_tables installed
  obtain rfl := Option.mem_unique found found'
  refine not_fdCounted_of_stores stores ?_
  rw [slotsInUse_fill free, ← counted address table found]
  exact Nat.ne_of_lt (Nat.lt_succ_self _)

end

/-- After `fd_table_free` the slot is free and the count is right. -/
theorem FdCounted.freed (counted : FdCounted s) {r : Bool}
    (freed : fdTableFree ops address i s = some (r, s')) :
    FdCounted s' ∧ ∃ table, s'.tables address = some table ∧ table.files i = none := by
  obtain ⟨table, found, ⟨free, rfl⟩ | ⟨file, used, stores⟩⟩ := fdTableFree_tables freed
  · exact ⟨counted, table, found, free⟩
  · refine ⟨counted.free found used stores, _, by rw [stores, update_self], ?_⟩
    simp

/-- A call keeps the counts exactly if it installs no file by itself; the count is too small
then. -/
theorem fdTableStep_counted_iff {call : FdTableCall} (counted : FdCounted s)
    (stepped : fdTableStep ops s call = some s') : FdCounted s' ↔ FdNoInstall s call := by
  cases call with
  | alloc table file =>
    refine iff_of_true ?_ trivial
    obtain ⟨⟨r, s₁⟩, ran, rfl⟩ := map_eq_some_iff.mp stepped
    rcases fdTableAlloc_tables ran with same | ⟨t, i, found, free, stores⟩
    · exact counted.same same
    · exact counted.alloc found free stores
  | free table fd =>
    refine iff_of_true ?_ trivial
    simp only [fdTableStep] at stepped
    cases slot_eq : fdSlot fd with
    | none =>
      rw [slot_eq] at stepped
      exact Option.some.inj stepped ▸ counted
    | some slot =>
      rw [slot_eq] at stepped
      obtain ⟨⟨r, s₁⟩, ran, rfl⟩ := map_eq_some_iff.mp stepped
      exact (counted.freed ran).1
  | dup table oldfd =>
    refine iff_of_true ?_ trivial
    obtain ⟨⟨r, s₁⟩, ran, rfl⟩ := map_eq_some_iff.mp stepped
    rcases sysDup_tables ran with same | ⟨t, file, i, found, free, stores⟩
    · exact counted.same same
    · exact counted.alloc found free stores
  | dup2 table oldfd newfd =>
    obtain ⟨⟨r, s₁⟩, ran, rfl⟩ := map_eq_some_iff.mp stepped
    rcases sysDup2_tables ran with ⟨good, rfl⟩ | ⟨bad, file, slot, r', s₂, freed, installed⟩
    · exact iff_of_true counted good
    · obtain ⟨counted₂, t, found, free⟩ := counted.freed freed
      exact iff_of_false (counted₂.install found free installed) bad
  | dupfd table fd arg =>
    simp only [fdTableStep] at stepped
    by_cases outside : (arg.msb && (s.fileAt table fd).isSome) = true
    · rw [if_pos outside] at stepped
      exact absurd stepped (by simp)
    rw [if_neg outside] at stepped
    obtain ⟨⟨r, s₁⟩, ran, rfl⟩ := map_eq_some_iff.mp stepped
    rcases sysFcntlDupfd_tables ran with ⟨good, rfl⟩ | ⟨bad, t, file, slot, found, free, installed⟩
    · exact iff_of_true counted good
    · exact iff_of_false (counted.install found free installed) bad
  | copy source address =>
    refine iff_of_true ?_ trivial
    obtain ⟨t, found, rfl⟩ := map_eq_some_iff.mp stepped
    have created : FdCounted (fdTableCreate s address) :=
      counted.stores rfl (show 0 = slotsInUse fun _ => none by simp [slotsInUse])
    exact created.stores rfl (counted source t found)

end

/-- One table, at 1, whose first slot has the file at 9. -/
def oneOpen : FdState Empty Unit where
  initialized := true
  openFiles := fun _ => none
  files := fun file => if file = 9 then some ⟨none, none, 0, 0, 1, none⟩ else none
  inodes := fun _ => none
  world := ()
  tables := fun address =>
    if address = 1 then some ⟨fun i => if i.val = 0 then some 9 else none, 1⟩ else none

theorem oneOpen_counted : FdCounted oneOpen := by
  intro address table found
  by_cases here : address = 1
  · obtain rfl : _ = table := Option.some.inj ((if_pos here).symm.trans found)
    decide
  · exact absurd ((if_neg here).symm.trans found) (by simp)

/-- What is read at `files[k]`: the memory before and behind the table is `outside`. -/
def FdTable.word (table : FdTable) (outside : ℤ → Option ℕ) (k : ℤ) : Option ℕ :=
  match fdSlot k with
  | some slot => table.files slot
  | none => outside k

/-- The values of `newfd` in the loop of `F_DUPFD`. -/
def dupfdIndices (start : ℤ) : List ℤ :=
  (List.range (maxOpenFiles - start).toNat).map fun i : ℕ => start + i

/-- What `F_DUPFD` leaves: the indices it has looked at, its result, and the memory. -/
structure DupfdOutcome (κ ω : Type) where
  seen : List ℤ
  result : Except ℕ ℤ
  state : FdState κ ω
  outside : ℤ → Option ℕ

/-- `sys_fcntl` with `F_DUPFD` and any argument: the loop ends at the first index with a null
pointer. -/
def sysFcntlDupfdAny (address : ℕ) (fd : ℤ) (arg : BitVec 32) (outside : ℤ → Option ℕ)
    (s : FdState κ ω) : Option (DupfdOutcome κ ω) :=
  match s.fileAt address fd with
  | none => some ⟨[], .error ebadf, s, outside⟩
  | some file =>
    (s.tables address).bind fun table =>
      let indices := dupfdIndices arg.toInt
      let hit := indices.find? fun k => (table.word outside k).isNone
      let seen := indices.takeWhile (fun k => (table.word outside k).isSome) ++ hit.toList
      match hit with
      | none => some ⟨seen, .error emfile, s, outside⟩
      | some newfd =>
        match fdSlot newfd with
        | some slot => (installFile address file slot s).map fun s => ⟨seen, .ok newfd, s, outside⟩
        | none =>
          (fileGet file s.toVfsState).map fun vfs =>
            ⟨seen, .ok newfd, { s with toVfsState := vfs }, update outside newfd (some file)⟩

/-- The lowest free slot from `arg` on. -/
structure LowestFree (table : FdTable) (arg : ℕ) (slot : Fin maxOpenFiles) : Prop where
  free : table.files slot = none
  above : arg ≤ slot.val
  lowest : ∀ i : Fin maxOpenFiles, arg ≤ i.val → i < slot → table.files i ≠ none

/-- What is wanted of `F_DUPFD` of an open descriptor with the file at `file`: it looks only
at slots of the table, and makes the lowest free one from `arg` on refer to the file, or
fails and changes nothing if there is none. -/
def DupfdRight (address file : ℕ) (arg : BitVec 32) (table : FdTable) (s : FdState κ ω)
    (outside : ℤ → Option ℕ) (outcome : DupfdOutcome κ ω) : Prop :=
  (∀ k ∈ outcome.seen, 0 ≤ k ∧ k < maxOpenFiles) ∧
    ((∃ slot : Fin maxOpenFiles, LowestFree table arg.toNat slot ∧
        outcome.result = .ok (slot.val : ℤ) ∧ outcome.outside = outside ∧
        outcome.state.tables = update s.tables address
          (some { table with files := update table.files slot (some file) })) ∨
      (∀ slot, ¬LowestFree table arg.toNat slot) ∧ (∃ e, outcome.result = .error e) ∧
        outcome.state = s ∧ outcome.outside = outside)

/-- From an argument that is not negative on, the loop goes through the slots of the table. -/
theorem dupfdIndices_natCast (n : ℕ) :
    dupfdIndices n = (slotsFrom n).map fun slot => (slot.val : ℤ) := by
  by_cases inside : n < maxOpenFiles
  · exact (by decide +kernel : ∀ n < maxOpenFiles,
      dupfdIndices n = (slotsFrom n).map fun slot => (slot.val : ℤ)) n inside
  · have none_left : ((maxOpenFiles : ℤ) - n).toNat = 0 := by omega
    have no_slot : slotsFrom n = [] :=
      List.filter_eq_nil_iff.mpr fun slot _ above => by
        have := of_decide_eq_true above
        omega
    rw [dupfdIndices, none_left, no_slot]
    rfl

/-- The search gives the lowest free slot, if there is one. -/
theorem lowestFree_of_find {n : ℕ} {slot : Fin maxOpenFiles}
    (free : (slotsFrom n).find? (fun i => (table.files i).isNone) = some slot) :
    LowestFree table n slot := by
  obtain ⟨vacant, front, back, split, passed⟩ := List.find?_eq_some_iff_append.mp free
  have sorted := (List.pairwise_lt_finRange maxOpenFiles).filter fun i => decide (n ≤ i.val)
  have mem := List.mem_of_find?_eq_some free
  refine ⟨by simpa using vacant, by simpa [slotsFrom] using mem, fun i above below vacant' => ?_⟩
  have listed : i ∈ front ++ slot :: back := split ▸ by simpa [slotsFrom] using above
  rw [← slotsFrom, split, List.pairwise_append, List.pairwise_cons] at sorted
  rcases List.mem_append.mp listed with before | after
  · simpa [vacant'] using passed i before
  · rcases List.mem_cons.mp after with rfl | later
    · exact lt_irrefl i below
    · exact lt_asymm below (sorted.2.1.1 i later)

section

variable {s : FdState κ ω} {address : ℕ} (outside : ℤ → Option ℕ)

/-- For an argument that is not negative the loop stays in the table, and does what
`sysFcntlDupfd` says. -/
theorem sysFcntlDupfdAny_eq (address : ℕ) (fd : ℤ) (s : FdState κ ω) (small : arg.toNat < 2 ^ 31) :
    ∃ seen : List ℤ, (∀ k ∈ seen, 0 ≤ k ∧ k < maxOpenFiles) ∧
      sysFcntlDupfdAny address fd arg outside s =
        (sysFcntlDupfd address fd arg.toNat s).map fun r =>
          ⟨seen, r.1.map fun slot => (slot.val : ℤ), r.2, outside⟩ := by
  have start : arg.toInt = arg.toNat := BitVec.toInt_eq_toNat_of_lt (by omega)
  have word : ∀ (table : FdTable) (slot : Fin maxOpenFiles),
      table.word outside slot.val = table.files slot := fun table slot => by
    rw [FdTable.word, fdSlot_of_val]
  have range : ∀ k ∈ dupfdIndices arg.toNat, 0 ≤ k ∧ k < maxOpenFiles := by
    intro k mem
    rw [dupfdIndices_natCast] at mem
    obtain ⟨slot, -, rfl⟩ := List.mem_map.mp mem
    omega
  unfold sysFcntlDupfdAny sysFcntlDupfd
  cases s.fileAt address fd with
  | none => exact ⟨[], nofun, rfl⟩
  | some file =>
    cases s.tables address with
    | none => exact ⟨[], nofun, rfl⟩
    | some table =>
      have found : (dupfdIndices arg.toNat).find? (fun k => (table.word outside k).isNone) =
          ((slotsFrom arg.toNat).find? fun i => (table.files i).isNone).map
            fun slot => (slot.val : ℤ) := by
        rw [dupfdIndices_natCast, List.find?_map]
        simp only [comp_def, word]
      have seen :
          ∀ k ∈ (dupfdIndices arg.toNat).takeWhile (fun k => (table.word outside k).isSome) ++
          ((dupfdIndices arg.toNat).find? fun k => (table.word outside k).isNone).toList,
          0 ≤ k ∧ k < maxOpenFiles := by
        intro k mem
        rcases List.mem_append.mp mem with passed | hit
        · exact range k ((List.takeWhile_sublist _).subset passed)
        · exact range k (List.mem_of_find?_eq_some (mem_toList.mp hit))
      refine ⟨_, seen, ?_⟩
      simp only [start, bind_some, found]
      cases (slotsFrom arg.toNat).find? fun i => (table.files i).isNone with
      | none => rfl
      | some slot =>
        simp only [map_some, fdSlot_of_val]
        cases installFile address file slot s <;> rfl

theorem fileGet_of_live {object : OpenFile κ} (live : s.files file = some object) :
    ∃ vfs, fileGet file s.toVfsState = some vfs := by
  simp [fileGet, live]

/-- Whatever the argument, `F_DUPFD` of an open descriptor returns, and looks first at its
argument. -/
theorem sysFcntlDupfdAny_returns {object : OpenFile κ} (found : s.tables address = some table)
    (opened : s.fileAt address fd = some file) (live : s.files file = some object)
    (below : arg.toInt < maxOpenFiles) :
    ∃ outcome, sysFcntlDupfdAny address fd arg outside s = some outcome ∧
      arg.toInt ∈ outcome.seen := by
  obtain ⟨vfs, got⟩ := fileGet_of_live live
  have first : arg.toInt ∈
      (dupfdIndices arg.toInt).takeWhile (fun k => (table.word outside k).isSome) ++
        ((dupfdIndices arg.toInt).find? fun k => (table.word outside k).isNone).toList := by
    obtain ⟨n, count⟩ : ∃ n, (maxOpenFiles - arg.toInt).toNat = n + 1 :=
      ⟨_, (Nat.succ_pred_eq_of_pos (by omega)).symm⟩
    rw [dupfdIndices, count, List.range_succ_eq_map, List.map_cons, List.takeWhile_cons,
      List.find?_cons, Nat.cast_zero, Int.add_zero]
    cases table.word outside arg.toInt <;> simp
  simp only [sysFcntlDupfdAny, opened, found, bind_some]
  generalize (dupfdIndices arg.toInt).find? _ = hit at first ⊢
  cases hit with
  | none => exact ⟨_, rfl, first⟩
  | some newfd =>
    dsimp only
    cases fdSlot newfd with
    | none => exact ⟨_, by rw [got, map_some], first⟩
    | some slot =>
      obtain ⟨s', installed⟩ : ∃ s', installFile address file slot s = some s' := by
        simp [installFile, got, found]
      exact ⟨_, by dsimp only; rw [installed, map_some], first⟩

end

/-- **`F_DUPFD`** of an open descriptor looks only at slots of the table and takes the
lowest free one from `arg` on, or fails without a trace, exactly if `arg` is less than
`2 ^ 31`. -/
theorem dupfd_right_iff (address file : ℕ) (fd : ℤ) (arg : BitVec 32) (table : FdTable)
    (object : OpenFile κ) (s : FdState κ ω) (outside : ℤ → Option ℕ)
    (found : s.tables address = some table) (opened : s.fileAt address fd = some file)
    (live : s.files file = some object) :
    ∃ outcome, sysFcntlDupfdAny address fd arg outside s = some outcome ∧
      (DupfdRight address file arg table s outside outcome ↔ arg.toNat < 2 ^ 31) := by
  by_cases small : arg.toNat < 2 ^ 31
  · obtain ⟨seen, inside, same⟩ := sysFcntlDupfdAny_eq outside address fd s small
    rw [same]
    simp only [sysFcntlDupfd, opened, found, bind_some]
    cases free : (slotsFrom arg.toNat).find? fun i => (table.files i).isNone with
    | none =>
      refine ⟨_, rfl, iff_of_true ⟨inside, Or.inr ⟨fun slot lowest => ?_, ⟨emfile, rfl⟩, rfl, rfl⟩⟩
        small⟩
      have used := List.find?_eq_none.mp free slot (by simpa [slotsFrom] using lowest.above)
      simp [lowest.free] at used
    | some slot =>
      obtain ⟨vfs, got⟩ := fileGet_of_live live
      simp only [installFile, got, found, bind_some, map_some]
      exact ⟨_, rfl, iff_of_true
        ⟨inside, Or.inl ⟨slot, lowestFree_of_find free, rfl, rfl, rfl⟩⟩ small⟩
  · -- an index that is negative is looked at first
    have negative : arg.toInt < 0 := by
      rw [BitVec.toInt_eq_toNat_cond, if_neg (by omega)]
      omega
    obtain ⟨outcome, result, first⟩ := sysFcntlDupfdAny_returns outside found opened live
      (negative.trans (by decide))
    refine ⟨outcome, result, iff_of_false (fun right => ?_) small⟩
    exact absurd (right.1 _ first).1 (not_le.mpr negative)

/-- The table of `oneOpen`. -/
def oneOpenTable : FdTable := ⟨fun i => if i.val = 0 then some 9 else none, 1⟩

/-- With the argument 0 the second slot is taken. -/
theorem dupfd_right_second :
    ∃ outcome, sysFcntlDupfdAny 1 0 0 (fun _ => none) oneOpen = some outcome ∧
      DupfdRight 1 9 0 oneOpenTable oneOpen (fun _ => none) outcome := by
  obtain ⟨outcome, result, right⟩ := dupfd_right_iff 1 9 0 0 oneOpenTable
    ⟨none, none, 0, 0, 1, none⟩ oneOpen (fun _ => none) rfl rfl rfl
  exact ⟨outcome, result, right.mpr (by decide)⟩

/-- With the argument `0xFFFFFFFF` the file is stored right before the table, and -1 is
returned. -/
theorem dupfd_negative :
    oneOpen.tables 1 = some oneOpenTable ∧ oneOpen.fileAt 1 0 = some 9 ∧
      ∃ outcome, sysFcntlDupfdAny 1 0 0xFFFFFFFF (fun _ => none) oneOpen = some outcome ∧
        outcome.seen = [-1] ∧ outcome.result = .ok (-1) ∧ outcome.outside (-1) = some 9 ∧
        ¬DupfdRight 1 9 0xFFFFFFFF oneOpenTable oneOpen (fun _ => none) outcome := by
  refine ⟨rfl, rfl, _, rfl, by decide +kernel, rfl, by decide +kernel, ?_⟩
  rintro ⟨bounds, _⟩
  exact absurd (bounds (-1) (by decide +kernel)).1 (by decide)

end EduOS
