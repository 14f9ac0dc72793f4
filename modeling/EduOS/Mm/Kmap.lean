import EduOS.Mm.VmmDirectories

/-!
# Temporary mappings in one directory

`kernel/mm/kmap.c`.  Physical memory below 4 MiB has a place in the kernel's half of the address
space; any other page is mapped into one of 1024 slots.  A slot is returned as the address of its
page, so that the offset of an address above 4 MiB is lost (`kmap_translates_iff`).  What that
rests on is kept by both calls (`KmapReady`).
-/

namespace EduOS

open Function

/-- What `kmap` finds in the loaded directory: the table of its window is named nowhere else, the
first 4 MiB are mapped, and a slot that is in use is mapped to its page. -/
structure KmapReady (s : Directories) : Prop where
  own : OwnTablesOn (· = 960) s.vmm.mem s.vmm.cr3
  direct : ∀ a, 0xC0000000 ≤ a → a < 0xC0400000 →
    pageAt s.vmm a = some (4096 * ((a - 0xC0000000) / 4096))
  held : ∀ i < kmapPages, 0 < (s.kmapSlots i).refCount →
    pageAt s.vmm (kmapBase + i * 4096) = some (s.kmapSlots i).physAddr

/-- The physical address behind an address. -/
def Vmm.physOf (s : Vmm) (addr : ℕ) : Option ℕ := (pageAt s addr).map (· + addr % 4096)

theorem Vmm.physOf_slot {s : Vmm} {i page : ℕ}
    (mapped : pageAt s (kmapBase + i * 4096) = some page) :
    s.physOf (kmapBase + i * 4096) = some page := by
  have offset : (kmapBase + i * 4096) % 4096 = 0 := by
    unfold kmapBase
    omega
  rw [physOf, mapped, offset]
  rfl

/-- One table has all slots. -/
theorem Served.slot {s : Vmm} {i : ℕ} (served : Served s kmapBase) (inside : i < kmapPages) :
    Served s (kmapBase + i * 4096) := by
  rw [Served, (kmapSlot_page inside).2]
  exact served

namespace KmapReady

/-- Another slot, and another translation of its page. -/
theorem edit {s : Directories} {vmm : Vmm} {i : ℕ} {slot : KmapSlot} (ready : KmapReady s)
    (own : OwnTablesOn (· = 960) vmm.mem vmm.cr3)
    (others : ∀ a < 0xFFC00000, a / 4096 ≠ (kmapBase + i * 4096) / 4096 →
      pageAt vmm a = pageAt s.vmm a)
    (here : 0 < slot.refCount → pageAt vmm (kmapBase + i * 4096) = some slot.physAddr) :
    KmapReady { s.setSlot i slot with vmm := vmm } := by
  refine ⟨own, fun a lower upper => ?_, fun j inside used => ?_⟩
  · rw [others a (by omega) (by unfold kmapBase; omega)]
    exact ready.direct a lower upper
  · dsimp only [Directories.setSlot] at used ⊢
    by_cases same : j = i
    · subst same
      rw [update_self] at used ⊢
      exact here used
    · rw [update_of_ne same] at used ⊢
      rw [others _ (kmapSlot_page inside).1 (by unfold kmapBase; omega)]
      exact ready.held j inside used

/-- `kmap` -/
theorem kmap {s s' : Directories} {paddr addr : ℕ} (ready : KmapReady (kmapInit s))
    (served : Served (kmapInit s).vmm kmapBase) (small : paddr < 2 ^ 32)
    (done : kmap paddr s = some (addr, s')) : KmapReady s' := by
  have outcome := kmap_outcome s paddr
  rw [done] at outcome
  generalize result : some (addr, s') = r at outcome
  cases outcome with
  | direct | full =>
    cases result
    exact ready
  | shared _ inside _ used =>
    cases result
    exact ready.edit ready.own (fun _ _ _ => rfl) fun _ => ready.held _ inside used
  | @taken i _ inside _ _ =>
    obtain ⟨below, index⟩ := kmapSlot_page inside
    obtain ⟨vmm, mapped, own, pages⟩ := Vmm.mapPage_spec ready.own below index
      (Nat.mul_mod_right 4096 (paddr / 4096)) (by omega) (served.slot inside)
    rw [mapped, Option.bind_some] at result
    cases result
    exact ready.edit own (fun a a_below other => (pages a a_below).trans (if_neg other)) fun _ =>
      (pages _ below).trans (if_pos rfl)

/-- `kunmap` -/
theorem kunmap {s s' : Directories} {vaddr : ℕ} (ready : KmapReady s)
    (done : kunmap vaddr s = some s') : KmapReady s' := by
  simp only [EduOS.kunmap] at done
  split_ifs at done with uninitialized outside used last
  · cases done
    exact ready
  · cases done
    exact ready
  · obtain ⟨below, index⟩ := kmapSlot_page used.1
    obtain ⟨vmm, unmapped, own, pages⟩ := Vmm.unmapPage_spec ready.own below index
    rw [unmapped] at done
    cases done
    exact ready.edit own (fun a a_below other => (pages a a_below).trans (if_neg other)) fun bad =>
      absurd bad (Nat.lt_irrefl 0)
  · cases done
    exact ready.edit ready.own (fun _ _ _ => rfl) fun _ => ready.held _ used.1 used.2
  · cases done
    exact ready

end KmapReady

/-- **The pointer that `kmap` returns** stands for the address it was given exactly if that
lies below 4 MiB or is the address of a page. -/
theorem kmap_translates_iff (s : Directories) (paddr : ℕ) (ready : KmapReady (kmapInit s))
    (served : Served (kmapInit s).vmm kmapBase) (small : paddr < 2 ^ 32)
    (free : ∃ i < kmapPages, ((kmapInit s).kmapSlots i).refCount = 0) :
    ∃ addr s', kmap paddr s = some (addr, s') ∧
      (s'.vmm.physOf addr = some paddr ↔ paddr < 0x400000 ∨ paddr % 4096 = 0) := by
  have outcome := kmap_outcome s paddr
  generalize kmap paddr s = result at outcome ⊢
  generalize kmapInit s = s at *
  cases outcome with
  | direct low =>
    refine ⟨_, _, rfl, ?_⟩
    rw [Vmm.physOf, ready.direct _ (by omega) (by omega), Option.map_some, Option.some_inj]
    omega
  | shared high inside same used =>
    refine ⟨_, _, rfl, ?_⟩
    show s.vmm.physOf _ = _ ↔ _
    rw [Vmm.physOf_slot (ready.held _ inside used), same, Option.some_inj]
    omega
  | @taken i high inside _ _ =>
    obtain ⟨below, index⟩ := kmapSlot_page inside
    obtain ⟨vmm, mapped, -, pages⟩ := Vmm.mapPage_spec ready.own below index
      (Nat.mul_mod_right 4096 (paddr / 4096)) (by omega) (served.slot inside)
    refine ⟨_, _, by rw [mapped, Option.bind_some], ?_⟩
    rw [Vmm.physOf_slot ((pages _ below).trans (if_pos rfl)), Option.some_inj]
    omega
  | full _ used =>
    obtain ⟨i, inside, unused⟩ := free
    exact absurd unused (used i inside)

theorem bootDirectories_ready : KmapReady (kmapInit bootDirectories) := by
  have entry : ∀ i < 1023, bootMemory 9 i = if i = 0 ∨ i = 768 then 0xA003 else 0 := by
    intro i low
    simp [bootMemory, Nat.ne_of_lt low]
  refine ⟨⟨⟨rfl, rfl⟩, fun i low there => ?_, fun i low window j _ there => ?_⟩,
    fun a lower upper => ?_, fun i _ used => absurd used (Nat.lt_irrefl 0)⟩
  · change entryPresent (bootMemory 9 i) = true at there
    show entryFrame (bootMemory 9 i) ≠ 9
    rw [entry i low] at there ⊢
    split_ifs at there ⊢
    · decide
    · exact absurd there (by decide)
  · subst window
    exact absurd there (by decide)
  · have frames : ∀ i < 1024, entryPresent (bootMemory 0xA i) = true ∧
        entryFrame (bootMemory 0xA i) = i := by decide +kernel
    obtain ⟨present, frame⟩ := frames _ (tableIndex_lt a)
    have at_768 : dirIndex a = 768 := by
      unfold dirIndex
      omega
    have page : (a - 0xC0000000) / 4096 = tableIndex a := by
      unfold tableIndex
      omega
    show (walk bootMemory 9 a).map _ = _
    rw [walk, at_768, page]
    show (mapping 0xA003 (bootMemory 0xA (tableIndex a))).map _ = _
    rw [mapping, present, frame]
    rfl

/-- A page at 4 MiB. -/
theorem kmap_translates_page :
    ∃ addr s', kmap 0x400000 bootDirectories = some (addr, s') ∧
      s'.vmm.physOf addr = some 0x400000 := by
  obtain ⟨addr, s', mapped, right⟩ := kmap_translates_iff bootDirectories 0x400000
    bootDirectories_ready (by decide +kernel) (by decide) ⟨0, by decide, rfl⟩
  exact ⟨addr, s', mapped, right.mpr (by decide)⟩

/-- The second word of that page: the pointer is to the first. -/
theorem kmap_loses_offset :
    KmapReady (kmapInit bootDirectories) ∧
      (kmap 0x400004 bootDirectories).map (fun r => r.2.vmm.physOf r.1) = some (some 0x400000) :=
  ⟨bootDirectories_ready, by decide +kernel⟩

end EduOS
