import EduOS.Include.List
import EduOS.Mm.Pmm

/-!
# Page reclaim

`kernel/mm/page_reclaim.c`: every page descriptor carries one `struct
list_head`, by which it hangs in the active list, in the inactive list, or in
neither, in which case it is linked to itself.

Two things have to be kept in step with the links.  The counters, which are
adjusted by the flag `PAGE_FLAG_ACTIVE` of the page that leaves and not by the
list it leaves, and that flag itself.  `Represents` ties all of them to the two
lists of page numbers.

The shrink functions walk a list backwards with `list_for_each_safe_reverse`
while their body moves the visited page to the other list, or to the head of the
very list being walked.  `shrinkList_rule` is the rule for such a walk.  A page
moved to the head is met again at the end of the walk, so the distance to the
head does not decrease; what decreases is that distance plus the number of pages
still marked accessed.
-/

namespace EduOS

open Function (update update_self update_of_ne)
open List

def maxPages : ℕ := 32768

def pageFlagLocked : BitVec 32 := 0x0001

def pageFlagDirty : BitVec 32 := 0x0002

def pageFlagAccessed : BitVec 32 := 0x0004

def pageFlagActive : BitVec 32 := 0x0008

def pageFlagReserved : BitVec 32 := 0x0020

/-- The two lists of `struct lru_manager`. -/
inductive LruList
  | active
  | inactive
deriving DecidableEq, Repr

/-- The addresses of `struct list_head`s: null, the two list heads, and the `lru`
fields of the page descriptors. -/
inductive LruNode
  | null
  | list (which : LruList)
  | page (index : ℕ)
deriving DecidableEq, Repr

/-- The static variables of `page_reclaim.c`, the fields of the page descriptors
as functions of the page number, and the frame allocator they return frames
to. -/
structure PageReclaim where
  /-- `page_reclaim_initialized` -/
  initialized : Bool
  /-- The memory of all `struct list_head`s. -/
  links : Links LruNode
  /-- `active_count` and `inactive_count`. -/
  count : LruList → ℕ
  flags : ℕ → BitVec 32
  refCount : ℕ → ℕ
  physAddr : ℕ → ℕ
  pagesScanned : ℕ
  pagesReclaimed : ℕ
  pagesActivated : ℕ
  pagesDeactivated : ℕ
  pmm : Pmm
  /-- The arguments of all `pmm_free_frame` calls, the latest first; nothing in
  the code reads it. -/
  freed : List ℕ

namespace PageReclaim

def increment (s : PageReclaim) (which : LruList) : PageReclaim :=
  { s with count := update s.count which (u32 (s.count which + 1)) }

def decrement (s : PageReclaim) (which : LruList) : PageReclaim :=
  { s with count := update s.count which (sub32 (s.count which) 1) }

def setFlag (s : PageReclaim) (page : ℕ) (mask : BitVec 32) : PageReclaim :=
  { s with flags := update s.flags page (s.flags page ||| mask) }

def clearFlag (s : PageReclaim) (page : ℕ) (mask : BitVec 32) : PageReclaim :=
  { s with flags := update s.flags page (s.flags page &&& ~~~mask) }

def test (s : PageReclaim) (page : ℕ) (mask : BitVec 32) : Bool := hasFlag (s.flags page) mask

/-- `list_empty(&page->lru)` -/
def detached (s : PageReclaim) (page : ℕ) : Bool := listEmpty s.links (.page page)

def withLinks (s : PageReclaim) (links : Links LruNode) : PageReclaim := { s with links := links }

/-- `list_del(&page->lru)` -/
def del (s : PageReclaim) (page : ℕ) : Option PageReclaim :=
  (listDel .null s.links (.page page)).map s.withLinks

/-- `list_add(&page->lru, …)` -/
def add (s : PageReclaim) (page : ℕ) (which : LruList) : Option PageReclaim :=
  (listAdd .null s.links (.page page) (.list which)).map s.withLinks

/-- `INIT_LIST_HEAD(&page->lru)` -/
def initHead (s : PageReclaim) (page : ℕ) : PageReclaim :=
  s.withLinks (initListHead s.links (.page page))

/-- The list whose counter is adjusted when the page leaves. -/
def flaggedList (s : PageReclaim) (page : ℕ) : LruList :=
  if s.test page pageFlagActive then .active else .inactive

end PageReclaim

/-! ## The functions -/

/-- `page_reclaim_init` -/
def pageReclaimInit (s : PageReclaim) : PageReclaim :=
  if s.initialized then s
  else
    { s with
      initialized := true
      links :=
        { next := fun x => match x with
            | .page i => if i < maxPages then x else s.links.next x
            | .list _ => x
            | .null => s.links.next x
          prev := fun x => match x with
            | .page i => if i < maxPages then x else s.links.prev x
            | .list _ => x
            | .null => s.links.prev x }
      count := fun _ => 0
      flags := fun _ => 0
      refCount := fun _ => 0
      physAddr := fun i => u32 (i * 4096)
      pagesScanned := 0
      pagesReclaimed := 0
      pagesActivated := 0
      pagesDeactivated := 0 }

/-- `get_page_descriptor` -/
def getPageDescriptor (physAddr : ℕ) : Option ℕ :=
  let pageIndex := physAddr / 4096
  if maxPages ≤ pageIndex then none else some pageIndex

/-- `lru_add_page`, on a descriptor. -/
def lruAddDescriptor (s : PageReclaim) (page : ℕ) : Option PageReclaim := do
  let s ←
    if !s.detached page then
      (s.del page).map fun t => t.decrement (s.flaggedList page)
    else
      some s
  let s ← s.add page .inactive
  some ((s.clearFlag page pageFlagActive).increment .inactive)

/-- `lru_remove_page`, on a descriptor. -/
def lruRemoveDescriptor (s : PageReclaim) (page : ℕ) : Option PageReclaim :=
  if !s.detached page then
    (s.del page).map fun t => (t.initHead page).decrement (s.flaggedList page)
  else
    some s

/-- `mark_page_accessed`, on a descriptor. -/
def markDescriptorAccessed (s : PageReclaim) (page : ℕ) : Option PageReclaim :=
  let s := s.setFlag page pageFlagAccessed
  if !s.test page pageFlagActive && !s.detached page then do
    let s ← s.del page
    let s ← (s.decrement .inactive).add page .active
    let s := (s.setFlag page pageFlagActive).increment .active
    some { s with pagesActivated := u64 (s.pagesActivated + 1) }
  else
    some s

/-- The test the three functions start with: a null descriptor, or a system that
is not initialised, is left alone. -/
def onDescriptor (body : PageReclaim → ℕ → Option PageReclaim) (s : PageReclaim) :
    Option ℕ → Option PageReclaim
  | none => some s
  | some page => if s.initialized then body s page else some s

/-- `lru_add_page` -/
def lruAddPage : PageReclaim → Option ℕ → Option PageReclaim := onDescriptor lruAddDescriptor

/-- `lru_remove_page` -/
def lruRemovePage : PageReclaim → Option ℕ → Option PageReclaim :=
  onDescriptor lruRemoveDescriptor

/-- `mark_page_accessed` -/
def markPageAccessed : PageReclaim → Option ℕ → Option PageReclaim :=
  onDescriptor markDescriptorAccessed

/-- `lock_page` -/
def lockPage (s : PageReclaim) : Option ℕ → PageReclaim
  | none => s
  | some page => s.setFlag page pageFlagLocked

/-- `unlock_page` -/
def unlockPage (s : PageReclaim) : Option ℕ → PageReclaim
  | none => s
  | some page => s.clearFlag page pageFlagLocked

/-! ### Shrinking -/

/-- The variables of a walk `list_for_each_safe_reverse(pos, n, head)` with the
counter that ends it. -/
structure LruWalk where
  pos : LruNode
  n : LruNode
  nr : ℕ
  lru : PageReclaim

/-- One pass of `list_for_each_safe_reverse` with the body
`if (nr >= nr_to_scan) break; … visit …`. -/
def shrinkPass (which : LruList) (visit : ℕ → ℕ × PageReclaim → Option (ℕ × PageReclaim))
    (nrToScan : ℕ) (w : LruWalk) : Option (LruWalk ⊕ (ℕ × PageReclaim)) :=
  if w.pos = .list which then some (Sum.inr (w.nr, w.lru))
  else if nrToScan ≤ w.nr then some (Sum.inr (w.nr, w.lru))
  else
    match w.pos with
    | .page page => do
        let (nr, lru) ← visit page (w.nr, w.lru)
        -- `pos = n, n = pos->prev`
        if w.n = .null then none
        else some (Sum.inl ⟨w.n, lru.links.prev w.n, nr, lru⟩)
    | _ => none

/-- The frame that `shrink_active_list` and `shrink_inactive_list` share: walk
the list from its tail, and return the counter. -/
def shrinkList (which : LruList) (visit : ℕ → ℕ × PageReclaim → Option (ℕ × PageReclaim))
    (s : PageReclaim) (nrToScan : ℕ) : Option (ℕ × PageReclaim) :=
  if !s.initialized then some (0, s)
  else
    let pos := s.links.prev (.list which)
    if pos = .null then none
    else loop (shrinkPass which visit nrToScan) (2 ^ 32) ⟨pos, s.links.prev pos, 0, s⟩

/-- `g_reclaim_stats.pages_scanned++` -/
def PageReclaim.scanned (s : PageReclaim) : PageReclaim :=
  { s with pagesScanned := u64 (s.pagesScanned + 1) }

/-- What `shrink_active_list` does with a page. -/
def shrinkActiveVisit (page : ℕ) : ℕ × PageReclaim → Option (ℕ × PageReclaim)
  | (nrMoved, s) =>
    let s := s.scanned
    if s.test page pageFlagLocked then some (nrMoved, s)
    else if s.test page pageFlagAccessed then do
      let s ← (s.clearFlag page pageFlagAccessed).del page
      let s ← s.add page .active
      some (nrMoved, s)
    else do
      let s ← s.del page
      let s ← s.add page .inactive
      let s := s.clearFlag page pageFlagActive
      let s := (s.decrement .active).increment .inactive
      some (u32 (nrMoved + 1), { s with pagesDeactivated := u64 (s.pagesDeactivated + 1) })

/-- `shrink_active_list` -/
def shrinkActiveList : PageReclaim → ℕ → Option (ℕ × PageReclaim) :=
  shrinkList .active shrinkActiveVisit

/-- A dirty page only loses its mark; the write-back itself is not implemented. -/
def PageReclaim.writeBack (s : PageReclaim) (page : ℕ) : PageReclaim :=
  if s.test page pageFlagDirty then s.clearFlag page pageFlagDirty else s

/-- What `shrink_inactive_list` does with a page. -/
def shrinkInactiveVisit (page : ℕ) : ℕ × PageReclaim → Option (ℕ × PageReclaim)
  | (nrReclaimed, s) =>
    let s := s.scanned
    if s.test page pageFlagLocked || s.test page pageFlagReserved then some (nrReclaimed, s)
    else if s.test page pageFlagAccessed then do
      let s ← (s.clearFlag page pageFlagAccessed).del page
      let s ← s.add page .active
      let s := s.setFlag page pageFlagActive
      let s := (s.decrement .inactive).increment .active
      some (nrReclaimed, { s with pagesActivated := u64 (s.pagesActivated + 1) })
    else
      let s := s.writeBack page
      if s.refCount page = 0 then do
        let s ← s.del page
        let s := (s.initHead page).decrement .inactive
        let s :=
          { s with
            pmm := pmmFreeFrame s.pmm (s.physAddr page)
            freed := s.physAddr page :: s.freed
            pagesReclaimed := u64 (s.pagesReclaimed + 1) }
        some (u32 (nrReclaimed + 1), s)
      else
        some (nrReclaimed, s)

/-- `shrink_inactive_list` -/
def shrinkInactiveList : PageReclaim → ℕ → Option (ℕ × PageReclaim) :=
  shrinkList .inactive shrinkInactiveVisit

/-- `try_to_free_pages` -/
def tryToFreePages (s : PageReclaim) (nrPages : ℕ) : Option (ℕ × PageReclaim) :=
  if !s.initialized then some (0, s)
  else do
    let (_, s) ← shrinkActiveList s (u32 (nrPages * 2))
    let (totalFreed, s) ← shrinkInactiveList s nrPages
    if totalFreed < nrPages then do
      let (nrFreed, s) ← shrinkInactiveList s (sub32 nrPages totalFreed)
      some (u32 (totalFreed + nrFreed), s)
    else
      some (totalFreed, s)

/-! ## The two lists -/

/-- The links are two circular lists of distinct pages, and a page on neither is
linked to itself, except for a page that is being moved. -/
structure Linked (L : Links LruNode) (lists : LruList → List ℕ) (moving : Option ℕ) : Prop where
  ring : ∀ which, L.Ring (.list which) ((lists which).map .page)
  disjoint : ∀ {which other page}, page ∈ lists which → page ∈ lists other → which = other
  alone : ∀ page, page < maxPages → (∀ which, page ∉ lists which) → some page ≠ moving →
    L.Ring (.page page) []
  bounded : ∀ {which page}, page ∈ lists which → page < maxPages

variable {lists : LruList → List ℕ} {which : LruList} {page : ℕ} {front back : List ℕ}
    {s : PageReclaim}

variable {L' : Links LruNode}

namespace Linked

variable {L : Links LruNode} {moving : Option ℕ}

theorem nodup (linked : Linked L lists moving) (which : LruList) : (lists which).Nodup :=
  List.Nodup.of_map _ (linked.ring which).members_nodup

/-- A list of page numbers is no longer than the descriptor array. -/
theorem length_le (linked : Linked L lists moving) (which : LruList) :
    (lists which).length ≤ maxPages := by
  have inside : lists which ⊆ List.range maxPages := by
    intro page mem
    exact mem_range.mpr (linked.bounded mem)
  simpa using (subperm_of_subset (linked.nodup which) inside).length_le

/-- An edit of one list that leaves the links alone of everything but its head and the
pages `touched`; a page that it takes off the list is then on its way. -/
theorem edit {which : LruList} {members touched : List ℕ} {moving' : Option ℕ}
    (linked : Linked L lists moving) (ring : L'.Ring (.list which) (members.map .page))
    (same : ∀ x, x ∉ LruNode.list which :: touched.map .page → SameLinks L L' x)
    (fresh : ∀ q ∈ touched, ∀ l, l ≠ which → q ∉ lists l) (inside : members ⊆ touched)
    (old : lists which ⊆ touched) (gone : ∀ q ∈ touched, q ∉ members → some q = moving')
    (moved : ∀ q, some q = moving → q ∈ members) (bounded : ∀ q ∈ touched, q < maxPages) :
    Linked L' (update lists which members) moving' := by
  have unchanged : ∀ q, q ∉ touched → SameLinks L L' (.page q) := fun q outside =>
    same _ (by simpa using outside)
  refine ⟨fun l => ?_, fun {l l' q} first second => ?_, fun q below outside other => ?_,
    fun {l q} mem => ?_⟩
  · by_cases here : l = which
    · subst here
      rwa [update_self]
    rw [update_of_ne here]
    refine (linked.ring l).of_sameLinks fun x mem => ?_
    rcases mem_cons.mp mem with rfl | mem
    · exact same _ (by simp [here])
    · obtain ⟨q, there, rfl⟩ := mem_map.mp mem
      exact unchanged q fun shared => fresh q shared l here there
  · by_cases here : l = which <;> by_cases here' : l' = which
    · rw [here, here']
    · subst here
      rw [update_self] at first
      rw [update_of_ne here'] at second
      exact absurd second (fresh q (inside first) l' here')
    · subst here'
      rw [update_self] at second
      rw [update_of_ne here] at first
      exact absurd first (fresh q (inside second) l here)
    · rw [update_of_ne here] at first
      rw [update_of_ne here'] at second
      exact linked.disjoint first second
  · have away := outside which
    rw [update_self] at away
    have untouched : q ∉ touched := fun shared => other (gone q shared away)
    refine (linked.alone q below (fun l there => ?_) fun going => away (moved q going)).of_sameLinks
      fun x self => ?_
    · by_cases here : l = which
      · exact untouched (old (here ▸ there))
      · exact outside l (by rwa [update_of_ne here])
    · obtain rfl : x = .page q := by simpa using self
      exact unchanged q untouched
  · by_cases here : l = which
    · subst here
      rw [update_self] at mem
      exact bounded q (inside mem)
    · rw [update_of_ne here] at mem
      exact linked.bounded mem

/-- The pages of the lists without one are on the lists. -/
theorem mem_of_mem_taken {which l : LruList} {page q : ℕ} {front back : List ℕ}
    (at_page : lists which = front ++ page :: back)
    (mem : q ∈ update lists which (front ++ back) l) : q ∈ lists l := by
  by_cases here : l = which
  · subst here
    rw [update_self] at mem
    rw [at_page]
    simp only [mem_append, mem_cons] at mem ⊢
    tauto
  · rwa [update_of_ne here] at mem

/-- Taking a page that is on a list off it. -/
theorem del (linked : Linked L lists none) {which : LruList} {page : ℕ} {front back : List ℕ}
    (at_page : lists which = front ++ page :: back) :
    ∃ L', listDel .null L (.page page) = some L' ∧
      Linked L' (update lists which (front ++ back)) (some page) ∧
      ∀ l, page ∉ update lists which (front ++ back) l := by
  have on_ring : L.Ring (.list which) (front.map .page ++ .page page :: back.map .page) := by
    simpa [at_page] using linked.ring which
  have nonnull : LruNode.null ∉ .list which :: (front.map .page ++ back.map .page) := by simp
  obtain ⟨L', result, ring', same⟩ := listDel_spec on_ring nonnull
  have nodup := linked.nodup which
  rw [at_page] at nodup
  have absent : page ∉ front ++ back := (nodup_cons.mp (nodup_middle.mp nodup)).1
  have mem : page ∈ lists which := by simp [at_page]
  refine ⟨L', result, linked.edit (by simpa using ring')
    (fun x outside => same x (by simpa [at_page] using outside))
    (fun q there l other shared => other (linked.disjoint shared there)) ?_ (fun _ => id) ?_
    nofun fun q => linked.bounded, fun l inside => ?_⟩
  · intro q there
    rw [at_page]
    simp only [mem_append, mem_cons] at there ⊢
    tauto
  · intro q there outside
    rw [at_page] at there
    simp only [mem_append, mem_cons] at there outside
    tauto
  · obtain rfl : l = which := linked.disjoint (mem_of_mem_taken at_page inside) mem
    rw [update_self] at inside
    exact absent inside

/-- Putting a page that is on no list at the head of one. -/
theorem add (linked : Linked L lists moving) {page : ℕ} (below : page < maxPages)
    (off : ∀ l, page ∉ lists l) (only : ∀ q, moving = some q → q = page) (which : LruList) :
    ∃ L', listAdd .null L (.page page) (.list which) = some L' ∧
      Linked L' (update lists which (page :: lists which)) none := by
  have fresh : LruNode.page page ∉ LruNode.list which :: (lists which).map .page := by
    simpa using off which
  have no_null : LruNode.null ∉ LruNode.list which :: (lists which).map .page := by simp
  obtain ⟨L', result, ring', same⟩ := listAdd_spec (linked.ring which) no_null fresh
  refine ⟨L', result, linked.edit ring' (fun x outside => same x ?_) ?_ (fun _ => id)
    (fun _ => mem_cons_of_mem page) (fun q there outside => absurd there outside) ?_ ?_⟩
  · simp only [map_cons, mem_cons] at outside ⊢
    tauto
  · intro q there l other shared
    rcases mem_cons.mp there with rfl | there
    · exact off l shared
    · exact other (linked.disjoint shared there)
  · intro q going
    rw [only q going.symm]
    exact mem_cons_self
  · exact forall_mem_cons.mpr ⟨below, fun q there => linked.bounded there⟩

/-- Linking a page that was taken off its list to itself. -/
theorem settle (linked : Linked L lists (some page)) (off : ∀ l, page ∉ lists l) :
    Linked (initListHead L (.page page)) lists none := by
  refine ⟨?_, linked.disjoint, ?_, linked.bounded⟩
  · intro l
    refine (linked.ring l).of_sameLinks ?_
    intro x inside
    apply initListHead_sameLinks
    rintro rfl
    exact off l (by simpa using inside)
  · intro q below outside _
    by_cases same : q = page
    · subst same
      exact initListHead_ring L _
    · refine (linked.alone q below outside (by simpa using same)).of_sameLinks ?_
      intro x inside
      obtain rfl : x = .page q := by simpa using inside
      exact initListHead_sameLinks (by simpa using same)

/-- `list_empty` on a page's own link tells whether the page is on a list. -/
theorem listEmpty_iff (linked : Linked L lists none) (below : page < maxPages) :
    listEmpty L (.page page) = true ↔ ∀ l, page ∉ lists l := by
  constructor
  · intro empty l mem
    obtain ⟨front, back, at_page⟩ := append_of_mem mem
    have on_ring : L.Ring (.list l) (front.map .page ++ .page page :: back.map .page) := by
      simpa [at_page] using linked.ring l
    have next : L.next (.page page) = .page page := by simpa [listEmpty] using empty
    rw [on_ring.next_mem] at next
    -- the successor would be the head of the list, or a second occurrence of the page
    cases back with
    | nil => simp at next
    | cons q rest =>
      obtain rfl : q = page := by simpa using next
      have nodup := linked.nodup l
      rw [at_page] at nodup
      exact (nodup_cons.mp (nodup_middle.mp nodup)).1 (by simp)
  · intro nowhere
    have next := (linked.alone page below nowhere (by simp)).next_head
    simpa [listEmpty] using next

end Linked

/-! ## The invariant -/

/-- **The LRU invariant**: the links are two lists, the counters are their
lengths, and the active flag of a page on a list says which list it is. -/
structure Represents (s : PageReclaim) (lists : LruList → List ℕ) : Prop where
  initialized : s.initialized = true
  linked : Linked s.links lists none
  counts : ∀ which, s.count which = (lists which).length
  flagged : ∀ {which page}, page ∈ lists which →
    (s.test page pageFlagActive = true ↔ which = .active)

/-- The call returns, with sound lists. -/
def Keeps (result : Option PageReclaim) : Prop :=
  ∃ s', result = some s' ∧ ∃ lists, Represents s' lists

/-- The lists after taking a page off `which` and putting it at the head of
`dest`. -/
def movedTo (lists : LruList → List ℕ) (which dest : LruList) (front back : List ℕ) (page : ℕ) :
    LruList → List ℕ :=
  let taken := update lists which (front ++ back)
  update taken dest (page :: taken dest)

section

open PageReclaim

@[simp] theorem PageReclaim.count_withLinks (L : Links LruNode) :
    (s.withLinks L).count = s.count := rfl

@[simp] theorem PageReclaim.count_clearFlag (page : ℕ) (mask : BitVec 32) :
    (s.clearFlag page mask).count = s.count := rfl

@[simp] theorem PageReclaim.count_increment (l : LruList) :
    (s.increment l).count = update s.count l (u32 (s.count l + 1)) := rfl

@[simp] theorem PageReclaim.count_decrement (l : LruList) :
    (s.decrement l).count = update s.count l (sub32 (s.count l) 1) := rfl

@[simp] theorem PageReclaim.test_withLinks (L : Links LruNode) (q : ℕ) (flag : BitVec 32) :
    (s.withLinks L).test q flag = s.test q flag := rfl

@[simp] theorem PageReclaim.test_increment (l : LruList) (q : ℕ) (flag : BitVec 32) :
    (s.increment l).test q flag = s.test q flag := by
  rfl

@[simp] theorem PageReclaim.test_scanned (q : ℕ) (flag : BitVec 32) :
    s.scanned.test q flag = s.test q flag := rfl

variable {q : ℕ} {mask : BitVec 32} {s' : PageReclaim}

variable {flag : BitVec 32} {dest : LruList}

/-- Setting a flag leaves the other flags of every page alone. -/
theorem PageReclaim.test_setFlag (apart : mask &&& flag = 0) (q : ℕ) :
    (s.setFlag page mask).test q flag = s.test q flag := by
  by_cases same : q = page
  · subst same
    simpa [PageReclaim.test, PageReclaim.setFlag] using hasFlag_set_of_apart apart
  · simp [PageReclaim.test, PageReclaim.setFlag, same]

/-- Clearing a flag leaves the other flags of every page alone. -/
theorem PageReclaim.test_clearFlag (apart : mask &&& flag = 0) (q : ℕ) :
    (s.clearFlag page mask).test q flag = s.test q flag := by
  by_cases same : q = page
  · subst same
    simpa [PageReclaim.test, PageReclaim.clearFlag] using hasFlag_clear_of_apart apart
  · simp [PageReclaim.test, PageReclaim.clearFlag, same]

theorem active_set (word : BitVec 32) : hasFlag (word ||| pageFlagActive) pageFlagActive = true :=
  hasFlag_set_self (by decide)

theorem PageReclaim.test_clearFlag_self (mask : BitVec 32) :
    (s.clearFlag page mask).test page mask = false := by
  simpa [PageReclaim.test, PageReclaim.clearFlag] using hasFlag_clear_self _ _

theorem PageReclaim.add_eq (stores : listAdd .null s.links (.page page) (.list which) = some L') :
    s.add page which = some (s.withLinks L') := by
  rw [PageReclaim.add, stores, Option.map_some]

/-- `list_del` and `list_add`, one after the other. -/
def PageReclaim.Relinks (s : PageReclaim) (page : ℕ) (dest : LruList) (L' : Links LruNode) : Prop :=
  ∃ mid, listDel .null s.links (.page page) = some mid ∧
    listAdd .null mid (.page page) (.list dest) = some L'

theorem PageReclaim.Relinks.eq {β : Type}
    (relinks : s.Relinks page dest L') (edit : PageReclaim → PageReclaim)
    (apart : ∀ L, edit (s.withLinks L) = (edit s).withLinks L) (rest : PageReclaim → Option β) :
    (s.del page >>= fun s => (edit s).add page dest >>= rest) = rest ((edit s).withLinks L') := by
  obtain ⟨mid, del_eq, add_eq⟩ := relinks
  have added : (edit (s.withLinks mid)).add page dest = some ((edit s).withLinks L') := by
    rw [apart]
    exact PageReclaim.add_eq add_eq
  rw [PageReclaim.del, del_eq]
  exact congrArg (· >>= rest) added

section

variable (rep : Represents s lists)
include rep

/-- The invariant only looks at the links, the counters and the active flags. -/
theorem Represents.congr (initialized : s'.initialized = s.initialized)
    (links : s'.links = s.links) (count : s'.count = s.count)
    (active : ∀ q, s'.test q pageFlagActive = s.test q pageFlagActive) : Represents s' lists := by
  refine ⟨by rw [initialized, rep.initialized], by rw [links]; exact rep.linked, ?_, ?_⟩
  · intro l
    rw [count]
    exact rep.counts l
  · intro l q mem
    rw [active]
    exact rep.flagged mem

/-- For a page on a list, the flag names that list. -/
theorem Represents.flaggedList_eq (mem : page ∈ lists which) : s.flaggedList page = which := by
  have flagged := rep.flagged mem
  unfold PageReclaim.flaggedList
  cases which with
  | active => simp [flagged.mpr rfl]
  | inactive =>
    have off : s.test page pageFlagActive ≠ true := fun set => by simpa using flagged.mp set
    simp [off]

theorem Represents.detached_iff (below : page < maxPages) :
    s.detached page = true ↔ ∀ l, page ∉ lists l :=
  rep.linked.listEmpty_iff below

theorem Represents.count_lt (l : LruList) : s.count l < 2 ^ 32 - 1 := by
  have bound := rep.linked.length_le l
  rw [rep.counts]
  unfold maxPages at bound
  omega

/-- `list_del` followed by `list_add`, on a page that is on a list. -/
theorem Represents.move (at_page : lists which = front ++ page :: back) (dest : LruList) :
    ∃ L', s.Relinks page dest L' ∧ Linked L' (movedTo lists which dest front back page) none := by
  obtain ⟨mid, del_eq, linked, off⟩ := rep.linked.del at_page
  have below : page < maxPages := rep.linked.bounded (by rw [at_page]; simp)
  obtain ⟨L', add_eq, linked'⟩ := linked.add below off (by simp [eq_comm]) dest
  exact ⟨L', ⟨mid, del_eq, add_eq⟩, linked'⟩

end

/-- Every page but the one that moved is where it was. -/
theorem mem_of_mem_movedTo {l : LruList} (at_page : lists which = front ++ page :: back)
    (other : q ≠ page) (mem : q ∈ movedTo lists which dest front back page l) : q ∈ lists l := by
  have kept : q ∈ update lists which (front ++ back) l := by
    by_cases there : l = dest
    · subst there
      simpa [movedTo, other] using mem
    · rwa [movedTo, update_of_ne there] at mem
  exact Linked.mem_of_mem_taken at_page kept

section

variable (rep : Represents s lists) (at_page : lists which = front ++ page :: back)
include rep at_page

/-- What is left to check after a move: the counters, and the active flag of the
page that moved. -/
theorem Represents.of_move
    (linked : Linked s'.links (movedTo lists which dest front back page) none)
    (initialized : s'.initialized = s.initialized)
    (counts : ∀ l, s'.count l = (movedTo lists which dest front back page l).length)
    (others : ∀ q, q ≠ page → s'.flags q = s.flags q)
    (moved : s'.test page pageFlagActive = true ↔ dest = .active) :
    Represents s' (movedTo lists which dest front back page) := by
  refine ⟨by rw [initialized, rep.initialized], linked, counts, ?_⟩
  intro l q mem
  have on_dest : page ∈ movedTo lists which dest front back page dest := by simp [movedTo]
  by_cases same : q = page
  · subst same
    obtain rfl : l = dest := linked.disjoint mem on_dest
    exact moved
  · rw [PageReclaim.test, others q same]
    exact rep.flagged (mem_of_mem_movedTo at_page same mem)

/-- Decrementing the counter of the list that was left. -/
theorem Represents.count_taken (l : LruList) :
    update s.count which (sub32 (s.count which) 1) l =
      (update lists which (front ++ back) l).length := by
  by_cases here : l = which
  · subst here
    have count := rep.counts l
    have small := rep.count_lt l
    rw [at_page, length_append, length_cons] at count
    rw [update_self, update_self, sub32_of_le (by omega) (by omega), count, length_append]
    omega
  · rw [update_of_ne here, update_of_ne here]
    exact rep.counts l

/-- Decrementing one counter and incrementing the other. -/
theorem Represents.count_moved (dest l : LruList) :
    ((s.decrement which).increment dest).count l =
      (movedTo lists which dest front back page l).length := by
  have taken := rep.count_taken at_page
  have small : update s.count which (sub32 (s.count which) 1) dest < 2 ^ 32 - 1 := by
    have bound := rep.count_lt dest
    by_cases here : dest = which
    · subst here
      have count := rep.counts dest
      rw [at_page, length_append, length_cons] at count
      rw [update_self, sub32_of_le (by omega) (by omega)]
      omega
    · rwa [update_of_ne here]
  simp only [count_increment, count_decrement, movedTo]
  by_cases there : l = dest
  · subst there
    rw [update_self, update_self, u32_of_lt (by omega), taken, length_cons]
  · rw [update_of_ne there, update_of_ne there]
    exact taken l

/-- Moving a page with both counters adjusted: what is left to check is the active flag
in the page's new flags. -/
theorem Represents.transfer (dest : LruList) :
    ∃ L', s.Relinks page dest L' ∧
      ∀ (s' : PageReclaim) (word : BitVec 32), s'.links = L' → s'.initialized = s.initialized →
        s'.count = ((s.decrement which).increment dest).count →
        s'.flags = update s.flags page word →
        (hasFlag word pageFlagActive = true ↔ dest = .active) →
        Represents s' (movedTo lists which dest front back page) := by
  obtain ⟨L', relinks, linked⟩ := rep.move at_page dest
  refine ⟨L', relinks, fun s' word links initialized counts flags active => ?_⟩
  refine rep.of_move at_page (links ▸ linked) initialized (fun l => ?_) (fun q other => ?_) ?_
  · rw [counts]
    exact rep.count_moved at_page dest l
  · rw [flags, update_of_ne other]
  · rwa [PageReclaim.test, flags, update_self]

end

/-! ### One call -/

section

variable (rep : Represents s lists)
include rep

theorem Represents.detached_eq_false (mem : page ∈ lists which) : s.detached page = false := by
  rw [Bool.eq_false_iff]
  intro detached
  exact (rep.detached_iff (rep.linked.bounded mem)).mp detached which mem

theorem lruAddDescriptor_keeps (below : page < maxPages) : Keeps (lruAddDescriptor s page) := by
  by_cases on : ∃ l, page ∈ lists l
  · obtain ⟨which, mem⟩ := on
    obtain ⟨front, back, at_page⟩ := append_of_mem mem
    obtain ⟨L', relinks, moved⟩ := rep.transfer at_page .inactive
    have result : lruAddDescriptor s page =
        some ((((s.decrement which).withLinks L').clearFlag page pageFlagActive).increment
          .inactive) := by
      simp only [lruAddDescriptor, rep.detached_eq_false mem, rep.flaggedList_eq mem]
      exact (Option.bind_map ..).trans (relinks.eq (·.decrement which) (fun _ => rfl) _)
    exact ⟨_, result, _, moved _ _ rfl rfl rfl rfl (by simp [hasFlag_clear_self])⟩
  · have off : ∀ l, page ∉ lists l := fun l mem => on ⟨l, mem⟩
    obtain ⟨L', add_eq, linked⟩ := rep.linked.add below off (by simp) .inactive
    have result : lruAddDescriptor s page =
        some (((s.withLinks L').clearFlag page pageFlagActive).increment .inactive) := by
      simp only [lruAddDescriptor, (rep.detached_iff below).mpr off]
      show s.add page .inactive >>= _ = _
      rw [PageReclaim.add_eq add_eq]
      rfl
    refine ⟨_, result, _, rep.initialized, linked, ?_, ?_⟩
    · intro l
      cases l with
      | active => exact rep.counts .active
      | inactive =>
        have small := rep.count_lt .inactive
        simp only [count_increment, count_clearFlag, count_withLinks, update_self, length_cons]
        rw [u32_of_lt (by omega), rep.counts]
    · intro l q mem
      by_cases same : q = page
      · subst same
        obtain rfl : l = .inactive := linked.disjoint mem (by simp)
        simp [test_clearFlag_self]
      have old : q ∈ lists l := by
        cases l with
        | active => exact mem
        | inactive => simpa [same] using mem
      have unchanged : (s.clearFlag page pageFlagActive).test q pageFlagActive =
          s.test q pageFlagActive := by
        simp [PageReclaim.test, PageReclaim.clearFlag, same]
      exact unchanged ▸ rep.flagged old

/-- Taking a page off its list for good: unlinked, linked to itself, and the
counter of its list adjusted. -/
theorem Represents.retire (at_page : lists which = front ++ page :: back) :
    ∃ mid, s.del page = some mid ∧
      Represents ((mid.initHead page).decrement which) (update lists which (front ++ back)) := by
  obtain ⟨mid, del_eq, linked, off⟩ := rep.linked.del at_page
  refine ⟨s.withLinks mid, by rw [PageReclaim.del, del_eq, Option.map_some], rep.initialized,
    linked.settle off, rep.count_taken at_page, ?_⟩
  exact fun mem => rep.flagged (Linked.mem_of_mem_taken at_page mem)

theorem lruRemoveDescriptor_keeps (below : page < maxPages) :
    Keeps (lruRemoveDescriptor s page) := by
  by_cases on : ∃ l, page ∈ lists l
  · obtain ⟨which, mem⟩ := on
    obtain ⟨front, back, at_page⟩ := append_of_mem mem
    obtain ⟨mid, del_eq, rep'⟩ := rep.retire at_page
    refine ⟨_, ?_, _, rep'⟩
    simp [lruRemoveDescriptor, rep.detached_eq_false mem, rep.flaggedList_eq mem, del_eq]
  · have off : ∀ l, page ∉ lists l := fun l mem => on ⟨l, mem⟩
    exact ⟨s, by simp [lruRemoveDescriptor, (rep.detached_iff below).mpr off], lists, rep⟩

/-- Setting any flag but the active one. -/
theorem Represents.setFlag (page : ℕ)
    (apart : mask &&& pageFlagActive = 0) : Represents (s.setFlag page mask) lists :=
  rep.congr rfl rfl rfl fun q => test_setFlag apart q

/-- Clearing any flag but the active one. -/
theorem Represents.clearFlag (page : ℕ)
    (apart : mask &&& pageFlagActive = 0) : Represents (s.clearFlag page mask) lists :=
  rep.congr rfl rfl rfl fun q => test_clearFlag apart q

/-- A page off the active list does not carry the active flag. -/
theorem Represents.test_active_eq_false
    (mem : page ∈ lists .inactive) : s.test page pageFlagActive = false := by
  rw [Bool.eq_false_iff]
  intro set
  simpa using (rep.flagged mem).mp set

theorem markDescriptorAccessed_keeps (below : page < maxPages) :
    Keeps (markDescriptorAccessed s page) := by
  have apart : pageFlagAccessed &&& pageFlagActive = 0 := by decide
  have marked := rep.setFlag page apart
  by_cases inactive : page ∈ lists .inactive
  · obtain ⟨front, back, at_page⟩ := append_of_mem inactive
    obtain ⟨L', relinks, moved⟩ := marked.transfer at_page .active
    have result : markDescriptorAccessed s page =
        some
          { ((((s.setFlag page pageFlagAccessed).withLinks L').decrement .inactive).setFlag page
              pageFlagActive).increment .active with
            pagesActivated := u64 (s.pagesActivated + 1) } := by
      simp only [markDescriptorAccessed, marked.test_active_eq_false inactive,
        marked.detached_eq_false inactive, Bool.not_false, Bool.and_self, if_true]
      exact relinks.eq (·.decrement .inactive) (fun _ => rfl) _
    exact ⟨_, result, _, moved _ _ rfl rfl rfl rfl (by simp [active_set])⟩
  · refine ⟨_, if_neg ?_, lists, marked⟩
    -- a page that does not carry the active flag is not on the active list either
    intro condition
    obtain ⟨unset, on⟩ : (s.setFlag page pageFlagAccessed).test page pageFlagActive = false ∧
        (s.setFlag page pageFlagAccessed).detached page = false := by simpa using condition
    have off : ∀ l, page ∉ lists l := by
      intro l mem
      cases l with
      | active => simp [(marked.flagged mem).mpr rfl] at unset
      | inactive => exact inactive mem
    simp [(marked.detached_iff below).mpr off] at on

end

/-! ### The walk -/

/-- What a visit may do to the list being walked: leave the page where it is,
take it off, or, if it was marked accessed, unmark it and put it at the head.
Other pages keep their flags. -/
def VisitEffect (which : LruList) (page : ℕ) (front back : List ℕ) (s s' : PageReclaim)
    (lists' : LruList → List ℕ) : Prop :=
  (∀ q, q ≠ page → s'.flags q = s.flags q) ∧
    ((lists' which = front ++ page :: back ∧
        (s'.test page pageFlagAccessed = true → s.test page pageFlagAccessed = true)) ∨
      lists' which = front ++ back ∨
      (lists' which = page :: (front ++ back) ∧
        s.test page pageFlagAccessed = true ∧ s'.test page pageFlagAccessed = false))

/-- The pages of a list that are marked accessed. -/
def accessedIn (s : PageReclaim) (pages : List ℕ) : ℕ :=
  pages.countP fun q => s.test q pageFlagAccessed

/-- The node a walk stands at when the pages `front` are still ahead of it. -/
def walkNode (which : LruList) (front : List ℕ) : LruNode :=
  (front.map LruNode.page).getLastD (.list which)

theorem walkNode_concat (which : LruList) (front : List ℕ) (page : ℕ) :
    walkNode which (front ++ [page]) = .page page := by
  simp [walkNode]

theorem walkNode_ne_null (which : LruList) (front : List ℕ) : walkNode which front ≠ .null := by
  rcases eq_nil_or_concat' front with rfl | ⟨init, page, rfl⟩
  · simp [walkNode]
  · simp [walkNode_concat]

theorem Represents.prev_walkNode (rep : Represents s lists)
    (at_page : lists which = front ++ page :: back) :
    s.links.prev (.page page) = walkNode which front := by
  have ring := rep.linked.ring which
  rw [at_page, map_append, map_cons] at ring
  exact ring.prev_mem

/-- After a visit the walk stands at the page before, and its rank has gone
down. -/
theorem VisitEffect.rank {lists' : LruList → List ℕ} (nodup : (front ++ page :: back).Nodup)
    (effect : VisitEffect which page front back s s' lists') :
    ∃ front' back', lists' which = front' ++ back' ∧
      walkNode which front' = walkNode which front ∧
      front'.length + accessedIn s' (front' ++ back') <
        front.length + 1 + accessedIn s (front ++ page :: back) := by
  obtain ⟨others, kept⟩ := effect
  have absent : page ∉ front ++ back := (nodup_cons.mp (nodup_middle.mp nodup)).1
  have same : accessedIn s' (front ++ back) = accessedIn s (front ++ back) := by
    refine countP_congr ?_
    intro q mem
    have other : q ≠ page := ne_of_mem_of_not_mem mem absent
    simp [PageReclaim.test, others q other]
  have split : ∀ t : PageReclaim, accessedIn t (front ++ page :: back) =
      accessedIn t (front ++ back) + if t.test page pageFlagAccessed then 1 else 0 := by
    simp only [accessedIn, countP_append, countP_cons]
    omega
  rw [split s]
  rcases kept with ⟨stays, unmarked⟩ | gone | ⟨moved, was, now⟩
  · refine ⟨front, page :: back, stays, rfl, ?_⟩
    have fewer : (if s'.test page pageFlagAccessed then 1 else 0) ≤
        if s.test page pageFlagAccessed then 1 else 0 := by
      cases now : s'.test page pageFlagAccessed with
      | false => simp
      | true => simp [unmarked now]
    rw [split s', same]
    omega
  · refine ⟨front, back, gone, rfl, ?_⟩
    omega
  · have unmarked : accessedIn s' (page :: (front ++ back)) = accessedIn s (front ++ back) := by
      rw [← same]
      simp [accessedIn, now]
    rw [was]
    by_cases last : front = []
    · subst last
      refine ⟨[], page :: back, moved, rfl, ?_⟩
      simp only [nil_append] at unmarked ⊢
      omega
    · obtain ⟨init, q, rfl⟩ := (eq_nil_or_concat' front).resolve_left last
      refine ⟨page :: (init ++ [q]), back, by simpa using moved, ?_, ?_⟩
      · rw [← cons_append, walkNode_concat, walkNode_concat]
      · rw [cons_append, unmarked]
        simp

/-- **The rule for a shrinking walk.**  If every visit of a page of the list
keeps `Inv` (an invariant over the counter, the state and its lists that
includes `Represents`) and does no more to the list than `VisitEffect` allows,
then the walk ends, and `Inv` holds when it does. -/
theorem shrinkList_rule {visit : ℕ → ℕ × PageReclaim → Option (ℕ × PageReclaim)} {nrToScan : ℕ}
    (Inv : ℕ → PageReclaim → (LruList → List ℕ) → Prop)
    (represents : ∀ {nr s lists}, Inv nr s lists → Represents s lists)
    (visits : ∀ {nr s lists page front back}, Inv nr s lists → nr < nrToScan →
      lists which = front ++ page :: back →
        ∃ nr' s' lists', visit page (nr, s) = some (nr', s') ∧ Inv nr' s' lists' ∧
          VisitEffect which page front back s s' lists') (start : Inv 0 s lists) :
    ∃ nr s' lists', shrinkList which visit s nrToScan = some (nr, s') ∧ Inv nr s' lists' := by
  have rep := represents start
  have at_tail : s.links.prev (.list which) = walkNode which (lists which) :=
    (rep.linked.ring which).prev_head
  -- the rank of a walk state: the pages ahead, plus the pages marked accessed
  have walked := loop_ranked (shrinkPass which visit nrToScan)
    (fun k w => ∃ nr lru lists front back,
      w = ⟨walkNode which front, lru.links.prev (walkNode which front), nr, lru⟩ ∧
      Inv nr lru lists ∧ lists which = front ++ back ∧
      k = front.length + accessedIn lru (front ++ back))
    (fun r => ∃ lists, Inv r.1 r.2 lists)
    ?pass (2 ^ 32) _
      ⟨walkNode which (lists which), s.links.prev (walkNode which (lists which)), 0, s⟩
    ⟨0, s, lists, lists which, [], rfl, start, by simp, rfl⟩ ?enough
  case pass =>
    rintro _ _ ⟨nr, lru, lists, front, back, rfl, inv, split, rfl⟩
    rcases eq_nil_or_concat' front with rfl | ⟨ahead, page, rfl⟩
    · exact Or.inr ⟨(nr, lru), by simp [shrinkPass, walkNode], lists, inv⟩
    by_cases more : nr < nrToScan
    · have at_page : lists which = ahead ++ page :: back := by simpa using split
      obtain ⟨nr', lru', lists', visit_eq, inv', effect⟩ := visits inv more at_page
      have rep := represents inv
      have nodup := rep.linked.nodup which
      rw [at_page] at nodup
      obtain ⟨front', back', split', node, smaller⟩ := effect.rank nodup
      refine Or.inl ⟨_, _, ?_, ?_, nr', lru', lists', front', back', rfl, inv', split', rfl⟩
      · simp [shrinkPass, walkNode_concat, visit_eq, Nat.not_le.mpr more,
          rep.prev_walkNode at_page, walkNode_ne_null, node]
      · simpa using smaller
    · refine Or.inr ⟨(nr, lru), ?_, lists, inv⟩
      simp [shrinkPass, walkNode_concat, Nat.not_lt.mp more]
  case enough =>
    have length := rep.linked.length_le which
    have marked : accessedIn s (lists which ++ []) ≤ (lists which ++ []).length :=
      countP_le_length
    rw [append_nil] at marked
    simp only [append_nil]
    unfold maxPages at length
    omega
  obtain ⟨⟨nr, s'⟩, result, lists', inv⟩ := walked
  refine ⟨nr, s', lists', ?_, inv⟩
  simp only [shrinkList, rep.initialized, at_tail, Bool.not_true, walkNode_ne_null, if_false]
  exact result

theorem Represents.scanned (rep : Represents s lists) : Represents s.scanned lists :=
  rep.congr rfl rfl rfl fun _ => rfl

theorem PageReclaim.clearFlag_flags_of_ne (other : q ≠ page) (mask : BitVec 32) :
    (s.clearFlag page mask).flags q = s.flags q :=
  update_of_ne other _ _

/-- A visit of `shrink_active_list`: a locked page stays, a page marked accessed
gets its second chance, any other page goes to the inactive list. -/
theorem shrinkActiveVisit_effect (rep : Represents s lists)
    (at_page : lists .active = front ++ page :: back) (nr : ℕ) :
    ∃ nr' s' lists', shrinkActiveVisit page (nr, s) = some (nr', s') ∧ Represents s' lists' ∧
      VisitEffect .active page front back s s' lists' := by
  cases locked : s.test page pageFlagLocked with
  | true =>
    refine ⟨nr, s.scanned, lists, by simp [shrinkActiveVisit, locked], rep.scanned, ?_⟩
    exact ⟨fun _ _ => rfl, Or.inl ⟨at_page, id⟩⟩
  | false =>
    cases accessed : s.test page pageFlagAccessed with
    | true =>
      have apart : pageFlagAccessed &&& pageFlagActive = 0 := by decide
      have cleared := rep.scanned.clearFlag page apart
      obtain ⟨L', relinks, linked⟩ := cleared.move at_page .active
      have result : shrinkActiveVisit page (nr, s) =
          some (nr, (s.scanned.clearFlag page pageFlagAccessed).withLinks L') := by
        simp only [shrinkActiveVisit, test_scanned, locked, accessed, if_true,
          Bool.false_eq_true, if_false]
        exact relinks.eq id (fun _ => rfl) _
      refine ⟨_, _, _, result, cleared.of_move at_page linked rfl ?_ (fun _ _ => rfl) ?_, ?_⟩
      · intro l
        rw [count_withLinks, cleared.counts]
        cases l with
        | active => simp [movedTo, at_page]; omega
        | inactive => rfl
      · have mem : page ∈ lists .active := by simp [at_page]
        rw [test_withLinks, cleared.flagged mem]
      · refine ⟨?_, Or.inr (Or.inr ⟨by simp [movedTo], accessed, ?_⟩)⟩
        · intro q other
          exact clearFlag_flags_of_ne other _
        · exact test_clearFlag_self _
    | false =>
      obtain ⟨L', relinks, moved⟩ := rep.scanned.transfer at_page .inactive
      have result : shrinkActiveVisit page (nr, s) =
          some (u32 (nr + 1),
            { (((s.scanned.withLinks L').clearFlag page pageFlagActive).decrement
                .active).increment .inactive with
              pagesDeactivated := u64 (s.pagesDeactivated + 1) }) := by
        simp only [shrinkActiveVisit, test_scanned, locked, accessed, Bool.false_eq_true, if_false]
        exact relinks.eq id (fun _ => rfl) _
      exact ⟨_, _, _, result, moved _ _ rfl rfl rfl rfl (by simp [hasFlag_clear_self]),
        fun q other => update_of_ne other _ _, Or.inr (Or.inl (by simp [movedTo]))⟩

theorem Represents.writeBack (rep : Represents s lists) (page : ℕ) :
    Represents (s.writeBack page) lists := by
  unfold PageReclaim.writeBack
  split
  · exact rep.clearFlag page (by decide)
  · exact rep

theorem PageReclaim.writeBack_flags_of_ne (other : q ≠ page) :
    (s.writeBack page).flags q = s.flags q := by
  unfold PageReclaim.writeBack
  split
  · exact clearFlag_flags_of_ne other _
  · rfl

theorem PageReclaim.test_writeBack (q : ℕ) :
    (s.writeBack page).test q pageFlagAccessed = s.test q pageFlagAccessed := by
  unfold PageReclaim.writeBack
  split
  · exact test_clearFlag (by decide) q
  · rfl

/-- A visit of `shrink_inactive_list`: a locked, reserved or referenced page
stays, a page marked accessed goes to the active list, any other page is
reclaimed. -/
theorem shrinkInactiveVisit_effect (rep : Represents s lists)
    (at_page : lists .inactive = front ++ page :: back) (nr : ℕ) :
    ∃ nr' s' lists', shrinkInactiveVisit page (nr, s) = some (nr', s') ∧ Represents s' lists' ∧
      VisitEffect .inactive page front back s s' lists' := by
  cases pinned : s.test page pageFlagLocked || s.test page pageFlagReserved with
  | true =>
    refine ⟨nr, s.scanned, lists, by simp [shrinkInactiveVisit, pinned], rep.scanned, ?_⟩
    exact ⟨fun _ _ => rfl, Or.inl ⟨at_page, id⟩⟩
  | false =>
    cases accessed : s.test page pageFlagAccessed with
    | true =>
      have apart : pageFlagAccessed &&& pageFlagActive = 0 := by decide
      obtain ⟨L', relinks, moved⟩ :=
        (rep.scanned.clearFlag page apart).transfer at_page .active
      have result : shrinkInactiveVisit page (nr, s) =
          some (nr,
            { ((((s.scanned.clearFlag page pageFlagAccessed).withLinks L').setFlag page
                pageFlagActive).decrement .inactive).increment .active with
              pagesActivated := u64 (s.pagesActivated + 1) }) := by
        simp only [shrinkInactiveVisit, test_scanned, pinned, accessed, if_true,
          Bool.false_eq_true, if_false]
        exact relinks.eq id (fun _ => rfl) _
      refine ⟨_, _, _, result, moved _ _ rfl rfl rfl rfl (by simp [active_set]), ?_,
        Or.inr (Or.inl (by simp [movedTo]))⟩
      intro q other
      exact (update_of_ne other _ _).trans (update_of_ne other _ _)
    | false =>
      have written := rep.scanned.writeBack page
      by_cases free : (s.scanned.writeBack page).refCount page = 0
      · obtain ⟨mid, del_eq, rep'⟩ := written.retire at_page
        have result : shrinkInactiveVisit page (nr, s) =
            some (u32 (nr + 1),
              { (mid.initHead page).decrement .inactive with
                pmm := pmmFreeFrame mid.pmm (mid.physAddr page)
                freed := mid.physAddr page :: mid.freed
                pagesReclaimed := u64 (mid.pagesReclaimed + 1) }) := by
          simp only [shrinkInactiveVisit, test_scanned, pinned, accessed,
            Bool.false_eq_true, if_false, if_pos free, del_eq]
          rfl
        refine ⟨_, _, _, result, rep'.congr rfl rfl rfl fun _ => rfl, ?_, Or.inr (Or.inl (by simp))⟩
        intro q other
        obtain ⟨L', _, rfl⟩ := Option.map_eq_some_iff.mp del_eq
        exact writeBack_flags_of_ne other
      · refine ⟨nr, s.scanned.writeBack page, lists, ?_, written, ?_, Or.inl ⟨at_page, ?_⟩⟩
        · simp [shrinkInactiveVisit, pinned, accessed, free]
        · intro q other
          exact writeBack_flags_of_ne other
        · rw [test_writeBack]
          exact id

theorem shrinkActiveList_represents (rep : Represents s lists) (nrToScan : ℕ) :
    ∃ nr s' lists', shrinkActiveList s nrToScan = some (nr, s') ∧ Represents s' lists' :=
  shrinkList_rule (fun _ => Represents) id
    (fun {nr _ _ _ _ _} rep _ at_page => shrinkActiveVisit_effect rep at_page nr) rep

theorem shrinkInactiveList_represents (rep : Represents s lists) (nrToScan : ℕ) :
    ∃ nr s' lists', shrinkInactiveList s nrToScan = some (nr, s') ∧ Represents s' lists' :=
  shrinkList_rule (fun _ => Represents) id
    (fun {nr _ _ _ _ _} rep _ at_page => shrinkInactiveVisit_effect rep at_page nr) rep

theorem tryToFreePages_represents (rep : Represents s lists) (nrPages : ℕ) :
    ∃ nr s' lists', tryToFreePages s nrPages = some (nr, s') ∧ Represents s' lists' := by
  obtain ⟨nrMoved, s₁, lists₁, active, rep₁⟩ :=
    shrinkActiveList_represents rep (u32 (nrPages * 2))
  obtain ⟨nrFreed, s₂, lists₂, inactive, rep₂⟩ := shrinkInactiveList_represents rep₁ nrPages
  obtain ⟨nrMore, s₃, lists₃, again, rep₃⟩ :=
    shrinkInactiveList_represents rep₂ (sub32 nrPages nrFreed)
  by_cases short : nrFreed < nrPages
  · refine ⟨u32 (nrFreed + nrMore), s₃, lists₃, ?_, rep₃⟩
    simp [tryToFreePages, rep.initialized, active, inactive, short, again]
  · refine ⟨nrFreed, s₂, lists₂, ?_, rep₂⟩
    simp [tryToFreePages, rep.initialized, active, inactive, short]

end

/-! ## Every sequence of calls -/

/-- The calls of the page reclaim interface, on descriptors obtained from
`get_page_descriptor`. -/
inductive LruCall
  | addPage (physAddr : ℕ)
  | removePage (physAddr : ℕ)
  | markAccessed (physAddr : ℕ)
  | lock (physAddr : ℕ)
  | unlock (physAddr : ℕ)
  | shrinkActive (nrToScan : ℕ)
  | shrinkInactive (nrToScan : ℕ)
  | tryToFree (nrPages : ℕ)

/-- The state after one call; `none` if it faults or does not return. -/
def lruStep (s : PageReclaim) : LruCall → Option PageReclaim
  | .addPage physAddr => lruAddPage s (getPageDescriptor physAddr)
  | .removePage physAddr => lruRemovePage s (getPageDescriptor physAddr)
  | .markAccessed physAddr => markPageAccessed s (getPageDescriptor physAddr)
  | .lock physAddr => some (lockPage s (getPageDescriptor physAddr))
  | .unlock physAddr => some (unlockPage s (getPageDescriptor physAddr))
  | .shrinkActive nrToScan => (shrinkActiveList s nrToScan).map Prod.snd
  | .shrinkInactive nrToScan => (shrinkInactiveList s nrToScan).map Prod.snd
  | .tryToFree nrPages => (tryToFreePages s nrPages).map Prod.snd

theorem getPageDescriptor_lt {physAddr : ℕ} (found : getPageDescriptor physAddr = some page) :
    page < maxPages := by
  simp only [getPageDescriptor] at found
  split at found
  · simp at found
  · cases found
    omega

/-- A call that starts with the test for a null descriptor keeps the invariant if
its body does. -/
theorem onDescriptor_keeps {body : PageReclaim → ℕ → Option PageReclaim}
    (keeps : ∀ {s lists page}, Represents s lists → page < maxPages → Keeps (body s page))
    (rep : Represents s lists) (physAddr : ℕ) :
    Keeps (onDescriptor body s (getPageDescriptor physAddr)) := by
  cases found : getPageDescriptor physAddr with
  | none => exact ⟨s, rfl, lists, rep⟩
  | some page => simpa [onDescriptor, rep.initialized] using keeps rep (getPageDescriptor_lt found)

theorem lruStep_keeps (call : LruCall) (rep : ∃ lists, Represents s lists) :
    Keeps (lruStep s call) := by
  obtain ⟨lists, rep⟩ := rep
  cases call with
  | addPage physAddr => exact onDescriptor_keeps lruAddDescriptor_keeps rep physAddr
  | removePage physAddr => exact onDescriptor_keeps lruRemoveDescriptor_keeps rep physAddr
  | markAccessed physAddr => exact onDescriptor_keeps markDescriptorAccessed_keeps rep physAddr
  | lock physAddr =>
    refine ⟨_, rfl, lists, ?_⟩
    cases getPageDescriptor physAddr with
    | none => exact rep
    | some page => exact rep.setFlag page (by decide)
  | unlock physAddr =>
    refine ⟨_, rfl, lists, ?_⟩
    cases getPageDescriptor physAddr with
    | none => exact rep
    | some page => exact rep.clearFlag page (by decide)
  | shrinkActive nrToScan =>
    obtain ⟨nr, s', lists', result, rep'⟩ := shrinkActiveList_represents rep nrToScan
    exact ⟨s', by simp [lruStep, result], lists', rep'⟩
  | shrinkInactive nrToScan =>
    obtain ⟨nr, s', lists', result, rep'⟩ := shrinkInactiveList_represents rep nrToScan
    exact ⟨s', by simp [lruStep, result], lists', rep'⟩
  | tryToFree nrPages =>
    obtain ⟨nr, s', lists', result, rep'⟩ := tryToFreePages_represents rep nrPages
    exact ⟨s', by simp [lruStep, result], lists', rep'⟩

/-- `page_reclaim_init` sets up two empty lists and links every page to
itself. -/
theorem pageReclaimInit_represents (first : s.initialized = false) :
    Represents (pageReclaimInit s) fun _ => [] := by
  have self : ∀ x, (∃ which, x = .list which) ∨ (∃ page, page < maxPages ∧ x = .page page) →
      (pageReclaimInit s).links.Ring x [] := by
    rintro x (⟨which, rfl⟩ | ⟨page, below, rfl⟩)
    · refine ⟨⟨?_, ?_, trivial⟩, by simp⟩ <;> simp [pageReclaimInit, first]
    · refine ⟨⟨?_, ?_, trivial⟩, by simp⟩ <;> simp [pageReclaimInit, first, below]
  refine ⟨by simp [pageReclaimInit, first], ⟨?_, by simp, ?_, by simp⟩, ?_, by simp⟩
  · intro which
    exact self _ (Or.inl ⟨which, rfl⟩)
  · intro page below _ _
    exact self _ (Or.inr ⟨page, below, rfl⟩)
  · simp [pageReclaimInit, first]

/-- What the two lists `active` and `inactive` of page numbers have to do with
the state: they are what the circular lists link, without a common page, the
counters are their lengths, and of the linked pages exactly the active ones
carry the active flag. -/
structure LruSound (s : PageReclaim) (active inactive : List ℕ) : Prop where
  active_ring : s.links.Ring (.list .active) (active.map .page)
  inactive_ring : s.links.Ring (.list .inactive) (inactive.map .page)
  no_common : ∀ page ∈ active, page ∉ inactive
  active_count : s.count .active = active.length
  inactive_count : s.count .inactive = inactive.length
  flag : ∀ page, page ∈ active ∨ page ∈ inactive →
    (page ∈ active ↔ s.test page pageFlagActive = true)

/-- **The LRU lists under every sequence of calls.**  After `page_reclaim_init`
every sequence of calls returns, with sound lists. -/
theorem lru_run_sound {s : PageReclaim} (first : s.initialized = false) (calls : List LruCall) :
    ∃ s', exec lruStep (pageReclaimInit s) calls = some s' ∧
      ∃ active inactive, LruSound s' active inactive := by
  have allowed : Allowed lruStep (fun _ _ => True) (pageReclaimInit s) calls :=
    allowed_of_forall (fun _ _ => trivial) _ _
  obtain ⟨s', result, lists, rep⟩ := exec_total (fun s => ∃ lists, Represents s lists)
    (fun s call rep _ => lruStep_keeps call rep) calls _
    ⟨_, pageReclaimInit_represents first⟩ allowed
  refine ⟨s', result, lists .active, lists .inactive, rep.linked.ring .active,
    rep.linked.ring .inactive, ?_, rep.counts .active, rep.counts .inactive, ?_⟩
  · intro page active inactive
    simpa using rep.linked.disjoint active inactive
  rintro page (active | inactive)
  · simp [active, rep.flagged active]
  · have off : page ∉ lists .active := fun active => by
      simpa using rep.linked.disjoint active inactive
    simp [off, rep.test_active_eq_false inactive]

/-- The zeroed memory the kernel starts with. -/
def pageReclaimBoot : PageReclaim where
  initialized := false
  links := ⟨fun _ => .null, fun _ => .null⟩
  count := fun _ => 0
  flags := fun _ => 0
  refCount := fun _ => 0
  physAddr := fun _ => 0
  pagesScanned := 0
  pagesReclaimed := 0
  pagesActivated := 0
  pagesDeactivated := 0
  pmm := pmmAllUsed 0 0 0
  freed := []

/-- Two pages are added, one is marked accessed twice, and memory gets short. -/
theorem lru_run_sound_two_pages :
    pageReclaimBoot.initialized = false ∧
      ∃ s', exec lruStep (pageReclaimInit pageReclaimBoot)
          [.addPage 0x1000, .addPage 0x2000, .markAccessed 0x1000, .markAccessed 0x1000,
            .tryToFree 3] = some s' ∧
        ∃ active inactive, LruSound s' active inactive :=
  ⟨rfl, lru_run_sound rfl _⟩

end EduOS
