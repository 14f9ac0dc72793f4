import EduOS.Mm.PageCacheMap

/-!
# The lists and the size of the page cache

A cached page has one `struct list_head`, and is meant to hang with it either in
`lru_list` or, while its `DIRTY` flag is set, in `dirty_list` (`CacheListsSound`).

`page_cache_mark_dirty` adds a clean page to `dirty_list` without taking it off
`lru_list`.  The page before it in `lru_list` still points to it, but its own links
now lead to `dirty_list`: both lists are broken.  This is the only call that breaks
them, and it breaks them every time it meets a clean page.

`page_cache_add` asks `page_cache_reclaim` for a page if the cache is full, and gives up if the
number it returns is negative.  It never is: a full cache whose pages are all held grows.
-/

namespace EduOS

open List

/-- Both lists are rings, every cached page is in exactly one of them, in
`dirty_list` exactly if it is dirty, and `dirty_pages` counts the dirty pages. -/
def CacheListsSound (c : PageCache) : Prop :=
  ∃ lru dirty : List RbNode, c.links.Ring .lruList (lru.map CacheLink.page) ∧
    c.links.Ring .dirtyList (dirty.map CacheLink.page) ∧
    (∀ p, Cached c p → (p ∈ lru ↔ p ∉ dirty) ∧ (p ∈ dirty ↔ c.test p pageCacheDirty = true)) ∧
    ∃ t, Holds c.tree t ∧ c.dirtyPages = t.toList.countP fun p => c.test p pageCacheDirty

/-- The call marks no clean page dirty. -/
def cacheNoDirtying (c : PageCache) : CacheCall → Prop
  | .markDirty page _ => ∀ p, page = some p → c.test p pageCacheDirty = true
  | _ => True

theorem CacheRep.listsSound {c : PageCache} {order : List RbNode} {m : List CacheEntry}
    (rep : CacheRep c order m) : CacheListsSound c := by
  obtain ⟨t, holds, -, rfl⟩ := rep.tree
  have clean : ∀ p ∈ t.toList, c.test p pageCacheDirty = false := by
    intro p mem
    obtain ⟨e, e_mem, rfl⟩ := rep.exists_entry mem
    exact rep.not_dirty e_mem
  refine ⟨m.map CacheEntry.page, [], rep.lists.lru, rep.lists.dirty, fun p cached => ?_, t,
    holds, ?_⟩
  · obtain ⟨e, e_mem, rfl⟩ := (cached_iff rep).mp cached
    simp [rep.not_dirty e_mem, mem_map_of_mem e_mem]
  · rw [rep.clean, eq_comm, countP_eq_zero]
    intro p mem
    rw [clean p mem]
    exact Bool.false_ne_true

/-- **Marking a clean page dirty breaks the lists.** -/
theorem pageCacheMarkDirty_breaks {c : PageCache} {order : List RbNode} {m : List CacheEntry}
    {e : CacheEntry} (rep : CacheRep c order m) (mem : e ∈ m) (ticks : ℕ) :
    ∃ c', pageCacheMarkDirty (some e.page) ticks c = some c' ∧ ¬CacheListsSound c' := by
  have empty : c.links.prev .dirtyList = .dirtyList := rep.lists.dirty.prev_head
  refine ⟨{ c.setPage e.page { c.page e.page with
        flags := (c.page e.page).flags ||| pageCacheDirty
        dirtyTime := ticks } with
    links := listAddBetween c.links (.page e.page) .dirtyList .dirtyList
    dirtyPages := u32 (c.dirtyPages + 1) }, ?_, ?_⟩
  · simp [pageCacheMarkDirty, rep.not_dirty mem, listAddTail, empty, PageCache.setPage]
  rintro ⟨lru, dirty, lru_ring, -, each, -⟩
  have cached : Cached c e.page := (cached_iff rep).mpr ⟨e, mem, rfl⟩
  obtain ⟨one, flag⟩ := each e.page cached
  have in_dirty : e.page ∈ dirty := by
    refine flag.mpr ?_
    simp only [PageCache.test, PageCache.setPage, Function.update_self]
    exact hasFlag_set_self (by decide)
  -- the chain of `lru_list` up to the page is still there
  obtain ⟨front, back, rfl⟩ := append_of_mem mem
  have linked := rep.lists.lru.linked
  rw [map_append, map_cons, map_append, map_cons, cons_append,
    append_assoc, cons_append, ← cons_append, Links.chain_append_cons] at linked
  have nodup := rep.lists.lru.nodup
  have reached := lru_ring.chain_mem _ _ mem_cons_self linked.1 (by
    intro z z_mem
    have not_page : z ≠ .page e.page := by
      rintro rfl
      rw [map_append, map_cons, map_append, map_cons, ← cons_append] at nodup
      exact (nodup_append'.mp nodup).2.2 z_mem mem_cons_self
    have not_dirty : z ≠ .dirtyList := by
      rintro rfl
      simp at z_mem
    simp [listAddBetween, not_page, not_dirty])
  have in_lru : e.page ∈ lru := by simpa using reached
  exact one.mp in_lru in_dirty

/-- **The lists of the page cache**: they are sound in every state of a run exactly
if no call of the run marks a clean page dirty. -/
theorem page_cache_lists (c₀ : PageCache) (calls : List CacheCall)
    (allowed : Allowed cacheStep cacheLegal (pageCacheInit c₀) calls) :
    Throughout cacheStep CacheListsSound (pageCacheInit c₀) calls ↔
      Allowed cacheStep cacheNoDirtying (pageCacheInit c₀) calls := by
  refine throughout_iff_allowed (fun c => ∃ order m, CacheRep c order m) ?_ ?_ ?_ calls _
    ⟨[], [], pageCacheInit_rep c₀⟩ allowed
  · rintro c ⟨order, m, rep⟩
    exact rep.listsSound
  · rintro c call ⟨order, m, rep⟩ legal good
    have clean : keepsClean call := by
      cases call with
      | markDirty page ticks =>
        cases page with
        | none => rfl
        | some p =>
          obtain ⟨e, member, rfl⟩ := (cached_iff rep).mp (legal p rfl)
          exact absurd (good e.page rfl) (by simp [rep.not_dirty member])
      | _ => trivial
    obtain ⟨c', order', stepped, rep'⟩ := cacheStep_spec rep legal clean
    exact ⟨c', stepped, order', _, rep'⟩
  · rintro c call ⟨order, m, rep⟩ legal bad c' stepped
    cases call with
    | markDirty page ticks =>
      cases page with
      | none => exact absurd (fun p none_eq => nomatch none_eq) bad
      | some p =>
        obtain ⟨e, member, rfl⟩ := (cached_iff rep).mp (legal p rfl)
        obtain ⟨c'', marked, broken⟩ := pageCacheMarkDirty_breaks rep member ticks
        obtain rfl := Option.mem_unique stepped marked
        exact broken
    | _ => exact absurd trivial bad

/-- The page at `0x10` becomes page 0 of inode 7. -/
def addFirstPage : CacheCall := .add 7 0 0x5000 1 (some (rbNodeAt 3))

theorem addFirstPage_rep :
    ∃ c order, cacheStep (pageCacheInit cacheBoot) addFirstPage = some c ∧
      CacheRep c order [⟨rbNodeAt 3, 7, 0, 0x5000, 1, false⟩] :=
  cacheStep_spec (pageCacheInit_rep cacheBoot)
    (cacheLegal_of_entryLegal (pageCacheInit_rep cacheBoot) nofun) trivial

theorem addFirstPage_allowed :
    Allowed cacheStep cacheLegal (pageCacheInit cacheBoot) [addFirstPage, .lookup 7 0 2] :=
  ⟨cacheLegal_of_entryLegal (pageCacheInit_rep cacheBoot) nofun,
    fun _ _ => ⟨trivial, fun _ _ => trivial⟩⟩

theorem page_cache_lists_lookup :
    Throughout cacheStep CacheListsSound (pageCacheInit cacheBoot)
      [addFirstPage, .lookup 7 0 2] :=
  (page_cache_lists cacheBoot _ addFirstPage_allowed).mpr
    ⟨trivial, fun _ _ => ⟨trivial, fun _ _ => trivial⟩⟩

/-- One page is added to the cache and marked dirty. -/
theorem page_cache_lists_broken :
    Allowed cacheStep cacheLegal (pageCacheInit cacheBoot)
        [addFirstPage, .markDirty (some (rbNodeAt 3)) 2] ∧
      ∃ c, exec cacheStep (pageCacheInit cacheBoot)
          [addFirstPage, .markDirty (some (rbNodeAt 3)) 2] = some c ∧
        ¬CacheListsSound c := by
  obtain ⟨c, order, added, rep⟩ := addFirstPage_rep
  obtain ⟨c', marked, broken⟩ := pageCacheMarkDirty_breaks rep mem_cons_self 2
  refine ⟨⟨cacheLegal_of_entryLegal (pageCacheInit_rep cacheBoot) nofun, fun c₁ added₁ => ?_⟩, c',
    ?_, broken⟩
  · obtain rfl := Option.mem_unique added added₁
    exact ⟨cacheLegal_of_entryLegal rep mem_cons_self, fun _ _ => trivial⟩
  · rw [exec_cons, added, Option.bind_some, exec_cons]
    simp [cacheStep, marked, exec_nil]

/-! ## The size -/

/-- If the call adds a page to a full cache, then the page is there already, or there is one that
nobody holds. -/
def cacheHasRoom (c : PageCache) : CacheCall → Prop
  | .add inode offset _ _ new => new = none ∨ c.totalPages < maxCachePages ∨
      ∃ p, Cached c p ∧ ((c.page p).inode = inode ∧ (c.page p).offset = offset ∨
        c.test p pageCacheLocked = false ∧ (c.page p).refcount = 0)
  | _ => True

section

variable {c : PageCache} {order : List RbNode} {m : List CacheEntry}

theorem touch_length_le (inode offset : ℕ) : (touch inode offset m).length ≤ m.length := by
  unfold touch
  split
  · exact Nat.le_refl _
  · next e found =>
      refine length_filter_lt_length_iff_exists.mpr ⟨e, mem_of_find?_eq_some found, ?_⟩
      simp

theorem evictFirst_length_lt :
    (evictFirst 1 m).length < m.length ↔ ∃ e ∈ m, e.evictable = true := by
  induction m with
  | nil => simp
  | cons a m ih =>
    rw [evictFirst]
    split_ifs with first
    · simp [evictFirst, first]
    · simp [first, ih]

theorem evict_length_lt : (evict 1 m).length < m.length ↔ ∃ e ∈ m, e.evictable = true := by
  simpa [evict] using evictFirst_length_lt (m := m.reverse)

/-- An addition keeps within the bound exactly if it has room. -/
theorem addEntry_length_le {inode offset physAddr : ℕ} {new : Option RbNode}
    (few : m.length ≤ maxCachePages) :
    (addEntry inode offset physAddr new m).length ≤ maxCachePages ↔
      new = none ∨ m.length < maxCachePages ∨
        ∃ e ∈ m, e.inode = inode ∧ e.offset = offset ∨ e.evictable = true := by
  unfold addEntry
  cases found : findEntry m inode offset with
  | some e =>
    refine iff_of_true ((touch_length_le inode offset).trans few)
      (Or.inr (Or.inr ⟨e, mem_of_find?_eq_some found, Or.inl ?_⟩))
    simpa using find?_some found
  | none =>
    have absent := findEntry_eq_none.mp found
    have free : (∃ e ∈ m, e.inode = inode ∧ e.offset = offset ∨ e.evictable = true) ↔
        (evict 1 m).length < m.length := by
      rw [evict_length_lt]
      exact exists_congr fun e => and_congr_right fun mem => or_iff_right (absent e mem)
    have fewer := (evict_sublist 1 m).length_le
    rw [free]
    cases new with
    | none =>
      simp only [true_or, iff_true]
      split_ifs <;> omega
    | some p =>
      simp only [reduceCtorEq, false_or, length_cons]
      split_ifs <;> omega

theorem cacheSpec_length_le (rep : CacheRep c order m) (few : m.length ≤ maxCachePages)
    (call : CacheCall) :
    (cacheSpec m call).length ≤ maxCachePages ↔ cacheHasRoom c call := by
  cases call with
  | add inode offset physAddr ticks new =>
    refine (addEntry_length_le few).trans ?_
    rw [cacheHasRoom, rep.total]
    simp only [cached_iff rep, exists_exists_and_eq_and]
    refine or_congr_right (or_congr_right (exists_congr fun e => and_congr_right fun mem => ?_))
    have backs := rep.backed e mem
    simp [CacheEntry.evictable, rep.test_locked mem, backs.inode, backs.offset, backs.refcount]
  | lookup inode offset ticks =>
    exact iff_of_true ((touch_length_le inode offset).trans few) trivial
  | reclaim nrPages => exact iff_of_true ((evict_sublist nrPages m).length_le.trans few) trivial
  | remove | invalidateInode => exact iff_of_true ((length_filter_le _ m).trans few) trivial
  | markDirty | writeback => exact iff_of_true few trivial
  | get | put | lock | unlock => exact iff_of_true ((length_map _).trans_le few) trivial

end

/-- **The bound of the page cache**: along a run that marks nothing dirty it is kept exactly if
no page is added to a full cache in which every page is held. -/
theorem page_cache_bound (c₀ : PageCache) (calls : List CacheCall)
    (allowed : Allowed cacheStep cacheLegal (pageCacheInit c₀) calls)
    (clean : ∀ call ∈ calls, keepsClean call) :
    Throughout cacheStep (fun c => c.totalPages ≤ maxCachePages) (pageCacheInit c₀) calls ↔
      Allowed cacheStep cacheHasRoom (pageCacheInit c₀) calls := by
  refine throughout_iff_allowed
    (fun c => ∃ order m, CacheRep c order m ∧ m.length ≤ maxCachePages) ?_ ?_ ?_ calls _
    ⟨[], [], pageCacheInit_rep c₀, Nat.zero_le _⟩
    (allowed_and.mpr ⟨allowed, allowed_of_forall_mem clean _⟩)
  · rintro c ⟨order, m, rep, few⟩
    exact rep.total.trans_le few
  · rintro c call ⟨order, m, rep, few⟩ ⟨legal, clean⟩ room
    obtain ⟨c', order', stepped, rep'⟩ := cacheStep_spec rep legal clean
    exact ⟨c', stepped, order', _, rep', (cacheSpec_length_le rep few call).mpr room⟩
  · rintro c call ⟨order, m, rep, few⟩ ⟨legal, clean⟩ full c' stepped within
    obtain ⟨c'', order', stepped', rep'⟩ := cacheStep_spec rep legal clean
    obtain rfl := Option.mem_unique stepped stepped'
    exact full ((cacheSpec_length_le rep few call).mp (rep'.total.symm.trans_le within))

/-- Page `i` of inode 7 is added and kept. -/
def addHeld (i : ℕ) : CacheCall := .add 7 (4096 * i) (4096 * i) 1 (some (rbNodeAt i))

def heldPages (n : ℕ) : List CacheEntry :=
  (range n).reverse.map fun i => ⟨rbNodeAt i, 7, 4096 * i, 4096 * i, 1, false⟩

theorem heldPages_length (n : ℕ) : (heldPages n).length = n := by
  simp [heldPages]

/-- Nothing can be evicted, so the next page makes the map longer. -/
theorem heldPages_add {n : ℕ} (few : n ≤ 1024) : entryLegal (heldPages n) (addHeld n) ∧
    cacheSpec (heldPages n) (addHeld n) = heldPages (n + 1) := by
  have each : ∀ e ∈ heldPages n, some e.page ≠ some (rbNodeAt n) ∧
      e.offset ≠ 4096 * n ∧ e.evictable = false := by
    intro e mem
    obtain ⟨i, below, rfl⟩ : ∃ i < n, _ = e := by simpa [heldPages] using mem
    refine ⟨fun same => ?_, ?_, rfl⟩
    · have words := congrArg (fun p : RbNode => p.val.toNat) (Option.some.inj same)
      simp only [rbNodeAt, BitVec.toNat_ofNat] at words
      omega
    · show 4096 * i ≠ 4096 * n
      omega
  have absent : findEntry (heldPages n) 7 (4096 * n) = none :=
    findEntry_eq_none.mpr fun e mem key => (each e mem).2.1 key.2
  have held : evict 1 (heldPages n) = heldPages n := by
    refine (evict_sublist 1 _).eq_of_length_le (Nat.not_lt.mp fun fewer => ?_)
    obtain ⟨e, mem, free⟩ := evict_length_lt.mp fewer
    simp [(each e mem).2.2] at free
  refine ⟨fun e mem => (each e mem).1, ?_⟩
  simp only [cacheSpec, addHeld, addEntry, absent, held, ite_self]
  simp [heldPages, range_succ]

/-- Page after page is added; there is room for the first 1024. -/
theorem heldPages_run (k : ℕ) {n : ℕ} {c : PageCache} {order : List RbNode} (few : n + k ≤ 1025)
    (rep : CacheRep c order (heldPages n)) :
    Allowed cacheStep cacheLegal c ((range' n k).map addHeld) ∧
      (n + k ≤ 1024 → Allowed cacheStep cacheHasRoom c ((range' n k).map addHeld)) ∧
      ∃ c', exec cacheStep c ((range' n k).map addHeld) = some c' ∧ c'.totalPages = n + k := by
  induction k generalizing n c order with
  | zero => exact ⟨trivial, fun _ => trivial, c, rfl, rep.total.trans (heldPages_length n)⟩
  | succ k ih =>
    obtain ⟨entry_legal, grown⟩ := heldPages_add (show n ≤ 1024 by omega)
    have legal := cacheLegal_of_entryLegal rep entry_legal
    obtain ⟨c₁, order₁, stepped, rep₁⟩ := cacheStep_spec rep legal trivial
    rw [grown] at rep₁
    obtain ⟨later, room, c', ran, total⟩ := ih (by omega) rep₁
    rw [range'_succ, map_cons]
    refine ⟨⟨legal, fun c₂ stepped' => ?_⟩, fun small => ⟨?_, fun c₂ stepped' => ?_⟩, c', ?_, ?_⟩
    · rwa [← Option.mem_unique stepped stepped']
    · refine Or.inr (Or.inl ?_)
      rw [rep.total, heldPages_length, maxCachePages]
      omega
    · rw [← Option.mem_unique stepped stepped']
      exact room (by omega)
    · rw [exec_cons, stepped]
      exact ran
    · omega

/-- 1024 pages are added, and the cache is full. -/
theorem page_cache_bound_full :
    Throughout cacheStep (fun c => c.totalPages ≤ maxCachePages) (pageCacheInit cacheBoot)
        ((range' 0 1024).map addHeld) ∧
      ∃ c, exec cacheStep (pageCacheInit cacheBoot) ((range' 0 1024).map addHeld) = some c ∧
        c.totalPages = maxCachePages := by
  obtain ⟨legal, room, full⟩ :=
    @heldPages_run 1024 0 _ _ (by decide) (pageCacheInit_rep cacheBoot)
  exact ⟨(page_cache_bound cacheBoot _ legal (by simp [addHeld, keepsClean])).mpr
    (room (by decide)), full⟩

/-- 1025 pages are added, and none is released. -/
theorem page_cache_outgrows :
    Allowed cacheStep cacheLegal (pageCacheInit cacheBoot) ((range' 0 1025).map addHeld) ∧
      ∃ c, exec cacheStep (pageCacheInit cacheBoot) ((range' 0 1025).map addHeld) = some c ∧
        c.totalPages = maxCachePages + 1 := by
  obtain ⟨legal, -, outgrown⟩ :=
    @heldPages_run 1025 0 _ _ (by decide) (pageCacheInit_rep cacheBoot)
  exact ⟨legal, outgrown⟩

end EduOS
