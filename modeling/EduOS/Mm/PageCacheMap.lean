import EduOS.Mm.PageCache

/-!
# The page cache as a finite map

What the page cache is for: a finite map from inode numbers and offsets to pages,
kept in the order of last use.  Its entries, most recent first, are the abstract
state; every operation of the cache is an operation on them (`cacheSpec`).

`CacheRep` ties the two: the tree holds the pages of the entries in the order of
their keys, `lru_list` links them in the order of use, and the descriptors have the
data of the entries.  No page is dirty here; `dirty_list` is empty.
-/

namespace EduOS

open List

/-- A cached page as its users see it. -/
structure CacheEntry where
  page : RbNode
  inode : ℕ
  offset : ℕ
  physicalAddr : ℕ
  refcount : ℕ
  locked : Bool
  deriving DecidableEq

/-! ## The abstract operations -/

def findEntry (m : List CacheEntry) (inode offset : ℕ) : Option CacheEntry :=
  m.find? fun e => e.inode = inode ∧ e.offset = offset

def dropPage (p : RbNode) (m : List CacheEntry) : List CacheEntry :=
  m.filter fun e => e.page ≠ p

/-- A use of the key: its entry becomes the most recent one. -/
def touch (inode offset : ℕ) (m : List CacheEntry) : List CacheEntry :=
  match findEntry m inode offset with
  | none => m
  | some e => e :: dropPage e.page m

/-- Nobody holds the page. -/
def CacheEntry.evictable (e : CacheEntry) : Bool := !e.locked && e.refcount = 0

/-- Drops the first `n` evictable entries. -/
def evictFirst : ℕ → List CacheEntry → List CacheEntry
  | 0, m => m
  | _ + 1, [] => []
  | n + 1, e :: m => if e.evictable then evictFirst n m else e :: evictFirst (n + 1) m

/-- Drops the `n` evictable entries that were not used for the longest time. -/
def evict (n : ℕ) (m : List CacheEntry) : List CacheEntry := (evictFirst n m.reverse).reverse

def updatePage (p : Option RbNode) (f : CacheEntry → CacheEntry) (m : List CacheEntry) :
    List CacheEntry := m.map fun e => if p = some e.page then f e else e

def addEntry (inode offset physAddr : ℕ) (new : Option RbNode) (m : List CacheEntry) :
    List CacheEntry :=
  match findEntry m inode offset with
  | some _ => touch inode offset m
  | none =>
    let m := if maxCachePages ≤ m.length then evict 1 m else m
    match new with
    | none => m
    | some p => ⟨p, inode, offset, physAddr, 1, false⟩ :: m

/-- What a call does to the map. -/
def cacheSpec (m : List CacheEntry) : CacheCall → List CacheEntry
  | .add inode offset physAddr _ new => addEntry inode offset physAddr new m
  | .lookup inode offset _ => touch inode offset m
  | .remove page => m.filter fun e => some e.page ≠ page
  | .markDirty _ _ => m
  | .writeback _ => m
  | .reclaim nrPages => evict nrPages m
  | .invalidateInode inode => m.filter fun e => e.inode ≠ inode
  | .get page => updatePage page (fun e => { e with refcount := u32 (e.refcount + 1) }) m
  | .put page => updatePage page (fun e => { e with refcount := e.refcount - 1 }) m
  | .lock page => updatePage page (fun e => { e with locked := true }) m
  | .unlock page => updatePage page (fun e => { e with locked := false }) m

/-! ## Representation -/

/-- The descriptor of the page has the data of the entry, and is not dirty. -/
structure Backs (c : PageCache) (e : CacheEntry) : Prop where
  inode : (c.page e.page).inode = e.inode
  offset : (c.page e.page).offset = e.offset
  physicalAddr : (c.page e.page).physicalAddr = e.physicalAddr
  refcount : (c.page e.page).refcount = e.refcount
  flags : (c.page e.page).flags = if e.locked then pageCacheUptodate ||| pageCacheLocked
    else pageCacheUptodate

/-- The order of the tree. -/
def KeyLt (c : PageCache) (a b : RbNode) : Prop :=
  (c.page a).inode < (c.page b).inode ∨
    ((c.page a).inode = (c.page b).inode ∧ (c.page a).offset < (c.page b).offset)

/-- `lru_list` links `pages`, and `dirty_list` is empty. -/
structure CacheLists (L : Links CacheLink) (pages : List RbNode) : Prop where
  lru : L.Ring .lruList (pages.map CacheLink.page)
  dirty : L.Ring .dirtyList []

/-- The cache represents the entries `m`; `order` is their order in the tree. -/
structure CacheRep (c : PageCache) (order : List RbNode) (m : List CacheEntry) : Prop where
  tree : ∃ t, Holds c.tree t ∧ t.Valid ∧ t.toList = order
  sorted : order.Pairwise (KeyLt c)
  pages : order.Perm (m.map CacheEntry.page)
  lists : CacheLists c.links (m.map CacheEntry.page)
  backed : ∀ e ∈ m, Backs c e
  total : c.totalPages = m.length
  clean : c.dirtyPages = 0

/-! ## The lists -/

variable {L : Links CacheLink} {e : CacheEntry} {p : RbNode} {c : PageCache} {order : List RbNode}
    {m : List CacheEntry} {inode offset : ℕ}

variable {front back pages : List RbNode} {inode₁ offset₁ inode₂ offset₂ n : ℕ}
  {kept rest : List CacheEntry} {f : CacheEntry → CacheEntry} {call : CacheCall}
  {calls : List CacheCall}

theorem cacheLists_del (lists : CacheLists L (front ++ p :: back)) :
    ∃ L', listDel .null L (.page p) = some L' ∧ CacheLists L' (front ++ back) := by
  have lru := lists.lru
  rw [map_append, map_cons] at lru
  have nonnull : CacheLink.null ∉
      CacheLink.lruList :: (front.map CacheLink.page ++ back.map CacheLink.page) := by
    simp
  obtain ⟨L', deleted, lru', same⟩ := listDel_spec lru nonnull
  refine ⟨L', deleted, by rw [map_append]; exact lru', lists.dirty.of_sameLinks ?_⟩
  intro x mem
  obtain rfl := mem_singleton.mp mem
  exact same _ (by simp)

theorem cacheLists_add (lists : CacheLists L pages) (fresh : p ∉ pages) :
    ∃ L', listAdd .null L (.page p) .lruList = some L' ∧ CacheLists L' (p :: pages) := by
  have nonnull : CacheLink.null ∉ CacheLink.lruList :: pages.map CacheLink.page := by simp
  have fresh' : CacheLink.page p ∉ CacheLink.lruList :: pages.map CacheLink.page := by
    simpa using fresh
  obtain ⟨L', added, lru', same⟩ := listAdd_spec lists.lru nonnull fresh'
  refine ⟨L', added, lru', lists.dirty.of_sameLinks ?_⟩
  intro x mem
  obtain rfl := mem_singleton.mp mem
  exact same _ (by simp)

/-- An entry says nothing about the times of its page. -/
theorem Backs.congr {c' : PageCache} (backs : Backs c e)
    (same : ∃ a d, c'.page e.page = { c.page e.page with accessTime := a, dirtyTime := d }) :
    Backs c' e := by
  obtain ⟨_, _, same⟩ := same
  constructor <;> rw [same]
  · exact backs.inode
  · exact backs.offset
  · exact backs.physicalAddr
  · exact backs.refcount
  · exact backs.flags

namespace CacheRep

section

variable (rep : CacheRep c order m)
include rep

theorem order_nodup : order.Nodup := by
  obtain ⟨t, holds, -, rfl⟩ := rep.tree
  exact holds.nodup

theorem nodup : (m.map CacheEntry.page).Nodup :=
  rep.pages.nodup_iff.mp rep.order_nodup

theorem length_lt : m.length < 2 ^ 32 := by
  have bounded := rbNode_length_lt rep.nodup
  rwa [length_map] at bounded

theorem mem_order (mem : e ∈ m) :
    e.page ∈ order := rep.pages.mem_iff.mpr (mem_map_of_mem mem)

theorem exists_entry (mem : p ∈ order) :
    ∃ e ∈ m, e.page = p := mem_map.mp (rep.pages.mem_iff.mp mem)

theorem not_dirty (mem : e ∈ m) : c.test e.page pageCacheDirty = false := by
  unfold PageCache.test
  rw [(rep.backed e mem).flags]
  cases e.locked <;> decide

theorem test_locked (mem : e ∈ m) : c.test e.page pageCacheLocked = e.locked := by
  unfold PageCache.test
  rw [(rep.backed e mem).flags]
  cases e.locked <;> decide

/-- The keys in the tree are those of the entries: they are in order, and no key
occurs twice. -/
theorem eq_of_key {a b : CacheEntry} (a_mem : a ∈ m) (b_mem : b ∈ m)
    (inode : a.inode = b.inode) (offset : a.offset = b.offset) : a.page = b.page := by
  have keys : (order.map fun p => ((c.page p).inode, (c.page p).offset)).Nodup := by
    refine pairwise_map.mpr (rep.sorted.imp fun {x y} less same => ?_)
    simp only [Prod.mk.injEq] at same
    rcases less with less | ⟨-, less⟩
    · exact absurd same.1 (Nat.ne_of_lt less)
    · exact absurd same.2 (Nat.ne_of_lt less)
  refine inj_on_of_nodup_map keys (rep.mem_order a_mem) (rep.mem_order b_mem) ?_
  rw [(rep.backed a a_mem).inode, (rep.backed a a_mem).offset, (rep.backed b b_mem).inode,
    (rep.backed b b_mem).offset, inode, offset]

end

end CacheRep

/-! ## Comparing keys -/

theorem compareCacheKey_neg :
    compareCacheKey inode₁ offset₁ inode₂ offset₂ < 0 ↔
      inode₁ < inode₂ ∨ (inode₁ = inode₂ ∧ offset₁ < offset₂) := by
  unfold compareCacheKey
  split_ifs <;> omega

theorem compareCacheKey_pos :
    0 < compareCacheKey inode₁ offset₁ inode₂ offset₂ ↔
      inode₂ < inode₁ ∨ (inode₂ = inode₁ ∧ offset₂ < offset₁) := by
  unfold compareCacheKey
  split_ifs <;> omega

section

theorem lookupTurn_left :
    lookupTurn c inode offset p = some .left ↔
      inode < (c.page p).inode ∨ (inode = (c.page p).inode ∧ offset < (c.page p).offset) := by
  rw [← compareCacheKey_neg]
  unfold lookupTurn
  dsimp only
  split_ifs <;> simp_all

theorem lookupTurn_right :
    lookupTurn c inode offset p = some .right ↔
      (c.page p).inode < inode ∨ ((c.page p).inode = inode ∧ (c.page p).offset < offset) := by
  rw [← compareCacheKey_pos]
  unfold lookupTurn
  dsimp only
  split_ifs with neg pos
  · simp [neg.le]
  · simp [pos]
  · simp [pos]

theorem lookupTurn_none :
    lookupTurn c inode offset p = none ↔ (c.page p).inode = inode ∧ (c.page p).offset = offset := by
  have left : lookupTurn c inode offset p = some .left ↔ _ := lookupTurn_left
  have right : lookupTurn c inode offset p = some .right ↔ _ := lookupTurn_right
  cases turn : lookupTurn c inode offset p with
  | none =>
    simp only [turn, reduceCtorEq, false_iff] at left right
    simp only [true_iff]
    omega
  | some side =>
    cases side with
    | left =>
      simp only [turn, true_iff] at left
      simp only [reduceCtorEq, false_iff]
      omega
    | right =>
      simp only [turn, true_iff] at right
      simp only [reduceCtorEq, false_iff]
      omega

theorem addTurn_left :
    addTurn c inode offset p = .left ↔
      inode < (c.page p).inode ∨ (inode = (c.page p).inode ∧ offset < (c.page p).offset) := by
  rw [← compareCacheKey_neg]
  unfold addTurn
  split_ifs <;> simp_all

end

/-- Both searches are guided by the order of the tree. -/
theorem lookupTurn_guided (sorted : order.Pairwise (KeyLt c)) (inode offset : ℕ) :
    order.Pairwise (Guided (lookupTurn c inode offset)) := by
  refine sorted.imp fun {a b} less => ⟨fun left => ?_, fun right => ?_⟩
  · rw [lookupTurn_left] at left ⊢
    unfold KeyLt at less
    omega
  · rw [lookupTurn_right] at right ⊢
    unfold KeyLt at less
    omega

theorem addTurn_guided (sorted : order.Pairwise (KeyLt c)) (inode offset : ℕ) :
    order.Pairwise (Guided fun p => some (addTurn c inode offset p)) := by
  refine sorted.imp fun {a b} less => ⟨fun left => ?_, fun right => ?_⟩
  · rw [Option.some.injEq, addTurn_left] at left ⊢
    unfold KeyLt at less
    omega
  have turn : ∀ p, addTurn c inode offset p = .right ↔ ¬addTurn c inode offset p = .left := by
    intro p
    cases addTurn c inode offset p <;> simp
  rw [Option.some.injEq, turn, addTurn_left] at right ⊢
  unfold KeyLt at less
  omega

/-! ## Lookup -/

theorem dropPage_split {front back : List CacheEntry}
    (nodup : ((front ++ e :: back).map CacheEntry.page).Nodup) :
    dropPage e.page (front ++ e :: back) = front ++ back := by
  rw [map_append, map_cons, nodup_append'] at nodup
  obtain ⟨-, back_nodup, apart⟩ := nodup
  have keep_front : ∀ x ∈ front, x.page ≠ e.page := fun x mem same =>
    apart (mem_map_of_mem mem) (same ▸ mem_cons_self)
  have keep_back : ∀ x ∈ back, x.page ≠ e.page := fun x mem same =>
    (nodup_cons.mp back_nodup).1 (same ▸ mem_map_of_mem mem)
  unfold dropPage
  rw [filter_append, filter_cons_of_neg (by simp),
    filter_eq_self.mpr fun x mem => by simpa using keep_front x mem,
    filter_eq_self.mpr fun x mem => by simpa using keep_back x mem]

namespace CacheRep

variable {c' : PageCache} {m' : List CacheEntry}

/-- The entry with a key is the only one. -/
theorem findEntry_eq (rep : CacheRep c order m) (mem : e ∈ m) :
    findEntry m e.inode e.offset = some e := by
  unfold findEntry
  cases found : m.find? fun x => x.inode = e.inode ∧ x.offset = e.offset with
  | none =>
    have none_at := find?_eq_none.mp found e mem
    simp at none_at
  | some x =>
    have x_mem := mem_of_find?_eq_some found
    have key := find?_some found
    simp only [decide_eq_true_eq] at key
    have page_eq := rep.eq_of_key x_mem mem key.1 key.2
    exact congrArg some (inj_on_of_nodup_map rep.nodup x_mem mem page_eq)

/-- The order of use and the times of the pages may change. -/
theorem reorder (rep : CacheRep c order m) (tree : c'.tree = c.tree)
    (data : ∀ x, ∃ a d, c'.page x = { c.page x with accessTime := a, dirtyTime := d })
    (perm : m'.Perm m) (lists : CacheLists c'.links (m'.map CacheEntry.page))
    (total : c'.totalPages = c.totalPages) (clean : c'.dirtyPages = c.dirtyPages) :
    CacheRep c' order m' := by
  refine ⟨tree ▸ rep.tree, rep.sorted.imp fun {x y} less => ?_,
    rep.pages.trans (perm.map CacheEntry.page).symm, lists, fun e mem =>
    (rep.backed e (perm.mem_iff.mp mem)).congr (data e.page), ?_, clean.trans rep.clean⟩
  · obtain ⟨_, _, x_data⟩ := data x
    obtain ⟨_, _, y_data⟩ := data y
    unfold KeyLt at less ⊢
    rw [x_data, y_data]
    exact less
  · rw [total, rep.total, perm.length_eq]

end CacheRep

/-- **Lookup** finds the entry of the key and makes it the most recent one. -/
theorem pageCacheLookup_spec (rep : CacheRep c order m) (inode offset ticks : ℕ) :
    ∃ c', pageCacheLookup inode offset ticks c =
        some ((findEntry m inode offset).map CacheEntry.page, c') ∧
      CacheRep c' order (touch inode offset m) := by
  obtain ⟨t, holds, -, order_eq⟩ := rep.tree
  have guided := lookupTurn_guided rep.sorted inode offset
  rw [← order_eq] at guided
  obtain ⟨found, searched, present, absent⟩ := rbSearch_spec holds _ guided
  rw [order_eq] at present absent
  cases found with
  | none =>
    have missing : findEntry m inode offset = none := by
      refine find?_eq_none.mpr fun e mem key => absent rfl e.page (rep.mem_order mem) ?_
      simp only [decide_eq_true_eq] at key
      rw [lookupTurn_none, (rep.backed e mem).inode, (rep.backed e mem).offset]
      exact key
    refine ⟨{ c with misses := u64 (c.misses + 1) }, ?_, ?_⟩
    · simp [pageCacheLookup, searched, missing]
    · simp only [touch, missing]
      exact rep.reorder rfl (fun x => ⟨_, _, rfl⟩) (List.Perm.refl m) rep.lists rfl rfl
  | some p =>
    obtain ⟨p_mem, turn⟩ := present p rfl
    obtain ⟨e, e_mem, rfl⟩ := rep.exists_entry p_mem
    rw [lookupTurn_none, (rep.backed e e_mem).inode, (rep.backed e e_mem).offset] at turn
    obtain ⟨rfl, rfl⟩ := turn
    have entry := rep.findEntry_eq e_mem
    obtain ⟨front, back, rfl⟩ := append_of_mem e_mem
    have nodup := rep.nodup
    have lists := rep.lists
    rw [map_append, map_cons] at lists
    obtain ⟨links₁, deleted, lists₁⟩ := cacheLists_del lists
    have fresh : e.page ∉ front.map CacheEntry.page ++ back.map CacheEntry.page := by
      rw [map_append, map_cons] at nodup
      exact (nodup_cons.mp (perm_middle.nodup_iff.mp nodup)).1
    obtain ⟨links₂, added, lists₂⟩ := cacheLists_add lists₁ fresh
    refine ⟨{ c.setPage e.page { c.page e.page with accessTime := ticks } with
      links := links₂, hits := u64 (c.hits + 1) }, ?_, ?_⟩
    · have deleted' : (c.setPage e.page { c.page e.page with accessTime := ticks }).links =
          c.links :=
        rfl
      simp only [pageCacheLookup, searched, Option.bind_eq_bind, Option.bind_some, PageCache.del,
        PageCache.addLru, deleted', deleted, added, Option.map_some, entry]
      rfl
    · simp only [touch, entry, dropPage_split nodup]
      refine rep.reorder rfl (fun x => ?_) perm_middle.symm ?_ rfl rfl
      · by_cases same : x = e.page
        · subst same
          exact ⟨ticks, (c.page e.page).dirtyTime, by simp [PageCache.setPage]⟩
        · exact ⟨(c.page x).accessTime, (c.page x).dirtyTime, by simp [PageCache.setPage, same]⟩
      · rw [map_cons, map_append]
        exact lists₂

/-! ## Removal -/

theorem pageCacheRemove_spec {front back : List CacheEntry}
    (rep : CacheRep c order (front ++ e :: back)) :
    ∃ c', pageCacheRemove (some e.page) c = some c' ∧
      CacheRep c' (order.erase e.page) (front ++ back) := by
  have e_mem : e ∈ front ++ e :: back := by simp
  obtain ⟨t, holds, valid, rfl⟩ := rep.tree
  obtain ⟨tree', t', erased, valid', held⟩ := rbErase_spec holds valid (rep.mem_order e_mem)
  have lists := rep.lists
  rw [map_append, map_cons] at lists
  obtain ⟨links', deleted, lists'⟩ := cacheLists_del lists
  have clean := rep.not_dirty e_mem
  refine ⟨{ c with
    tree := tree'
    links := links'
    totalPages := sub32 c.totalPages 1
    lockedPages := if c.test e.page pageCacheLocked then sub32 c.lockedPages 1 else c.lockedPages
    pmm := pmmFreeFrame c.pmm (c.page e.page).physicalAddr }, ?_, ⟨t', held.holds, valid',
      held.order⟩, rep.sorted.sublist erase_sublist, ?_, ?_, ?_, ?_, rep.clean⟩
  · have clean' : PageCache.test { c with tree := tree', links := links' } e.page pageCacheDirty =
        false := clean
    simp only [pageCacheRemove, clean, Bool.false_eq_true, if_false, Option.bind_eq_bind,
      Option.bind_some, erased, PageCache.del, deleted, Option.map_some, clean']
    rfl
  · have erased_pages := rep.pages.erase e.page
    have nodup := rep.nodup
    rw [map_append, map_cons] at erased_pages nodup
    rw [erase_middle nodup] at erased_pages
    rw [map_append]
    exact erased_pages
  · rw [map_append]
    exact lists'
  · intro x mem
    have old : x ∈ front ++ e :: back := by
      simp only [mem_append, mem_cons] at mem ⊢
      tauto
    exact (rep.backed x old).congr ⟨_, _, rfl⟩
  · have bound := rep.length_lt
    have some_page : 1 ≤ (front ++ e :: back).length := length_pos_of_mem e_mem
    show sub32 c.totalPages 1 = _
    rw [rep.total, sub32_of_le some_page bound]
    simp

theorem pageCacheRemove_dropPage (rep : CacheRep c order m) (mem : e ∈ m) :
    ∃ c', pageCacheRemove (some e.page) c = some c' ∧
      CacheRep c' (order.erase e.page) (dropPage e.page m) := by
  obtain ⟨front, back, rfl⟩ := append_of_mem mem
  rw [dropPage_split rep.nodup]
  exact pageCacheRemove_spec rep

/-! ## Reclaim -/

/-- The next page that the walk backwards through `lru_list` comes to, the
remaining entries being `rest`, the least recent first. -/
def walkLink : List CacheEntry → CacheLink
  | [] => .lruList
  | e :: _ => .page e.page

theorem getLastD_walkLink (rest : List CacheEntry) :
    ((rest.reverse.map CacheEntry.page).map CacheLink.page).getLastD .lruList = walkLink rest := by
  cases rest with
  | nil => rfl
  | cons e rest => simp [walkLink]

theorem evictFirst_nil (n : ℕ) : evictFirst n [] = [] := by
  cases n <;> rfl

theorem walkLink_ne_null (rest : List CacheEntry) : walkLink rest ≠ .null := by
  cases rest with
  | nil => exact nofun
  | cons e rest => exact nofun

/-- The walk of `page_cache_reclaim`: of the entries `m`, least recent first, `kept`
have been passed over and `rest` are still to come. -/
structure Reclaiming (n : ℕ) (m kept rest : List CacheEntry) (w : ReclaimWalk) : Prop where
  rep : ∃ order, CacheRep w.cache order (kept ++ rest).reverse
  page : w.page = walkLink rest
  tmp : rest ≠ [] → w.tmp = walkLink rest.tail
  goal : evictFirst n m = kept ++ evictFirst (n - w.reclaimed) rest
  count : w.reclaimed + (kept ++ rest).length = m.length

/-- Going on to the next page: `tmp` is read before the visited page may be
removed. -/
theorem Reclaiming.advance {tmp : CacheLink} (reclaimed : ℕ)
    (c : PageCache) (tmp_eq : tmp = walkLink rest)
    (rep : ∃ order, CacheRep c order (kept ++ rest).reverse)
    (goal : evictFirst n m = kept ++ evictFirst (n - reclaimed) rest)
    (count : reclaimed + (kept ++ rest).length = m.length) :
    Reclaiming n m kept rest ⟨tmp, c.links.prev tmp, reclaimed, c⟩ := by
  refine ⟨rep, tmp_eq, fun some_left => ?_, goal, count⟩
  obtain ⟨order, rep⟩ := rep
  cases rest with
  | nil => exact absurd rfl some_left
  | cons e rest =>
    have ring := rep.lists.lru
    simp only [reverse_append, reverse_cons, append_assoc, singleton_append,
      map_append, map_cons] at ring
    show c.links.prev tmp = walkLink rest
    rw [tmp_eq]
    show c.links.prev (.page e.page) = _
    rw [ring.prev_mem]
    exact getLastD_walkLink rest

theorem reclaimPass_spec {w : ReclaimWalk}
    (small : m.length < 2 ^ 32) (reclaiming : Reclaiming n m kept rest w) :
    (∃ kept' rest' w', reclaimPass n w = some (.inl w') ∧ rest'.length < rest.length ∧
        Reclaiming n m kept' rest' w') ∨
      ∃ count c order, reclaimPass n w = some (.inr (count, c)) ∧
        CacheRep c order (evictFirst n m).reverse ∧ count + (evictFirst n m).length = m.length := by
  obtain ⟨⟨order, rep⟩, page, tmp, goal, count⟩ := reclaiming
  cases rest with
  | nil =>
    rw [evictFirst_nil] at goal
    refine Or.inr ⟨w.reclaimed, w.cache, order, ?_, goal ▸ rep, goal ▸ count⟩
    simp [reclaimPass, page, walkLink]
  | cons e rest =>
    have page' : w.page = .page e.page := page
    by_cases enough : n ≤ w.reclaimed
    · rw [Nat.sub_eq_zero_of_le enough] at goal
      refine Or.inr ⟨w.reclaimed, w.cache, order, ?_, goal ▸ rep, goal ▸ count⟩
      simp [reclaimPass, page', if_pos enough]
    have tmp_eq : w.tmp = walkLink rest := tmp nofun
    have tmp_ne : w.tmp ≠ .null := tmp_eq ▸ walkLink_ne_null rest
    obtain ⟨j, more⟩ : ∃ j, n - w.reclaimed = j + 1 := ⟨n - w.reclaimed - 1, by omega⟩
    have e_mem : e ∈ (kept ++ e :: rest).reverse := by simp
    have held : (w.cache.test e.page pageCacheLocked ||
        decide (0 < (w.cache.page e.page).refcount)) = !e.evictable := by
      rw [rep.test_locked e_mem, (rep.backed e e_mem).refcount]
      unfold CacheEntry.evictable
      cases e.locked <;> simp [Nat.pos_iff_ne_zero]
    refine Or.inl ?_
    by_cases evictable : e.evictable = true
    · have split : (kept ++ e :: rest).reverse = rest.reverse ++ e :: kept.reverse := by simp
      rw [split] at rep
      obtain ⟨c', removed, rep'⟩ := pageCacheRemove_spec rep
      have counted : u32 (w.reclaimed + 1) = w.reclaimed + 1 := by
        refine u32_of_lt ?_
        simp only [length_append, length_cons] at count
        omega
      refine ⟨kept, rest, _, ?_, Nat.lt_succ_self _, Reclaiming.advance (w.reclaimed + 1)
        { c' with evictions := u64 (c'.evictions + 1) } tmp_eq ⟨order.erase e.page, ?_⟩ ?_ ?_⟩
      · simp [reclaimPass, page', if_neg enough, held, evictable, removed, counted, if_neg tmp_ne]
      · have shape : (kept ++ rest).reverse = rest.reverse ++ kept.reverse := by simp
        rw [shape]
        exact rep'.reorder rfl (fun x => ⟨_, _, rfl⟩) (List.Perm.refl _) rep'.lists rfl rfl
      · have one_less : n - (w.reclaimed + 1) = j := by omega
        rw [goal, more, evictFirst, if_pos evictable, one_less]
      · simp only [length_append, length_cons] at count ⊢
        omega
    · have split : kept ++ e :: rest = (kept ++ [e]) ++ rest := by simp
      refine ⟨kept ++ [e], rest, _, ?_, Nat.lt_succ_self _, Reclaiming.advance w.reclaimed
        w.cache tmp_eq ⟨order, split ▸ rep⟩ ?_ (split ▸ count)⟩
      · have not_evictable : e.evictable = false := Bool.eq_false_iff.mpr evictable
        simp [reclaimPass, page', if_neg enough, held, not_evictable, if_neg tmp_ne]
      · rw [goal, more, evictFirst, if_neg evictable, append_assoc, singleton_append]

/-- **Reclaim** drops the least recently used pages that nobody holds. -/
theorem pageCacheReclaim_spec (rep : CacheRep c order m) (n : ℕ) :
    ∃ count c' order', pageCacheReclaim n c = some (count, c') ∧ CacheRep c' order' (evict n m) ∧
      count + (evict n m).length = m.length := by
  have small : m.reverse.length < 2 ^ 32 := by
    rw [length_reverse]
    exact rep.length_lt
  have last : c.links.prev .lruList = walkLink m.reverse := by
    rw [rep.lists.lru.prev_head, ← getLastD_walkLink, reverse_reverse]
  have starting : Reclaiming n m.reverse [] m.reverse
      ⟨walkLink m.reverse, c.links.prev (walkLink m.reverse), 0, c⟩ := by
    refine Reclaiming.advance 0 c rfl ⟨order, ?_⟩ rfl (by simp)
    rw [nil_append, reverse_reverse]
    exact rep
  obtain ⟨⟨count, c'⟩, looped, order', rep', counted⟩ := loop_ranked (reclaimPass n)
    (fun k w => ∃ kept rest, rest.length = k ∧ Reclaiming n m.reverse kept rest w)
    (fun r => ∃ order', CacheRep r.2 order' (evictFirst n m.reverse).reverse ∧
      r.1 + (evictFirst n m.reverse).length = m.reverse.length)
    (by
      rintro _ w ⟨kept, rest, rfl, reclaiming⟩
      rcases reclaimPass_spec small reclaiming with
        ⟨kept', rest', w', passed, less, reclaiming'⟩ | ⟨count, c', order', passed, rep', counted⟩
      · exact Or.inl ⟨w', _, passed, less, kept', rest', rfl, reclaiming'⟩
      · exact Or.inr ⟨(count, c'), passed, order', rep', counted⟩)
    (2 ^ 32) m.reverse.length _ ⟨[], m.reverse, rfl, starting⟩ small
  refine ⟨count, c', order', ?_, rep', ?_⟩
  · simp only [pageCacheReclaim, last, if_neg (walkLink_ne_null m.reverse)]
    exact looped
  · rw [evict, length_reverse, counted, length_reverse]

/-! ## Insertion -/

theorem findEntry_eq_none :
    findEntry m inode offset = none ↔ ∀ e ∈ m, ¬(e.inode = inode ∧ e.offset = offset) := by
  simp [findEntry, find?_eq_none]

theorem evictFirst_sublist (n : ℕ) (m : List CacheEntry) : (evictFirst n m).Sublist m := by
  induction m generalizing n with
  | nil => rw [evictFirst_nil]
  | cons e m ih =>
    cases n with
    | zero => exact List.Sublist.refl _
    | succ n =>
      rw [evictFirst]
      split_ifs
      · exact (ih n).cons e
      · exact (ih (n + 1)).cons_cons e

/-- At most `n` entries go. -/
theorem evictFirst_length (n : ℕ) (m : List CacheEntry) :
    m.length ≤ (evictFirst n m).length + n := by
  induction m generalizing n with
  | nil => exact Nat.zero_le _
  | cons e m ih =>
    cases n with
    | zero => exact Nat.le_refl _
    | succ n =>
      rw [evictFirst]
      split_ifs
      · have rest := ih n
        simp only [length_cons]
        omega
      · have rest := ih (n + 1)
        simp only [length_cons]
        omega

theorem evict_sublist (n : ℕ) (m : List CacheEntry) : (evict n m).Sublist m := by
  have reversed := (evictFirst_sublist n m.reverse).reverse
  rwa [reverse_reverse] at reversed

/-- The cache before `kmalloc` is called: the key is absent, and a full cache has
given up one page that nobody holds, if there is one. -/
theorem pageCachePrepare_spec (rep : CacheRep c order m) (inode offset ticks : ℕ) :
    (∃ e c', findEntry m inode offset = some e ∧
        pageCachePrepare inode offset ticks c = some (some (some e.page), c') ∧
        CacheRep c' order (touch inode offset m)) ∨
      ∃ c' order', findEntry m inode offset = none ∧
        pageCachePrepare inode offset ticks c = some (none, c') ∧
        CacheRep c' order' (if maxCachePages ≤ m.length then evict 1 m else m) := by
  obtain ⟨c₁, looked, rep₁⟩ := pageCacheLookup_spec rep inode offset ticks
  cases found : findEntry m inode offset with
  | some e =>
    refine Or.inl ⟨e, c₁, rfl, ?_, rep₁⟩
    simp only [pageCachePrepare, looked, found, Option.bind_eq_bind, Option.bind_some,
      Option.map_some]
  | none =>
    simp only [touch, found] at rep₁
    refine Or.inr ?_
    by_cases full : maxCachePages ≤ m.length
    · obtain ⟨count, c₂, order₂, reclaimed, rep₂, counted⟩ := pageCacheReclaim_spec rep₁ 1
      have few : ¬2 ^ 31 ≤ count := by
        have one : m.length ≤ (evict 1 m).length + 1 := by
          unfold evict
          simpa using evictFirst_length 1 m.reverse
        omega
      refine ⟨c₂, order₂, rfl, ?_, if_pos full ▸ rep₂⟩
      simp only [pageCachePrepare, looked, found, Option.bind_eq_bind, Option.bind_some,
        Option.map_none, rep₁.total, if_pos full, reclaimed, if_neg few]
    · refine ⟨c₁, order, rfl, ?_, if_neg full ▸ rep₁⟩
      simp [pageCachePrepare, looked, found, rep₁.total, if_neg full]

/-- The tree sees nothing of a node that it does not contain. -/
theorem Holds.rbInitNode {m : RbMemory} {t : Tree RbNode} (holds : Holds m t)
    (fresh : p ∉ t.toList) : Holds (rbInitNode m p) t := by
  refine holds.frame rfl fun x mem => ?_
  have other : x ≠ p := ne_of_mem_of_not_mem mem fresh
  exact ((sameAt_setWord other).trans (sameAt_setChild other)).trans (sameAt_setChild other)

theorem CacheLists.initListHead (lists : CacheLists L pages)
    (fresh : p ∉ pages) : CacheLists (initListHead L (.page p)) pages := by
  refine ⟨lists.lru.of_sameLinks fun x mem => initListHead_sameLinks ?_,
    lists.dirty.of_sameLinks fun x mem => initListHead_sameLinks ?_⟩
  · rintro rfl
    exact fresh (by simpa using mem)
  · rintro rfl
    simp at mem

/-- A page with a new key, put where `page_cache_add` finds the place for it, keeps
the tree sorted. -/
theorem sorted_insert (sorted : (front ++ back).Pairwise (KeyLt c))
    (key : (c.page p).inode = inode ∧ (c.page p).offset = offset)
    (absent : ∀ x ∈ front ++ back, ¬((c.page x).inode = inode ∧ (c.page x).offset = offset))
    (lefts : ∀ x ∈ front, addTurn c inode offset x = .right)
    (rights : ∀ x ∈ back, addTurn c inode offset x = .left) :
    (front ++ p :: back).Pairwise (KeyLt c) := by
  have below : ∀ x ∈ front, KeyLt c x p := by
    intro x mem
    have missing := absent x (mem_append_left _ mem)
    have turn := (not_congr addTurn_left).mp (by rw [lefts x mem]; exact nofun)
    unfold KeyLt
    omega
  have above : ∀ x ∈ back, KeyLt c p x := by
    intro x mem
    have turn := addTurn_left.mp (rights x mem)
    unfold KeyLt
    omega
  rw [pairwise_append] at sorted ⊢
  obtain ⟨front_sorted, back_sorted, across⟩ := sorted
  refine ⟨front_sorted, pairwise_cons.mpr ⟨above, back_sorted⟩, fun x x_mem y y_mem => ?_⟩
  rcases mem_cons.mp y_mem with rfl | y_mem
  · exact below x x_mem
  · exact across x x_mem y y_mem

/-- **Insertion** of a page for an absent key. -/
theorem pageCacheInsert_spec (rep : CacheRep c order m) (inode offset physAddr ticks : ℕ)
    (absent : findEntry m inode offset = none) (fresh : p ∉ order) :
    ∃ c' order', pageCacheInsert inode offset physAddr ticks p c = some c' ∧
      CacheRep c' order' (⟨p, inode, offset, physAddr, 1, false⟩ :: m) := by
  obtain ⟨t, holds, valid, rfl⟩ := rep.tree
  have fresh' : p ∉ m.map CacheEntry.page := fun mem => fresh (rep.pages.mem_iff.mpr mem)
  -- the cache with the new descriptor, which is not linked yet
  obtain ⟨c₁, c₁_eq⟩ : ∃ c₁, c₁ = pageCacheDescribe inode offset physAddr ticks p c := ⟨_, rfl⟩
  have new_page : c₁.page p = ⟨physAddr, pageCacheUptodate, inode, offset, 1, ticks, 0⟩ := by
    simp [c₁_eq, pageCacheDescribe, PageCache.setPage]
  have old_entry : ∀ x ∈ t.toList, c₁.page x = c.page x := by
    intro x mem
    have other : x ≠ p := ne_of_mem_of_not_mem mem fresh
    simp [c₁_eq, pageCacheDescribe, PageCache.setPage, other]
  have sorted : t.toList.Pairwise (KeyLt c₁) := by
    refine rep.sorted.imp_of_mem fun {a b} a_mem b_mem less => ?_
    unfold KeyLt at less ⊢
    rwa [old_entry a a_mem, old_entry b b_mem]
  have holds₁ : Holds c₁.tree t := by
    rw [c₁_eq]
    exact holds.rbInitNode fresh
  obtain ⟨context, searched, rfl, lefts, rights⟩ := rbSearchSlot_spec holds₁ _
    (addTurn_guided sorted inode offset)
  obtain ⟨tree', t', inserted, valid', held⟩ := rbInsert_spec holds₁ valid fresh
  have toList_eq : (plug context Tree.nil).toList = before context ++ after context := by
    rw [toList_plug]
    simp [Tree.toList]
  have lists₁ : CacheLists c₁.links (m.map CacheEntry.page) := by
    rw [c₁_eq]
    exact rep.lists.initListHead fresh'
  obtain ⟨links', added, lists'⟩ := cacheLists_add lists₁ fresh'
  refine ⟨{ c₁ with tree := tree', links := links', totalPages := u32 (c.totalPages + 1) },
    before context ++ p :: after context, ?_,
    ⟨⟨t', held.holds, valid', held.order⟩, ?_, ?_, lists', ?_, ?_, ?_⟩⟩
  · have count : c₁.totalPages = c.totalPages := by rw [c₁_eq]; rfl
    simp [pageCacheInsert, ← c₁_eq, searched, inserted, added, PageCache.addLru, count]
  · rw [toList_eq] at sorted
    refine sorted_insert (c := c₁) sorted (by rw [new_page]; exact ⟨rfl, rfl⟩) ?_ lefts rights
    intro x mem
    rw [← toList_eq] at mem
    obtain ⟨e, e_mem, rfl⟩ := rep.exists_entry mem
    rw [old_entry _ mem, (rep.backed e e_mem).inode, (rep.backed e e_mem).offset]
    exact findEntry_eq_none.mp absent e e_mem
  · refine perm_middle.trans ((toList_eq ▸ rep.pages).cons p)
  · intro e mem
    rcases mem_cons.mp mem with rfl | mem
    · refine ⟨?_, ?_, ?_, ?_, ?_⟩ <;> simp [new_page]
    · exact (rep.backed e mem).congr ⟨_, _, old_entry e.page (rep.mem_order mem)⟩
  · have bounded := rbNode_length_lt (nodup_cons.mpr ⟨fresh', rep.nodup⟩)
    rw [length_cons, length_map] at bounded
    show u32 (c.totalPages + 1) = _
    rw [rep.total, u32_of_lt bounded, length_cons]
  · rw [c₁_eq]
    exact rep.clean

theorem pageCacheAdd_spec (rep : CacheRep c order m) (inode offset physAddr ticks : ℕ)
    (new : Option RbNode) (legal : cacheLegal c (.add inode offset physAddr ticks new)) :
    ∃ result c' order', pageCacheAdd inode offset physAddr ticks new c = some (result, c') ∧
      CacheRep c' order' (addEntry inode offset physAddr new m) := by
  rcases pageCachePrepare_spec rep inode offset ticks with
    ⟨e, c₁, found, prepared, rep₁⟩ | ⟨c₁, order₁, found, prepared, rep₁⟩
  · refine ⟨some e.page, c₁, order, ?_, ?_⟩
    · simp [pageCacheAdd, prepared]
    · simp only [addEntry, found]
      exact rep₁
  cases new with
  | none =>
    refine ⟨none, c₁, order₁, ?_, ?_⟩
    · simp [pageCacheAdd, prepared]
    · simp only [addEntry, found]
      exact rep₁
  | some p =>
    have fresh : p ∉ order₁ := by
      obtain ⟨t, holds, -, rfl⟩ := rep₁.tree
      exact fun mem => legal p c₁ rfl prepared ⟨t, holds, mem⟩
    have absent : findEntry (if maxCachePages ≤ m.length then evict 1 m else m) inode offset =
        none := by
      refine findEntry_eq_none.mpr fun e mem => findEntry_eq_none.mp found e ?_
      split_ifs at mem
      · exact (evict_sublist 1 m).subset mem
      · exact mem
    obtain ⟨c₂, order₂, inserted, rep₂⟩ :=
      pageCacheInsert_spec rep₁ inode offset physAddr ticks absent fresh
    refine ⟨some p, c₂, order₂, ?_, ?_⟩
    · simp [pageCacheAdd, prepared, inserted]
    · simp only [addEntry, found]
      exact rep₂

/-! ## Invalidation -/

/-- The walk of `page_cache_invalidate_inode` in front of the pages `rest` of the
tree: of the entries `m` those before them are dealt with. -/
def Invalidating (inode : ℕ) (m : List CacheEntry) (rest : List RbNode)
    (w : Option RbNode × PageCache) : Prop :=
  w.1 = rest.head? ∧ ∃ front,
    CacheRep w.2 (front ++ rest) (m.filter fun e => e.inode ≠ inode ∨ e.page ∈ rest)

theorem invalidatePass_spec {rest : List RbNode} (nodup : (m.map CacheEntry.page).Nodup)
    (walk : Invalidating inode m (p :: rest) (some p, c)) :
    ∃ c', invalidatePass inode (some p, c) = some (.inl (rest.head?, c')) ∧
      Invalidating inode m rest (rest.head?, c') := by
  obtain ⟨-, front, rep⟩ := walk
  obtain ⟨t, holds, -, order⟩ := rep.tree
  have next := rbNext_spec holds order
  obtain ⟨e, e_mem, rfl⟩ := rep.exists_entry (show p ∈ front ++ p :: rest by simp)
  have inode_eq : (c.page e.page).inode = e.inode := (rep.backed e e_mem).inode
  have order_nodup := rep.order_nodup
  have e_new : e.page ∉ front ++ rest :=
    (nodup_cons.mp (perm_middle.nodup_iff.mp order_nodup)).1
  have e_mem' : e ∈ m := mem_of_mem_filter e_mem
  have same_entry : ∀ x ∈ m, x.page = e.page → x = e := fun x mem same =>
    inj_on_of_nodup_map nodup mem e_mem' same
  by_cases match_inode : e.inode = inode
  · obtain ⟨c', removed, rep'⟩ := pageCacheRemove_dropPage rep e_mem
    refine ⟨c', ?_, rfl, front, ?_⟩
    · simp [invalidatePass, next, inode_eq, if_pos match_inode, removed]
    rw [erase_middle order_nodup] at rep'
    have entries : dropPage e.page (m.filter fun x => x.inode ≠ inode ∨ x.page ∈ e.page :: rest) =
        m.filter fun x => x.inode ≠ inode ∨ x.page ∈ rest := by
      rw [dropPage, filter_filter]
      refine filter_congr fun x mem => ?_
      by_cases same : x.page = e.page
      · obtain rfl := same_entry x mem same
        have not_rest : x.page ∉ rest := fun later => e_new (mem_append_right _ later)
        simp [match_inode, not_rest]
      · simp [same]
    exact entries ▸ rep'
  · refine ⟨c, ?_, rfl, front ++ [e.page], ?_⟩
    · simp [invalidatePass, next, inode_eq, if_neg match_inode]
    have entries : (m.filter fun x => x.inode ≠ inode ∨ x.page ∈ e.page :: rest) =
        m.filter fun x => x.inode ≠ inode ∨ x.page ∈ rest := by
      refine filter_congr fun x mem => ?_
      by_cases same : x.page = e.page
      · obtain rfl := same_entry x mem same
        simp [match_inode]
      · simp [same]
    rw [append_assoc, singleton_append]
    exact entries ▸ rep

/-- **Invalidation** drops exactly the pages of the inode. -/
theorem pageCacheInvalidateInode_spec (rep : CacheRep c order m) (inode : ℕ) :
    ∃ c' order', pageCacheInvalidateInode inode c = some c' ∧
      CacheRep c' order' (m.filter fun e => e.inode ≠ inode) := by
  obtain ⟨t, holds, -, order_eq⟩ := rep.tree
  have first := rbFirst_spec holds
  rw [order_eq] at first
  have everything : (m.filter fun e => e.inode ≠ inode ∨ e.page ∈ order) = m :=
    filter_eq_self.mpr fun e mem => by simp [rep.mem_order mem]
  have starting : Invalidating inode m order (order.head?, c) := by
    refine ⟨rfl, [], ?_⟩
    rw [everything]
    exact rep
  obtain ⟨c', looped, order', rep'⟩ := loop_ranked (invalidatePass inode)
    (fun k w => ∃ rest, rest.length = k ∧ Invalidating inode m rest w)
    (fun c' => ∃ order', CacheRep c' order' (m.filter fun e => e.inode ≠ inode))
    (by
      rintro _ ⟨page, c₁⟩ ⟨rest, rfl, walk⟩
      obtain rfl := walk.1
      cases rest with
      | nil =>
        obtain ⟨-, front, rep₁⟩ := walk
        refine Or.inr ⟨c₁, rfl, front ++ [], ?_⟩
        simpa using rep₁
      | cons p rest =>
        obtain ⟨c₂, passed, walk₂⟩ := invalidatePass_spec rep.nodup walk
        exact Or.inl ⟨(rest.head?, c₂), rest.length, passed, Nat.lt_succ_self _, rest, rfl, walk₂⟩)
    (2 ^ 32) order.length _ ⟨order, rfl, starting⟩ (rbNode_length_lt rep.order_nodup)
  refine ⟨c', order', ?_, rep'⟩
  simp only [pageCacheInvalidateInode, first, Option.bind_eq_bind, Option.bind_some]
  exact looped

/-! ## References and locks -/

theorem map_page_updatePage {p : Option RbNode} (keeps : ∀ e, (f e).page = e.page) :
    (updatePage p f m).map CacheEntry.page = m.map CacheEntry.page := by
  rw [updatePage, map_map]
  refine map_congr_left fun e _ => ?_
  simp only [Function.comp_apply]
  split_ifs
  · exact keeps e
  · rfl

/-- A change of the references and the lock of `p` that the entry follows. -/
theorem CacheRep.update (rep : CacheRep c order m) (refcount : ℕ → ℕ) (locked : Bool → Bool)
    (flags : BitVec 32) (lockedPages : ℕ) (lock : ∀ e ∈ m, e.page = p →
      flags = if locked e.locked then pageCacheUptodate ||| pageCacheLocked else
        pageCacheUptodate) :
    CacheRep
      { c.setPage p
          { c.page p with refcount := refcount (c.page p).refcount, flags := flags } with
        lockedPages := lockedPages } order
      (updatePage (some p)
        (fun e => { e with refcount := refcount e.refcount, locked := locked e.locked }) m) := by
  set data : CachedPage :=
    { c.page p with refcount := refcount (c.page p).refcount, flags := flags }
  refine ⟨rep.tree, rep.sorted.imp fun {a b} less => ?_, ?_, ?_, fun e mem => ?_, ?_, rep.clean⟩
  · unfold KeyLt at less ⊢
    have key : ∀ x, ((c.setPage p data).page x).inode = (c.page x).inode ∧
        ((c.setPage p data).page x).offset = (c.page x).offset := fun x => by
      by_cases same : x = p <;> simp [data, PageCache.setPage, same]
    rwa [(key a).1, (key a).2, (key b).1, (key b).2]
  · rw [map_page_updatePage fun _ => by rfl]
    exact rep.pages
  · rw [map_page_updatePage fun _ => by rfl]
    exact rep.lists
  · obtain ⟨old, old_mem, rfl⟩ := mem_map.mp mem
    have backs := rep.backed old old_mem
    by_cases same : old.page = p
    · subst same
      constructor <;> simp [data, PageCache.setPage, backs.inode, backs.offset, backs.physicalAddr,
        backs.refcount, ← lock old old_mem rfl]
    · rw [if_neg fun eq => same (Option.some.inj eq).symm]
      exact backs.congr ⟨_, _, (Function.update_of_ne same ..).trans rfl⟩
  · rw [updatePage, length_map]
    exact rep.total

/-- An update that leaves the entry alone. -/
theorem CacheRep.fixed (rep : CacheRep c order m) {page : Option RbNode}
    (same : ∀ e ∈ m, page = some e.page → f e = e) :
    CacheRep c order (updatePage page f m) := by
  rw [updatePage, map_congr_left (g := id), map_id]
  · exact rep
  · intro e mem
    split_ifs with here
    · exact same e mem here
    · rfl

section

variable (rep : CacheRep c order m) (page : Option RbNode)
include rep page

theorem pageCacheGet_spec :
    CacheRep (pageCacheGet page c) order
      (updatePage page (fun e => { e with refcount := u32 (e.refcount + 1) }) m) := by
  cases page with
  | none => exact rep.fixed nofun
  | some p =>
    exact rep.update (fun r => u32 (r + 1)) id (c.page p).flags c.lockedPages fun e mem same =>
      same ▸ (rep.backed e mem).flags

theorem pageCachePut_spec :
    CacheRep (pageCachePut page c) order
      (updatePage page (fun e => { e with refcount := e.refcount - 1 }) m) := by
  cases page with
  | none => exact rep.fixed nofun
  | some p =>
    by_cases referenced : 0 < (c.page p).refcount
    · simp only [pageCachePut, if_pos referenced]
      exact rep.update (· - 1) id (c.page p).flags c.lockedPages fun e mem same =>
        same ▸ (rep.backed e mem).flags
    simp only [pageCachePut, if_neg referenced]
    refine rep.fixed fun e mem same => ?_
    have zero := (rep.backed e mem).refcount
    rw [← Option.some.inj same] at zero
    obtain ⟨⟩ := e
    simp_all

theorem pageCacheLock_spec :
    CacheRep (pageCacheLock page c) order
      (updatePage page (fun e => { e with locked := true }) m) := by
  cases page with
  | none => exact rep.fixed nofun
  | some p =>
    by_cases locked : c.test p pageCacheLocked = true
    · simp only [pageCacheLock, if_pos locked]
      refine rep.fixed fun e mem same => ?_
      have already := rep.test_locked mem
      obtain ⟨⟩ := e
      simp_all
    · simp only [pageCacheLock, if_neg locked]
      refine rep.update id (fun _ => true) _ _ fun e mem same => ?_
      subst same
      rw [rep.test_locked mem] at locked
      simp [(rep.backed e mem).flags, locked]

theorem pageCacheUnlock_spec :
    CacheRep (pageCacheUnlock page c) order
      (updatePage page (fun e => { e with locked := false }) m) := by
  cases page with
  | none => exact rep.fixed nofun
  | some p =>
    by_cases locked : c.test p pageCacheLocked = true
    · simp only [pageCacheUnlock, if_pos locked]
      refine rep.update id (fun _ => false) _ _ fun e mem same => ?_
      subst same
      rw [rep.test_locked mem] at locked
      rw [(rep.backed e mem).flags, if_pos locked]
      decide
    · simp only [pageCacheUnlock, if_neg locked]
      refine rep.fixed fun e mem same => ?_
      have already := rep.test_locked mem
      obtain ⟨⟩ := e
      simp_all

end

/-! ## Whole runs -/

theorem pageCacheInit_rep (c : PageCache) : CacheRep (pageCacheInit c) [] [] := by
  refine ⟨⟨.nil, ⟨rfl, trivial, nodup_nil⟩, ?_, rfl⟩, List.Pairwise.nil, List.Perm.nil,
    ⟨?_, initListHead_ring _ _⟩, nofun, rfl, rfl⟩
  · exact ⟨rfl, 0, rfl⟩
  · refine (initListHead_ring c.links .lruList).of_sameLinks fun x mem => ?_
    obtain rfl := mem_singleton.mp mem
    exact initListHead_sameLinks nofun

/-- A call that marks no page dirty. -/
def keepsClean : CacheCall → Prop
  | .markDirty page _ => page = none
  | _ => True

theorem cached_iff (rep : CacheRep c order m) : Cached c p ↔ ∃ e ∈ m, e.page = p := by
  obtain ⟨t, holds, -, rfl⟩ := rep.tree
  constructor
  · rintro ⟨t', holds', mem⟩
    rw [holds'.unique holds] at mem
    exact rep.exists_entry mem
  · rintro ⟨e, mem, rfl⟩
    exact ⟨t, holds, rep.mem_order mem⟩

/-- **One call.** -/
theorem cacheStep_spec (rep : CacheRep c order m) (legal : cacheLegal c call)
    (clean : keepsClean call) :
    ∃ c' order', cacheStep c call = some c' ∧ CacheRep c' order' (cacheSpec m call) := by
  cases call with
  | add inode offset physAddr ticks new =>
    obtain ⟨result, c', order', added, rep'⟩ :=
      pageCacheAdd_spec rep inode offset physAddr ticks new legal
    exact ⟨c', order', by simp [cacheStep, added], rep'⟩
  | lookup inode offset ticks =>
    obtain ⟨c', looked, rep'⟩ := pageCacheLookup_spec rep inode offset ticks
    exact ⟨c', order, by simp [cacheStep, looked], rep'⟩
  | remove page =>
    cases page with
    | none => exact ⟨c, order, rfl, by simpa [cacheSpec] using rep⟩
    | some p =>
      obtain ⟨e, mem, rfl⟩ := (cached_iff rep).mp (legal p rfl)
      obtain ⟨c', removed, rep'⟩ := pageCacheRemove_dropPage rep mem
      refine ⟨c', order.erase e.page, removed, ?_⟩
      simpa [cacheSpec, dropPage] using rep'
  | markDirty page ticks =>
    obtain rfl : page = none := clean
    exact ⟨c, order, rfl, rep⟩
  | writeback page =>
    cases page with
    | none => exact ⟨c, order, rfl, rep⟩
    | some p =>
      obtain ⟨e, mem, rfl⟩ := (cached_iff rep).mp (legal p rfl)
      refine ⟨c, order, ?_, rep⟩
      simp [cacheStep, pageCacheWriteback, rep.not_dirty mem]
  | reclaim nrPages =>
    obtain ⟨count, c', order', reclaimed, rep', -⟩ := pageCacheReclaim_spec rep nrPages
    exact ⟨c', order', by simp [cacheStep, reclaimed], rep'⟩
  | invalidateInode inode => exact pageCacheInvalidateInode_spec rep inode
  | get page => exact ⟨_, order, rfl, pageCacheGet_spec rep page⟩
  | put page => exact ⟨_, order, rfl, pageCachePut_spec rep page⟩
  | lock page => exact ⟨_, order, rfl, pageCacheLock_spec rep page⟩
  | unlock page => exact ⟨_, order, rfl, pageCacheUnlock_spec rep page⟩

/-- A run of calls that mark nothing dirty returns, and does to the entries what the
calls are specified to do. -/
theorem exec_cacheStep (rep : CacheRep c order m)
    (allowed : Allowed cacheStep cacheLegal c calls) (clean : ∀ call ∈ calls, keepsClean call) :
    ∃ c' order', exec cacheStep c calls = some c' ∧
      CacheRep c' order' (calls.foldl cacheSpec m) := by
  obtain ⟨c', ran, order', rep'⟩ := exec_simulates cacheSpec
    (fun c m => ∃ order, CacheRep c order m)
    (fun c m call ⟨order, rep⟩ legal => by
      obtain ⟨c', order', stepped, rep'⟩ := cacheStep_spec rep legal.1 legal.2
      exact ⟨c', stepped, order', rep'⟩)
    calls c m ⟨order, rep⟩ (allowed_and.mpr ⟨allowed, allowed_of_forall_mem clean c⟩)
  exact ⟨c', order', ran, rep'⟩

/-- A call as the users of the map may make it. -/
def entryLegal (m : List CacheEntry) : CacheCall → Prop
  | .add _ _ _ _ new => ∀ e ∈ m, some e.page ≠ new
  | .remove page | .markDirty page _ | .writeback page | .get page | .put page | .lock page
  | .unlock page => page ∈ m.map fun e => some e.page
  | .lookup _ _ _ | .reclaim _ | .invalidateInode _ => True

theorem cacheLegal_of_entryLegal (rep : CacheRep c order m)
    (legal : entryLegal m call) : cacheLegal c call := by
  have cached : ∀ {page : Option RbNode}, page ∈ (m.map fun e => some e.page) →
      ∀ p, page = some p → Cached c p := by
    rintro _ mem p rfl
    obtain ⟨e, e_mem, same⟩ := mem_map.mp mem
    exact (cached_iff rep).mpr ⟨e, e_mem, Option.some.inj same⟩
  cases call with
  | add inode offset physAddr ticks new =>
    rintro p c' rfl prepared bad
    rcases pageCachePrepare_spec rep inode offset ticks with
      ⟨e, c₁, -, prepared', -⟩ | ⟨c₁, order₁, -, prepared', rep₁⟩
    · cases Option.mem_unique prepared prepared'
    cases Option.mem_unique prepared prepared'
    obtain ⟨e, mem, rfl⟩ := (cached_iff rep₁).mp bad
    refine legal e ?_ rfl
    split_ifs at mem
    · exact (evict_sublist 1 m).subset mem
    · exact mem
  | lookup inode offset ticks => trivial
  | remove page => exact cached legal
  | markDirty page ticks => exact cached legal
  | writeback page => exact cached legal
  | reclaim nrPages => trivial
  | invalidateInode inode => trivial
  | get page => exact cached legal
  | put page => exact cached legal
  | lock page => exact cached legal
  | unlock page => exact cached legal

/-- Calls that are allowed on the map are allowed on the cache. -/
theorem allowed_of_entryLegal (rep : CacheRep c order m)
    (allowed : Allowed (fun m call => some (cacheSpec m call)) entryLegal m calls)
    (clean : ∀ call ∈ calls, keepsClean call) : Allowed cacheStep cacheLegal c calls := by
  induction calls generalizing c order m with
  | nil => trivial
  | cons call rest ih =>
    obtain ⟨legal, later⟩ := allowed_cons.mp allowed
    have legal' := cacheLegal_of_entryLegal rep legal
    refine ⟨legal', fun c' stepped => ?_⟩
    obtain ⟨c₁, order₁, stepped₁, rep₁⟩ :=
      cacheStep_spec rep legal' (clean call mem_cons_self)
    obtain rfl := Option.mem_unique stepped stepped₁
    exact ih rep₁ (later _ rfl) fun other mem => clean other (mem_cons_of_mem call mem)

/-- **The page cache is a finite map.**  After every run of calls that mark no page
dirty, the pages in the tree are those of the map that the calls build, with their
inodes, offsets and frames; no key occurs twice; `total_pages` is their number;
a lookup returns the page that the map has for the key, if there is one; and
invalidating an inode takes out its pages and no others. -/
theorem page_cache_finite_map (c₀ : PageCache) (calls : List CacheCall)
    (allowed : Allowed cacheStep cacheLegal (pageCacheInit c₀) calls)
    (clean : ∀ call ∈ calls, keepsClean call) :
    ∃ c t, exec cacheStep (pageCacheInit c₀) calls = some c ∧ Holds c.tree t ∧
      t.toList.Perm ((calls.foldl cacheSpec []).map CacheEntry.page) ∧
      (∀ e ∈ calls.foldl cacheSpec [], (c.page e.page).inode = e.inode ∧
        (c.page e.page).offset = e.offset ∧ (c.page e.page).physicalAddr = e.physicalAddr) ∧
      (∀ p ∈ t.toList, ∀ q ∈ t.toList, (c.page p).inode = (c.page q).inode →
        (c.page p).offset = (c.page q).offset → p = q) ∧
      c.totalPages = t.toList.length ∧
      (∀ inode offset ticks, ∃ c', pageCacheLookup inode offset ticks c =
        some ((findEntry (calls.foldl cacheSpec []) inode offset).map CacheEntry.page, c')) ∧
      ∀ inode, ∃ c' t', pageCacheInvalidateInode inode c = some c' ∧ Holds c'.tree t' ∧
        ∀ p, p ∈ t'.toList ↔ p ∈ t.toList ∧ (c.page p).inode ≠ inode := by
  obtain ⟨c, _, ran, rep⟩ := exec_cacheStep (pageCacheInit_rep c₀) allowed clean
  obtain ⟨t, holds, -, rfl⟩ := rep.tree
  refine ⟨c, t, ran, holds, rep.pages, fun e member => ?_, ?_, ?_, fun inode offset ticks => ?_,
    fun inode => ?_⟩
  · have backs := rep.backed e member
    exact ⟨backs.inode, backs.offset, backs.physicalAddr⟩
  · intro p p_mem q q_mem inode offset
    obtain ⟨a, a_mem, rfl⟩ := rep.exists_entry p_mem
    obtain ⟨b, b_mem, rfl⟩ := rep.exists_entry q_mem
    rw [(rep.backed a a_mem).inode, (rep.backed b b_mem).inode] at inode
    rw [(rep.backed a a_mem).offset, (rep.backed b b_mem).offset] at offset
    exact rep.eq_of_key a_mem b_mem inode offset
  · rw [rep.total, rep.pages.length_eq, length_map]
  · obtain ⟨c', looked, -⟩ := pageCacheLookup_spec rep inode offset ticks
    exact ⟨c', looked⟩
  · obtain ⟨c', _, invalidated, rep'⟩ := pageCacheInvalidateInode_spec rep inode
    obtain ⟨t', holds', -, rfl⟩ := rep'.tree
    refine ⟨c', t', invalidated, holds', fun p => ?_⟩
    rw [rep'.pages.mem_iff, rep.pages.mem_iff, mem_map, mem_map]
    constructor
    · rintro ⟨e, member, rfl⟩
      obtain ⟨old, other⟩ := mem_filter.mp member
      rw [(rep.backed e old).inode]
      exact ⟨⟨e, old, rfl⟩, by simpa using other⟩
    · rintro ⟨⟨e, old, rfl⟩, other⟩
      rw [(rep.backed e old).inode] at other
      exact ⟨e, mem_filter.mpr ⟨old, by simpa using other⟩, rfl⟩

/-- Four pages of two files; the first is released and reclaimed, the second file is
invalidated. -/
def cacheSample : List CacheCall :=
  [.add 7 0 0x5000 1 (some (rbNodeAt 3)), .add 7 4096 0x6000 2 (some (rbNodeAt 7)),
    .add 8 0 0x7000 3 (some (rbNodeAt 11)), .add 7 8192 0x8000 4 (some (rbNodeAt 15)),
    .put (some (rbNodeAt 3)), .lookup 7 4096 5, .reclaim 3, .invalidateInode 8]

theorem cacheSample_entries :
    cacheSample.foldl cacheSpec [] =
      [⟨rbNodeAt 7, 7, 4096, 0x6000, 1, false⟩,
        ⟨rbNodeAt 15, 7, 8192, 0x8000, 1, false⟩] := by
  decide

/-- A page cache before `page_cache_init`. -/
def cacheBoot : PageCache where
  tree := ⟨fun _ => 0#32, fun _ _ => none, none⟩
  links := ⟨fun _ => .null, fun _ => .null⟩
  page _ := ⟨0, 0#32, 0, 0, 0, 0, 0⟩
  totalPages := 0
  dirtyPages := 0
  lockedPages := 0
  hits := 0
  misses := 0
  evictions := 0
  writebacks := 0
  pmm := pmmAllUsed 0x1000000 0x100000 0x200000

theorem page_cache_finite_map_sample :
    ∃ c t, exec cacheStep (pageCacheInit cacheBoot) cacheSample = some c ∧ Holds c.tree t ∧
      c.totalPages = 2 ∧
      (∃ c', pageCacheLookup 7 4096 6 c = some (some (rbNodeAt 7), c')) ∧
      ∃ c', pageCacheLookup 7 0 6 c = some (none, c') := by
  have clean : ∀ call ∈ cacheSample, keepsClean call := by
    simp [cacheSample, keepsClean]
  have allowed : Allowed cacheStep cacheLegal (pageCacheInit cacheBoot) cacheSample := by
    refine allowed_of_entryLegal (pageCacheInit_rep cacheBoot) ?_ clean
    simp only [cacheSample, allowed_cons_total, entryLegal, allowed_nil, and_true]
    decide
  obtain ⟨c, t, ran, holds, pages, -, -, total, lookup, -⟩ :=
    page_cache_finite_map cacheBoot cacheSample allowed clean
  rw [cacheSample_entries] at pages lookup
  refine ⟨c, t, ran, holds, ?_, ?_, ?_⟩
  · rw [total, pages.length_eq]
    rfl
  · exact lookup 7 4096 6
  · exact lookup 7 0 6

end EduOS
