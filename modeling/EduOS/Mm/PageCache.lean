import EduOS.Include.List
import EduOS.Lib.RbtreeWalk
import EduOS.Mm.Pmm

/-!
# The page cache

`kernel/mm/page_cache.c`: pages of files, found by inode number and offset.  A
cached page hangs in the red-black tree `cache_tree`, ordered by that key, and with
its one `struct list_head` either in `lru_list` or in `dirty_list`.

A page is named by the address of its `rb_node`.  The descriptor of a new page comes
from `kmalloc`; the address it returns is a parameter of `page_cache_add`.  So is
the time that `timer_get_ticks` returns, which every function reads at most once.
-/

namespace EduOS

def maxCachePages : ℕ := 1024

def pageCacheDirty : BitVec 32 := 0x01

def pageCacheLocked : BitVec 32 := 0x02

def pageCacheUptodate : BitVec 32 := 0x04

/-- `PAGE_CACHE_WRITEBACK` -/
def pageCacheWritebackFlag : BitVec 32 := 0x08

/-- `struct cached_page` without its links. -/
structure CachedPage where
  physicalAddr : ℕ
  flags : BitVec 32
  inode : ℕ
  offset : ℕ
  refcount : ℕ
  accessTime : ℕ
  dirtyTime : ℕ

/-- The addresses of `struct list_head`s: null, the two list heads, and the `lru`
fields of the pages. -/
inductive CacheLink
  | null
  | lruList
  | dirtyList
  | page (page : RbNode)
  deriving DecidableEq

/-- `g_page_cache`, the pages, and the frame allocator that frames return to. -/
structure PageCache where
  /-- `cache_tree` and the `rb_node` fields. -/
  tree : RbMemory
  /-- The memory of all `struct list_head`s. -/
  links : Links CacheLink
  page : RbNode → CachedPage
  totalPages : ℕ
  dirtyPages : ℕ
  lockedPages : ℕ
  hits : ℕ
  misses : ℕ
  evictions : ℕ
  writebacks : ℕ
  pmm : Pmm

namespace PageCache

def setPage (c : PageCache) (p : RbNode) (data : CachedPage) : PageCache :=
  { c with page := Function.update c.page p data }

def test (c : PageCache) (p : RbNode) (mask : BitVec 32) : Bool := hasFlag (c.page p).flags mask

/-- `list_del(&page->lru)` -/
def del (c : PageCache) (p : RbNode) : Option PageCache :=
  (listDel .null c.links (.page p)).map fun links => { c with links := links }

/-- `list_add(&page->lru, &g_page_cache.lru_list)` -/
def addLru (c : PageCache) (p : RbNode) : Option PageCache :=
  (listAdd .null c.links (.page p) .lruList).map fun links => { c with links := links }

end PageCache

/-- `page_cache_init` -/
def pageCacheInit (c : PageCache) : PageCache :=
  { c with
    tree := { c.tree with root := none }
    links := initListHead (initListHead c.links .lruList) .dirtyList
    totalPages := 0
    dirtyPages := 0
    lockedPages := 0
    hits := 0
    misses := 0
    evictions := 0
    writebacks := 0 }

def compareCacheKey (inode1 offset1 inode2 offset2 : ℕ) : ℤ :=
  if inode1 < inode2 then -1
  else if inode2 < inode1 then 1
  else if offset1 < offset2 then -1
  else if offset2 < offset1 then 1
  else 0

/-- The turn that `page_cache_lookup` takes at a page. -/
def lookupTurn (c : PageCache) (inode offset : ℕ) (p : RbNode) : Option Side :=
  let cmp := compareCacheKey inode offset (c.page p).inode (c.page p).offset
  if cmp < 0 then some .left else if 0 < cmp then some .right else none

/-- The turn that `page_cache_add` takes at a page. -/
def addTurn (c : PageCache) (inode offset : ℕ) (p : RbNode) : Side :=
  if compareCacheKey inode offset (c.page p).inode (c.page p).offset < 0 then .left else .right

/-- `page_cache_lookup` -/
def pageCacheLookup (inode offset ticks : ℕ) (c : PageCache) :
    Option (Option RbNode × PageCache) := do
  match ← rbSearch c.tree (lookupTurn c inode offset) with
  | some p =>
    let c := c.setPage p { c.page p with accessTime := ticks }
    let c ← c.del p
    let c ← c.addLru p
    some (some p, { c with hits := u64 (c.hits + 1) })
  | none => some (none, { c with misses := u64 (c.misses + 1) })

/-- `page_cache_writeback` -/
def pageCacheWriteback (page : Option RbNode) (c : PageCache) : Option PageCache :=
  match page with
  | none => some c
  | some p =>
    if !c.test p pageCacheDirty then some c
    else do
      let flags := (c.page p).flags ||| pageCacheWritebackFlag
      let c := c.setPage p
        { c.page p with flags := flags &&& ~~~(pageCacheDirty ||| pageCacheWritebackFlag) }
      let c ←
        if !listEmpty c.links (.page p) then do
          let c ← c.del p
          c.addLru p
        else some c
      some { c with
        dirtyPages := sub32 c.dirtyPages 1
        writebacks := u64 (c.writebacks + 1) }

/-- `page_cache_remove` -/
def pageCacheRemove (page : Option RbNode) (c : PageCache) : Option PageCache :=
  match page with
  | none => some c
  | some p => do
      let c ← if c.test p pageCacheDirty then pageCacheWriteback (some p) c else some c
      let tree ← rbErase p c.tree
      let c := { c with tree := tree }
      let c ← c.del p
      some { c with
        totalPages := sub32 c.totalPages 1
        dirtyPages := if c.test p pageCacheDirty then sub32 c.dirtyPages 1 else c.dirtyPages
        lockedPages := if c.test p pageCacheLocked then sub32 c.lockedPages 1 else c.lockedPages
        pmm := pmmFreeFrame c.pmm (c.page p).physicalAddr }

/-- `page_cache_mark_dirty` -/
def pageCacheMarkDirty (page : Option RbNode) (ticks : ℕ) (c : PageCache) : Option PageCache :=
  match page with
  | none => some c
  | some p =>
    if c.test p pageCacheDirty then some c
    else do
      let c := c.setPage p
        { c.page p with flags := (c.page p).flags ||| pageCacheDirty, dirtyTime := ticks }
      let links ← listAddTail .null c.links (.page p) .dirtyList
      some { c with links := links, dirtyPages := u32 (c.dirtyPages + 1) }

/-- `page_cache_lock` -/
def pageCacheLock (page : Option RbNode) (c : PageCache) : PageCache :=
  match page with
  | none => c
  | some p =>
    if c.test p pageCacheLocked then c
    else
      { c.setPage p { c.page p with flags := (c.page p).flags ||| pageCacheLocked } with
        lockedPages := u32 (c.lockedPages + 1) }

/-- `page_cache_unlock` -/
def pageCacheUnlock (page : Option RbNode) (c : PageCache) : PageCache :=
  match page with
  | none => c
  | some p =>
    if c.test p pageCacheLocked then
      { c.setPage p { c.page p with flags := (c.page p).flags &&& ~~~pageCacheLocked } with
        lockedPages := sub32 c.lockedPages 1 }
    else c

/-- `page_cache_get` -/
def pageCacheGet (page : Option RbNode) (c : PageCache) : PageCache :=
  match page with
  | none => c
  | some p => c.setPage p { c.page p with refcount := u32 ((c.page p).refcount + 1) }

/-- `page_cache_put`: a page without references is left to reclaim. -/
def pageCachePut (page : Option RbNode) (c : PageCache) : PageCache :=
  match page with
  | none => c
  | some p =>
    if 0 < (c.page p).refcount then
      c.setPage p { c.page p with refcount := (c.page p).refcount - 1 }
    else c

/-- The variables of the loop of `page_cache_reclaim`. -/
structure ReclaimWalk where
  page : CacheLink
  tmp : CacheLink
  reclaimed : ℕ
  cache : PageCache

/-- One pass of `page_cache_reclaim`.  A walk that leaves the pages (by way of a
corrupted list) reads what is no page: that is a fault. -/
def reclaimPass (nrPages : ℕ) (w : ReclaimWalk) : Option (ReclaimWalk ⊕ (ℕ × PageCache)) :=
  match w.page with
  | .lruList => some (.inr (w.reclaimed, w.cache))
  | .page p =>
    if nrPages ≤ w.reclaimed then some (.inr (w.reclaimed, w.cache))
    else do
      let (reclaimed, c) ←
        if w.cache.test p pageCacheLocked || decide (0 < (w.cache.page p).refcount) then
          some (w.reclaimed, w.cache)
        else do
          let c ← pageCacheRemove (some p) w.cache
          some (u32 (w.reclaimed + 1), { c with evictions := u64 (c.evictions + 1) })
      if w.tmp = .null then none else some (.inl ⟨w.tmp, c.links.prev w.tmp, reclaimed, c⟩)
  | .null => none
  | .dirtyList => none

/-- `page_cache_reclaim` -/
def pageCacheReclaim (nrPages : ℕ) (c : PageCache) : Option (ℕ × PageCache) :=
  let last := c.links.prev .lruList
  if last = .null then none
  else loop (reclaimPass nrPages) (2 ^ 32) ⟨last, c.links.prev last, 0, c⟩

/-- `page_cache_add` up to `kmalloc`: what it returns if it returns before, and the
cache.  The count of reclaimed pages is an `int`. -/
def pageCachePrepare (inode offset ticks : ℕ) (c : PageCache) :
    Option (Option (Option RbNode) × PageCache) := do
  let (existing, c) ← pageCacheLookup inode offset ticks c
  match existing with
  | some p => some (some (some p), c)
  | none =>
    if maxCachePages ≤ c.totalPages then do
      let (count, c) ← pageCacheReclaim 1 c
      if 2 ^ 31 ≤ count then some (some none, c) else some (none, c)
    else some (none, c)

/-- `page_cache_add` fills in the descriptor `p` that `kmalloc` returned. -/
def pageCacheDescribe (inode offset physAddr ticks : ℕ) (p : RbNode) (c : PageCache) :
    PageCache :=
  { c.setPage p
      { physicalAddr := physAddr, flags := pageCacheUptodate, inode := inode, offset := offset,
        refcount := 1, accessTime := ticks, dirtyTime := 0 } with
    links := initListHead c.links (.page p)
    tree := rbInitNode c.tree p }

/-- `page_cache_add` after `kmalloc`, which returned `p`. -/
def pageCacheInsert (inode offset physAddr ticks : ℕ) (p : RbNode) (c : PageCache) :
    Option PageCache := do
  let c := pageCacheDescribe inode offset physAddr ticks p c
  let link ← rbSearchSlot c.tree (addTurn c inode offset)
  let tree ← rbInsertColor p (rbLinkNode c.tree p link.parent link)
  let c := { c with tree := tree }
  let c ← c.addLru p
  some { c with totalPages := u32 (c.totalPages + 1) }

/-- `page_cache_add`; `new` is what `kmalloc` returns if it is called. -/
def pageCacheAdd (inode offset physAddr ticks : ℕ) (new : Option RbNode) (c : PageCache) :
    Option (Option RbNode × PageCache) := do
  let (done, c) ← pageCachePrepare inode offset ticks c
  match done with
  | some result => some (result, c)
  | none =>
    match new with
    | none => some (none, c)
    | some p => do
        let c ← pageCacheInsert inode offset physAddr ticks p c
        some (some p, c)

/-- One pass of `page_cache_invalidate_inode`. -/
def invalidatePass (inode : ℕ) : Option RbNode × PageCache →
    Option ((Option RbNode × PageCache) ⊕ PageCache)
  | (none, c) => some (.inr c)
  | (some p, c) => do
      let next ← rbNext c.tree p
      let c ← if (c.page p).inode = inode then pageCacheRemove (some p) c else some c
      some (.inl (next, c))

/-- `page_cache_invalidate_inode` -/
def pageCacheInvalidateInode (inode : ℕ) (c : PageCache) : Option PageCache := do
  let first ← rbFirst c.tree
  loop (invalidatePass inode) (2 ^ 32) (first, c)

/-! ## Calls -/

/-- The calls other kernel code makes. -/
inductive CacheCall
  | add (inode offset physAddr ticks : ℕ) (new : Option RbNode)
  | lookup (inode offset ticks : ℕ)
  | remove (page : Option RbNode)
  | markDirty (page : Option RbNode) (ticks : ℕ)
  | writeback (page : Option RbNode)
  | reclaim (nrPages : ℕ)
  | invalidateInode (inode : ℕ)
  | get (page : Option RbNode)
  | put (page : Option RbNode)
  | lock (page : Option RbNode)
  | unlock (page : Option RbNode)

/-- One call. -/
def cacheStep (c : PageCache) : CacheCall → Option PageCache
  | .add inode offset physAddr ticks new =>
    (pageCacheAdd inode offset physAddr ticks new c).map Prod.snd
  | .lookup inode offset ticks => (pageCacheLookup inode offset ticks c).map Prod.snd
  | .remove page => pageCacheRemove page c
  | .markDirty page ticks => pageCacheMarkDirty page ticks c
  | .writeback page => pageCacheWriteback page c
  | .reclaim nrPages => (pageCacheReclaim nrPages c).map Prod.snd
  | .invalidateInode inode => pageCacheInvalidateInode inode c
  | .get page => some (pageCacheGet page c)
  | .put page => some (pageCachePut page c)
  | .lock page => some (pageCacheLock page c)
  | .unlock page => some (pageCacheUnlock page c)

/-- A page of the cache: a node of its tree. -/
def Cached (c : PageCache) (p : RbNode) : Prop := ∃ t, Holds c.tree t ∧ p ∈ t.toList

/-- `kmalloc` returns the address of no cached page, and pages that are passed to
the cache are cached. -/
def cacheLegal (c : PageCache) : CacheCall → Prop
  | .add inode offset _ ticks new =>
    ∀ p c', new = some p → pageCachePrepare inode offset ticks c = some (none, c') → ¬Cached c' p
  | .remove page => ∀ p, page = some p → Cached c p
  | .markDirty page _ => ∀ p, page = some p → Cached c p
  | .writeback page => ∀ p, page = some p → Cached c p
  | .get page => ∀ p, page = some p → Cached c p
  | .put page => ∀ p, page = some p → Cached c p
  | .lock page => ∀ p, page = some p → Cached c p
  | .unlock page => ∀ p, page = some p → Cached c p
  | .lookup _ _ _ => True
  | .reclaim _ => True
  | .invalidateInode _ => True

end EduOS
