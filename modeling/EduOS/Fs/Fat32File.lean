import EduOS.Fs.Fat32Volume
import EduOS.Library.PagedChain

/-!
# FAT32 files

`kernel/fs/fat32_file.c`: reading and writing an open file.  The directory entry of an open
file is a copy in memory; `fat32_file_write` changes that copy only.

`FileChain` is a file as it should be on a volume: its clusters, chained through the table,
as many as its size needs.  Reading such a file gives its bytes (`FileChain.read`), and not
more unless the position and the count wrap around (`read_bounded_iff`).

The calls return an `int`.  A number of bytes from 2 GiB on comes out negative.
-/

namespace EduOS

open List

/-- A `uint32_t` returned as an `int`. -/
def asInt (n : ℕ) : ℤ := (BitVec.ofNat 32 n).toInt

theorem asInt_eq_iff {n : ℕ} (small : n < 2 ^ 32) : asInt n = n ↔ n < 2 ^ 31 := by
  rw [asInt, BitVec.toInt_eq_toNat_cond, BitVec.toNat_ofNat, Nat.mod_eq_of_lt small]
  split <;> omega

theorem asInt_le (n : ℕ) : asInt n ≤ n := by
  rw [asInt, BitVec.toInt_eq_toNat_cond, BitVec.toNat_ofNat]
  split <;> omega

/-! ## The calls -/

/-- The loop to the cluster of an offset, with the cluster before it. -/
def skipClusters (fs : FatInfo) (dev : BlockDevice) : ℕ → ℕ → ℕ → Option (ℕ × ℕ)
  | 0, prev, cluster => some (prev, cluster)
  | n + 1, prev, cluster =>
    if fat32IsEoc cluster then some (prev, cluster)
    else (fat32ReadFat fs dev cluster).bind fun next => skipClusters fs dev n cluster next

/-- The variables of the loop of `fat32_file_read`; `out` is what is in the caller's buffer. -/
structure ReadState where
  cluster : ℕ
  offset : ℕ
  out : List (BitVec 8)
  buf : Bytes

/-- One pass of it. -/
def readPass (fs : FatInfo) (dev : BlockDevice) (count : ℕ) (s : ReadState) :
    Option (ReadState ⊕ Except ℕ Unit × List (BitVec 8)) :=
  if count ≤ s.out.length ∨ fat32IsEoc s.cluster = true then some (Sum.inr (.ok (), s.out))
  else
    match fat32ReadCluster fs dev s.cluster s.buf with
    | .error _ => some (Sum.inr (.error eio, s.out))
    | .ok buf =>
      let toRead := min (fs.clusterSize - s.offset) (count - s.out.length)
      (fat32ReadFat fs dev s.cluster).map fun next =>
        Sum.inl
          { cluster := next
            offset := 0
            out := s.out ++ (List.range toRead).map fun j => buf (s.offset + j)
            buf := buf }

/-- What `fat32_file_read` returns and puts into the buffer, and the new position. -/
structure ReadResult where
  ret : ℤ
  bytes : List (BitVec 8)
  pos : ℕ
deriving DecidableEq

/-- `fat32_file_read`; `entry` is the private data of the file and `buf` the memory for a
cluster, if there is any. -/
def fat32FileRead (fs : Option FatInfo) (dev : BlockDevice) (buf : Option Bytes)
    (entry : Option DirEntry) (pos count : ℕ) : Option ReadResult :=
  match entry, fs with
  | some entry, some fs =>
    if entry.fileSize ≤ pos then some ⟨0, [], pos⟩
    else
      let count := if entry.fileSize < u32 (pos + count) then entry.fileSize - pos else count
      (skipClusters fs dev (pos / fs.clusterSize) 0 entry.firstCluster).bind fun at_ =>
        match buf with
        | none => some ⟨-enomem, [], pos⟩
        | some buf =>
          (loop (readPass fs dev count) (2 ^ 32) ⟨at_.2, pos % fs.clusterSize, [], buf⟩).map fun
          | (.error errno, out) => ⟨-errno, out, pos⟩
          | (.ok _, out) => ⟨asInt out.length, out, u32 (pos + out.length)⟩
  | _, _ => some ⟨-einval, [], pos⟩

/-- The variables of the loop of `fat32_file_write`. -/
structure WriteState where
  cluster : ℕ
  offset : ℕ
  written : ℕ
  buf : Bytes
  dev : BlockDevice

/-- The `memcpy` into the buffer of a cluster. -/
def overwrite (buf : Bytes) (offset count : ℕ) (bytes : List (BitVec 8)) (written : ℕ) : Bytes :=
  fun j => if offset ≤ j ∧ j < offset + count then bytes.getD (written + (j - offset)) 0 else buf j

/-- The end of a pass of the loop: on to the next cluster, which may have to be allocated. -/
def nextCluster (fs : FatInfo) (s : WriteState) : Option (WriteState ⊕ Except ℕ ℕ × BlockDevice) :=
  (fat32ReadFat fs s.dev s.cluster).bind fun next =>
    if fat32IsEoc next then
      (fat32AllocCluster fs s.dev).bind fun (new, dev) =>
        if new = 0 then some (Sum.inr (.ok s.written, dev))
        else (fat32WriteFat fs dev s.cluster new).map fun r =>
          Sum.inl { s with cluster := new, dev := r.2 }
    else some (Sum.inl { s with cluster := next })

/-- One pass of the loop of `fat32_file_write`. -/
def writePass (fs : FatInfo) (bytes : List (BitVec 8)) (s : WriteState) :
    Option (WriteState ⊕ Except ℕ ℕ × BlockDevice) :=
  if bytes.length ≤ s.written then some (Sum.inr (.ok s.written, s.dev))
  else
    let left := bytes.length - s.written
    let room := fs.clusterSize - s.offset
    -- a failed read is not noticed
    let buf :=
      if 0 < s.offset ∨ left < room then
        (fat32ReadCluster fs s.dev s.cluster s.buf).toOption.getD s.buf
      else s.buf
    let toWrite := min room left
    let buf := overwrite buf s.offset toWrite bytes s.written
    match fat32WriteCluster fs s.dev s.cluster buf with
    | .error _ => some (Sum.inr (.error eio, s.dev))
    | .ok dev =>
      let s := { s with offset := 0, written := s.written + toWrite, buf := buf, dev := dev }
      if s.written < bytes.length then nextCluster fs s else some (Sum.inl s)

/-- The first cluster of a file, allocated if it has none; `none` if the volume is full. -/
def ensureFirst (fs : FatInfo) (dev : BlockDevice) (entry : DirEntry) :
    Option (Option ℕ × DirEntry × BlockDevice) :=
  if entry.firstCluster = 0 then
    (fat32AllocCluster fs dev).map fun (new, dev) =>
      if new = 0 then (none, entry, dev) else (some new, entry.setFirstCluster new, dev)
  else some (some entry.firstCluster, entry, dev)

/-- The cluster `n` after the first one, allocated if the chain ends there. -/
def locateCluster (fs : FatInfo) (dev : BlockDevice) (n first : ℕ) :
    Option (Option ℕ × BlockDevice) :=
  (skipClusters fs dev n 0 first).bind fun (prev, cluster) =>
    if fat32IsEoc cluster = true ∧ 0 < n then
      (fat32AllocCluster fs dev).bind fun (new, dev) =>
        if new = 0 then some (none, dev)
        else if 0 < prev then (fat32WriteFat fs dev prev new).map fun r => (some new, r.2)
        else some (some new, dev)
    else some (some cluster, dev)

/-- What `fat32_file_write` returns, the entry and the position afterwards, and the device. -/
structure WriteResult where
  ret : ℤ
  entry : Option DirEntry
  pos : ℕ
  dev : BlockDevice

/-- The entry after `written` bytes at `pos`. -/
def DirEntry.grown (entry : DirEntry) (pos written : ℕ) : DirEntry :=
  if entry.fileSize < u32 (pos + written) then entry.setFileSize (u32 (pos + written)) else entry

/-- `fat32_file_write` -/
def fat32FileWrite (fs : Option FatInfo) (dev : BlockDevice) (buf : Option Bytes)
    (entry : Option DirEntry) (pos : ℕ) (bytes : List (BitVec 8)) : Option WriteResult :=
  match entry, fs with
  | some entry, some fs =>
    (ensureFirst fs dev entry).bind fun
    | (none, entry, dev) => some ⟨-enospc, some entry, pos, dev⟩
    | (some first, entry, dev) =>
      (locateCluster fs dev (pos / fs.clusterSize) first).bind fun
      | (none, dev) => some ⟨-enospc, some entry, pos, dev⟩
      | (some cluster, dev) =>
        match buf with
        | none => some ⟨-enomem, some entry, pos, dev⟩
        | some buf =>
          (loop (writePass fs bytes) (2 ^ 32) ⟨cluster, pos % fs.clusterSize, 0, buf, dev⟩).map fun
          | (.error errno, dev) => ⟨-errno, some entry, pos, dev⟩
          | (.ok written, dev) =>
            ⟨asInt written, some (entry.grown pos written), u32 (pos + written), dev⟩
  | _, _ => some ⟨-einval, entry, pos, dev⟩

/-! ## Files on a volume -/

/-- How many clusters a file of this size needs. -/
def FatInfo.clustersFor (fs : FatInfo) (size : ℕ) : ℕ :=
  (size + fs.clusterSize - 1) / fs.clusterSize

/-- The clusters of a file: as many as it needs, chained from the first one that its entry
names to an end-of-chain mark.  An empty file has none. -/
structure FileChain (fs : FatInfo) (view : FatView) (entry : DirEntry) (chain : List ℕ) : Prop where
  inRange : ∀ c ∈ chain, fs.InRange c
  nodup : chain.Nodup
  chained : Chained view.entry (fat32IsEoc · = true) chain
  first : entry.firstCluster = chain.headD 0
  length : chain.length = fs.clustersFor entry.fileSize

theorem DirEntry.fileSize_lt (entry : DirEntry) : entry.fileSize < 2 ^ 32 := by
  rw [DirEntry.fileSize]
  omega

section

variable {fs : FatInfo}

theorem FatInfo.clustersFor_le_iff (pos : 0 < fs.clusterSize) {size n : ℕ} :
    fs.clustersFor size ≤ n ↔ size ≤ n * fs.clusterSize := by
  rw [clustersFor, Nat.div_le_iff_le_mul_add_pred pos, Nat.mul_comm n]
  omega

theorem FatInfo.lt_clustersFor_iff (pos : 0 < fs.clusterSize) {size n : ℕ} :
    n < fs.clustersFor size ↔ n * fs.clusterSize < size := by
  rw [← Nat.not_le, ← Nat.not_le, clustersFor_le_iff pos]

variable {dev : BlockDevice} {view : FatView} {entry : DirEntry} {chain : List ℕ}

/-- The clusters of a chain are in use. -/
theorem chained_used (inRange : ∀ c ∈ chain, fs.InRange c)
    (chained : Chained view.entry (fat32IsEoc · = true) chain) :
    ∀ c ∈ chain, view.entry c ≠ fat32Free := by
  intro c mem free
  obtain ⟨i, below, rfl⟩ := getElem_of_mem mem
  by_cases more : i + 1 < chain.length
  · have low := (inRange _ (getElem_mem more)).1
    rw [← chained.next_getElem more, free, fat32Free] at low
    exact absurd low (by decide)
  have last : i = chain.length - 1 := by omega
  subst last
  have mark := chained.next_last (by omega)
  rw [free] at mark
  exact absurd mark (by decide)

/-- The byte of a file at an offset lies in one of its clusters. -/
theorem FileChain.page_lt (file : FileChain fs view entry chain) (pos : 0 < fs.clusterSize)
    {offset : ℕ} (below : offset < entry.fileSize) : offset / fs.clusterSize < chain.length := by
  rw [file.length, FatInfo.lt_clustersFor_iff pos]
  exact lt_of_le_of_lt (Nat.div_mul_le_self _ _) below

/-- The file reaches to the end of its last cluster at most. -/
theorem FileChain.size_le (file : FileChain fs view entry chain) (pos : 0 < fs.clusterSize) :
    entry.fileSize ≤ chain.length * fs.clusterSize :=
  (FatInfo.clustersFor_le_iff pos).mp file.length.ge

/-- A file does not notice what happens outside of its clusters. -/
theorem FileChain.congr {view' : FatView} (file : FileChain fs view entry chain)
    (same : ∀ c ∈ chain, view'.entry c = view.entry c) : FileChain fs view' entry chain :=
  ⟨file.inRange, file.nodup, file.chained.congr same, file.first, file.length⟩

/-- The walk along a chain from the cluster at `i`: to a later cluster, or to the mark
behind the last one. -/
theorem Shows.skip (shows : Shows fs dev view) (inRange : ∀ c ∈ chain, fs.InRange c)
    (chained : Chained view.entry (fat32IsEoc · = true) chain) :
    ∀ (n i prev : ℕ) (below : i < chain.length), i + n ≤ chain.length →
      ∃ prev' cluster, skipClusters fs dev n prev chain[i] = some (prev', cluster) ∧
        (∀ more : i + n < chain.length, cluster = chain[i + n]) ∧
        (i + n = chain.length → fat32IsEoc cluster = true ∧ chain[chain.length - 1]? = some prev')
  | 0, i, prev, below, _ => ⟨prev, chain[i], rfl, fun _ => rfl, fun ends => by omega⟩
  | n + 1, i, prev, below, reach => by
    have range := inRange _ (getElem_mem below)
    have step : skipClusters fs dev (n + 1) prev chain[i] =
        skipClusters fs dev n chain[i] (view.entry chain[i]) := by
      rw [skipClusters, shows.geometry.not_eoc range, shows.readFat range]
      rfl
    rw [step]
    by_cases more : i + 1 < chain.length
    · rw [chained.next_getElem more]
      obtain ⟨prev', cluster, run, inside, ends⟩ :=
        shows.skip inRange chained n (i + 1) chain[i] more (by omega)
      refine ⟨prev', cluster, run, fun further => ?_, fun reach => ends (by omega)⟩
      rw [inside (by omega)]
      congr 1
      omega
    · -- behind the last cluster nothing is left to skip
      obtain ⟨rfl, last⟩ : n = 0 ∧ i = chain.length - 1 := by omega
      refine ⟨chain[i], view.entry chain[i], rfl, fun further => by omega, fun _ => ⟨?_, ?_⟩⟩
      · subst last
        exact chained.next_last (by omega)
      · rw [← last, getElem?_eq_getElem below]

/-! ## Reading -/

/-- The bytes of a file. -/
def chainBytes (fs : FatInfo) (view : FatView) (entry : DirEntry) (chain : List ℕ) :
    List (BitVec 8) :=
  (List.range entry.fileSize).map (pagedByte view.byte fs.clusterSize chain)

/-- So many bytes of a chain from a position on. -/
def chainSlice (fs : FatInfo) (view : FatView) (chain : List ℕ) (pos n : ℕ) : List (BitVec 8) :=
  (List.range n).map fun i => pagedByte view.byte fs.clusterSize chain (pos + i)

theorem chainBytes_drop (fs : FatInfo) (view : FatView) (entry : DirEntry) (chain : List ℕ)
    (pos : ℕ) :
    (chainBytes fs view entry chain).drop pos =
      chainSlice fs view chain pos (entry.fileSize - pos) := by
  rw [chainBytes, ← map_drop]
  refine ext_getElem (by simp [chainSlice]) fun i below _ => ?_
  simp [chainSlice]

theorem length_chainSlice (pos n : ℕ) : (chainSlice fs view chain pos n).length = n := by
  simp [chainSlice]

theorem take_chainSlice (pos n k : ℕ) :
    (chainSlice fs view chain pos n).take k = chainSlice fs view chain pos (min k n) := by
  rw [chainSlice, ← map_take, take_range, chainSlice]

/-- The end of a page, or the end of what is asked for. -/
theorem next_page {size o step : ℕ} (size_pos : 0 < size) (to_end : step = size - o % size) :
    (o + step) / size = o / size + 1 ∧ (o + step) % size = 0 := by
  have split := Nat.div_add_mod o size
  have below := Nat.mod_lt o size_pos
  have sum : o + step = size * (o / size + 1) := by
    rw [Nat.mul_succ]
    omega
  rw [sum]
  exact ⟨Nat.mul_div_cancel_left _ size_pos, Nat.mul_mod_right _ _⟩

/-- Where the loop stands: at the cluster and the offset of the next byte, or behind the last
cluster. -/
def ReadState.At (fs : FatInfo) (chain : List ℕ) (pos : ℕ) (s : ReadState) : Prop :=
  chain[(pos + s.out.length) / fs.clusterSize]? = some s.cluster ∧
      s.offset = (pos + s.out.length) % fs.clusterSize ∨
    fat32IsEoc s.cluster = true ∧ pos + s.out.length = chain.length * fs.clusterSize

/-- One pass of the loop: the bytes to the end of the cluster, or all that are left. -/
theorem Shows.readPass (shows : Shows fs dev view) (inRange : ∀ c ∈ chain, fs.InRange c)
    (chained : Chained view.entry (fat32IsEoc · = true) chain) {pos count : ℕ} {s : ReadState}
    (out : s.out = chainSlice fs view chain pos s.out.length) (more : s.out.length < count)
    (page : chain[(pos + s.out.length) / fs.clusterSize]? = some s.cluster)
    (offset : s.offset = (pos + s.out.length) % fs.clusterSize) :
    ∃ s', readPass fs dev count s = some (Sum.inl s') ∧ s.out.length < s'.out.length ∧
      s'.out.length ≤ count ∧ pos + s'.out.length ≤ chain.length * fs.clusterSize ∧
      s'.out = chainSlice fs view chain pos s'.out.length ∧
      (s'.out.length < count → s'.At fs chain pos) := by
  have size_pos := shows.geometry.size_pos
  obtain ⟨below, cluster_eq⟩ := List.getElem?_eq_some_iff.mp page
  have range : fs.InRange s.cluster := cluster_eq ▸ inRange _ (getElem_mem below)
  obtain ⟨buf, read, held⟩ := shows.readCluster range s.buf
  have offset_lt : s.offset < fs.clusterSize := offset ▸ Nat.mod_lt _ size_pos
  have go_on : ¬(count ≤ s.out.length ∨ fat32IsEoc s.cluster = true) := by
    rw [shows.geometry.not_eoc range]
    simp only [Bool.false_eq_true, or_false]
    omega
  rw [EduOS.readPass, if_neg go_on, read]
  dsimp only
  rw [shows.readFat range, Option.map_some]
  set step := min (fs.clusterSize - s.offset) (count - s.out.length) with step_def
  have split := Nat.div_add_mod (pos + s.out.length) fs.clusterSize
  -- the bytes of this pass are those of the file from here on
  have bytes : ((List.range step).map fun j => buf (s.offset + j)) =
      (List.range step).map fun j =>
        pagedByte view.byte fs.clusterSize chain (pos + (s.out.length + j)) := by
    refine map_congr_left fun j mem => ?_
    have j_lt := mem_range.mp mem
    have sum : pos + (s.out.length + j) =
        fs.clusterSize * ((pos + s.out.length) / fs.clusterSize) + (s.offset + j) := by omega
    rw [held _ (by omega), pagedByte, sum, Nat.mul_add_div size_pos, Nat.mul_add_mod,
      Nat.div_eq_of_lt (by omega : s.offset + j < fs.clusterSize), Nat.add_zero,
      Nat.mod_eq_of_lt (by omega : s.offset + j < fs.clusterSize),
      getD_eq_getElem _ _ below, cluster_eq]
  have length : (s.out ++ (List.range step).map fun j => buf (s.offset + j)).length =
      s.out.length + step := by simp
  have page_end : fs.clusterSize * ((pos + s.out.length) / fs.clusterSize + 1) ≤
      fs.clusterSize * chain.length := Nat.mul_le_mul_left _ below
  rw [Nat.mul_succ, Nat.mul_comm _ chain.length] at page_end
  refine ⟨_, rfl, by dsimp only; omega, by dsimp only; omega, by dsimp only; omega, ?_, ?_⟩
  · rw [length, chainSlice, range_add, map_append, ← chainSlice, ← out, bytes, map_map]
    rfl
  intro left
  rw [ReadState.At]
  rw [length] at left ⊢
  have to_end : step = fs.clusterSize - s.offset := by omega
  obtain ⟨next, zero⟩ := next_page size_pos (offset ▸ to_end)
  rw [← Nat.add_assoc, next, zero]
  by_cases inside : (pos + s.out.length) / fs.clusterSize + 1 < chain.length
  · rw [getElem?_eq_getElem inside, ← cluster_eq, chained.next_getElem inside]
    exact Or.inl ⟨rfl, rfl⟩
  right
  have pages : (pos + s.out.length) / fs.clusterSize + 1 = chain.length :=
    Nat.le_antisymm below (Nat.le_of_not_lt inside)
  have last := Nat.eq_sub_of_add_eq pages
  have whole := Nat.div_add_mod (pos + s.out.length + step) fs.clusterSize
  rw [next, zero, pages] at whole
  simp only [last] at cluster_eq
  rw [← cluster_eq, Nat.mul_comm chain.length]
  exact ⟨chained.next_last (by omega), by omega⟩

section

variable (file : FileChain fs view entry chain) (shows : Shows fs dev view) (buf : Bytes)
include file shows buf

/-- The loop from a position in the file on: the bytes of the clusters, up to the end of the
last one. -/
theorem FileChain.readLoop {pos k : ℕ} (below : pos < entry.fileSize) (small : k < 2 ^ 32) :
    ∃ prev cluster, skipClusters fs dev (pos / fs.clusterSize) 0 entry.firstCluster =
        some (prev, cluster) ∧
      loop (readPass fs dev k) (2 ^ 32) ⟨cluster, pos % fs.clusterSize, [], buf⟩ =
        some (.ok (),
          chainSlice fs view chain pos (min k (chain.length * fs.clusterSize - pos))) := by
  have size_pos := shows.geometry.size_pos
  have page_lt := file.page_lt size_pos below
  have chain_pos : 0 < chain.length := Nat.zero_lt_of_lt page_lt
  have first : entry.firstCluster = chain[0] := by
    rw [file.first, headD_eq_head?_getD, head?_eq_getElem?,
      getElem?_eq_getElem chain_pos, Option.getD_some]
  obtain ⟨prev, cluster, skip, inside, _⟩ := shows.skip file.inRange file.chained
    (pos / fs.clusterSize) 0 0 chain_pos (by omega)
  obtain ⟨⟨status, got⟩, run, ok, bytes⟩ := loop_total (readPass fs dev k)
    (fun s => s.out.length ≤ k ∧
      pos + s.out.length ≤ chain.length * fs.clusterSize ∧
      s.out = chainSlice fs view chain pos s.out.length ∧
      (s.out.length < k → s.At fs chain pos))
    (fun r => r.1 = .ok () ∧
      r.2 = chainSlice fs view chain pos (min k (chain.length * fs.clusterSize - pos)))
    (fun s => k - s.out.length) (by
      rintro s ⟨le, reach, out, here⟩
      by_cases done : k ≤ s.out.length
      · right
        refine ⟨_, if_pos (Or.inl done), rfl, ?_⟩
        rwa [show s.out.length = min k (chain.length * fs.clusterSize - pos) by omega] at out
      rcases here (by omega) with ⟨page, offset⟩ | ⟨eoc, ends⟩
      · left
        obtain ⟨s', pass, longer, inv⟩ := shows.readPass file.inRange file.chained
          out (show s.out.length < k by omega) page offset
        exact ⟨s', pass, inv, by omega⟩
      · right
        refine ⟨_, if_pos (Or.inr eoc), rfl, ?_⟩
        rwa [show s.out.length = min k (chain.length * fs.clusterSize - pos) by omega] at out)
    (2 ^ 32) ⟨cluster, pos % fs.clusterSize, [], buf⟩
    (by
      have := file.size_le size_pos
      refine ⟨Nat.zero_le _, by dsimp only [length_nil]; omega, rfl, fun _ => Or.inl ⟨?_, rfl⟩⟩
      rw [inside (by omega), length_nil, Nat.add_zero, getElem?_eq_getElem page_lt]
      congr 2
      omega)
    (by simp only [length_nil]; omega)
  obtain rfl : status = .ok () := ok
  obtain rfl := bytes
  exact ⟨prev, cluster, first ▸ skip, run⟩

/-- The call from a position in the file on, with `k` bytes to read. -/
theorem FileChain.fileRead {pos count k : ℕ} (below : pos < entry.fileSize) (small : k < 2 ^ 32)
    (clamp : (if entry.fileSize < u32 (pos + count) then entry.fileSize - pos else count) = k)
    {n : ℕ} (n_eq : n = min k (chain.length * fs.clusterSize - pos)) :
    fat32FileRead (some fs) dev (some buf) (some entry) pos count =
      some ⟨asInt n, chainSlice fs view chain pos n, u32 (pos + n)⟩ := by
  obtain ⟨prev, cluster, skip, run⟩ := file.readLoop shows buf below small
  rw [fat32FileRead, if_neg (Nat.not_le_of_lt below), clamp]
  dsimp only
  rw [skip, Option.bind_some, run, ← n_eq, Option.map_some]
  dsimp only
  rw [length_chainSlice]

/-- **Reading a file** gives its bytes from the position on, as many as there are. -/
theorem FileChain.read (pos count : ℕ) (small : pos + count < 2 ^ 32) {out : List (BitVec 8)}
    (out_eq : out = ((chainBytes fs view entry chain).drop pos).take count) :
    fat32FileRead (some fs) dev (some buf) (some entry) pos count =
      some ⟨asInt out.length, out, pos + out.length⟩ := by
  rw [chainBytes_drop, take_chainSlice] at out_eq
  by_cases ended : entry.fileSize ≤ pos
  · rw [Nat.sub_eq_zero_of_le ended, Nat.min_zero] at out_eq
    subst out_eq
    rw [fat32FileRead, if_pos ended]
    rfl
  have size_le := file.size_le shows.geometry.size_pos
  have clamp : (if entry.fileSize < u32 (pos + count) then entry.fileSize - pos else count) =
      min count (entry.fileSize - pos) := by
    rw [u32_of_lt small]
    split <;> omega
  have length : out.length = min count (entry.fileSize - pos) := by
    rw [out_eq, length_chainSlice]
  rw [file.fileRead shows buf (Nat.lt_of_not_le ended) (by omega) clamp
    (show out.length = _ by omega), u32_of_lt (by omega), length, ← out_eq]

end

/-- What a read may do: return and copy at most the bytes that are left of the file, and
move the position to its end at most. -/
structure ReadBounded (fs : FatInfo) (view : FatView) (entry : DirEntry) (chain : List ℕ)
    (pos : ℕ) (r : ReadResult) : Prop where
  ret : r.ret ≤ max 0 ((entry.fileSize : ℤ) - pos)
  bytes : r.bytes <+: (chainBytes fs view entry chain).drop pos
  pos : r.pos ≤ max pos entry.fileSize

/-- The result of a loop that has copied `n` bytes. -/
theorem readBounded_iff {pos n : ℕ} (below : pos < entry.fileSize) :
    ReadBounded fs view entry chain pos
        ⟨asInt n, chainSlice fs view chain pos n, u32 (pos + n)⟩ ↔ pos + n ≤ entry.fileSize := by
  have size_lt := entry.fileSize_lt
  constructor
  · intro bounded
    have shorter := bounded.bytes.length_le
    simp only [chainBytes_drop, length_chainSlice] at shorter
    omega
  intro le
  refine ⟨(asInt_le n).trans ?_, ?_, ?_⟩
  · omega
  · have short : n = min n (entry.fileSize - pos) := by omega
    rw [chainBytes_drop, short, ← take_chainSlice]
    exact take_prefix ..
  · dsimp only
    rw [u32_of_lt (by omega)]
    omega

/-- The clusters of a file end with the file only if its size is a multiple of theirs. -/
theorem FileChain.ends_iff (file : FileChain fs view entry chain) (size_pos : 0 < fs.clusterSize) :
    chain.length * fs.clusterSize ≤ entry.fileSize ↔ fs.clusterSize ∣ entry.fileSize := by
  have size_le := file.size_le size_pos
  constructor
  · exact fun le => Dvd.intro_left _ (le_antisymm le size_le)
  · rintro ⟨pages, size⟩
    rw [size, Nat.mul_comm]
    refine Nat.mul_le_mul_left _ ?_
    rw [file.length, FatInfo.clustersFor_le_iff size_pos, size, Nat.mul_comm]

/-- A file of two bytes in cluster 2, on a volume where every entry ends a chain. -/
def twoBytes : DirEntry := (DirEntry.setFirstCluster (fun _ => 0) 2).setFileSize 2

def onesDevice : BlockDevice := ⟨1000, fun _ => 0xFF⟩

theorem twoBytes_file : FileChain (smallInfo 8) (viewOf (smallInfo 8) onesDevice) twoBytes [2] where
  inRange := by decide
  nodup := nodup_singleton 2
  chained := show fat32IsEoc _ = true by decide +kernel
  first := by decide
  length := by decide

theorem onesDevice_shows : Shows (smallInfo 8) onesDevice (viewOf (smallInfo 8) onesDevice) := by
  refine FatGeometry.shows ?_
  constructor <;> decide

end

end EduOS
