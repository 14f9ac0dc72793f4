import EduOS.Fs.Fat32

/-!
# The table and the clusters of a volume

`FatView` is what a volume is for: an entry and a page of bytes for every cluster.
`Shows fs dev view` says that a device holds it, with the areas of the volume laid out one
after the other (`FatGeometry`).

Every access of `fat32.c` is the access to the view (`Shows.readFat`, `Shows.writeFat`,
`Shows.readCluster`, `Shows.writeCluster`, `Shows.alloc`).  Nothing after this module looks
at sectors.
-/

namespace EduOS

open Function

/-- The number of a cluster of the data area. -/
def FatInfo.InRange (fs : FatInfo) (cluster : ℕ) : Prop := 2 ≤ cluster ∧ cluster < fs.totalClusters

instance (fs : FatInfo) (cluster : ℕ) : Decidable (fs.InRange cluster) :=
  inferInstanceAs (Decidable (_ ∧ _))

/-- The test at the head of every access. -/
theorem FatInfo.InRange.not_outside {fs : FatInfo} {cluster : ℕ} (range : fs.InRange cluster) :
    ¬(cluster < 2 ∨ fs.totalClusters ≤ cluster) := by
  have := range.1
  have := range.2
  omega

/-- A volume with 512-byte sectors on a device with `sectors` sectors: the tables, with an
entry for every cluster, lie before the data area, and the data area lies on the device. -/
structure FatGeometry (fs : FatInfo) (sectors : ℕ) : Prop where
  sector_size : fs.bytesPerSector = 512
  cluster_size : fs.clusterSize = 512 * fs.sectorsPerCluster
  cluster_pos : 0 < fs.sectorsPerCluster
  fats_pos : 0 < fs.numFats
  table : 4 * fs.totalClusters ≤ 512 * fs.fatSize
  tables : fs.fatStartSector + fs.numFats * fs.fatSize ≤ fs.dataStartSector
  data : fs.dataStartSector + (fs.totalClusters - 2) * fs.sectorsPerCluster ≤ sectors
  device : sectors < 2 ^ 32
  numbers : fs.totalClusters ≤ fat32BadCluster

/-! ## The view -/

/-- The entries and the bytes of the clusters. -/
structure FatView where
  entry : ℕ → ℕ
  byte : ℕ → ℕ → BitVec 8

def FatView.setEntry (view : FatView) (cluster value : ℕ) : FatView :=
  { view with entry := update view.entry cluster value }

def FatView.setBytes (view : FatView) (cluster : ℕ) (bytes : Bytes) : FatView :=
  { view with byte := update view.byte cluster bytes }

section

variable (view : FatView) (cluster value : ℕ) (bytes : Bytes)

@[simp] theorem FatView.setEntry_byte : (view.setEntry cluster value).byte = view.byte := rfl

@[simp] theorem FatView.setBytes_entry : (view.setBytes cluster bytes).entry = view.entry := rfl

@[simp] theorem FatView.setEntry_entry_self :
    (view.setEntry cluster value).entry cluster = value := update_self ..

@[simp] theorem FatView.setBytes_byte_self :
    (view.setBytes cluster bytes).byte cluster = bytes := update_self ..

variable {view cluster value bytes} {c : ℕ}

theorem FatView.setEntry_entry_of_ne (ne : c ≠ cluster) :
    (view.setEntry cluster value).entry c = view.entry c := update_of_ne ne ..

theorem FatView.setBytes_byte_of_ne (ne : c ≠ cluster) :
    (view.setBytes cluster bytes).byte c = view.byte c := update_of_ne ne ..

end

/-- The entry of a cluster in the first table. -/
def fatEntry (fs : FatInfo) (dev : BlockDevice) (cluster : ℕ) : ℕ :=
  fat32Masked (dev.bytes.load32 (512 * fs.fatStartSector + 4 * cluster))

/-- Byte `j` of a cluster. -/
def clusterByte (fs : FatInfo) (dev : BlockDevice) (cluster j : ℕ) : BitVec 8 :=
  dev.bytes (512 * (fs.dataStartSector + (cluster - 2) * fs.sectorsPerCluster) + j)

/-- What a device holds. -/
def viewOf (fs : FatInfo) (dev : BlockDevice) : FatView := ⟨fatEntry fs dev, clusterByte fs dev⟩

/-- The device holds this view of the volume. -/
structure Shows (fs : FatInfo) (dev : BlockDevice) (view : FatView) : Prop where
  geometry : FatGeometry fs dev.totalSectors
  entry : ∀ cluster, fs.InRange cluster → fatEntry fs dev cluster = view.entry cluster
  byte : ∀ cluster, fs.InRange cluster → ∀ j, j < fs.clusterSize →
    clusterByte fs dev cluster j = view.byte cluster j

theorem FatGeometry.shows {fs : FatInfo} {dev : BlockDevice}
    (geometry : FatGeometry fs dev.totalSectors) : Shows fs dev (viewOf fs dev) :=
  ⟨geometry, fun _ _ => rfl, fun _ _ _ _ => rfl⟩

/-! ## Where things are -/

section

variable {fs : FatInfo} {sectors cluster : ℕ}

theorem FatGeometry.size_pos (geometry : FatGeometry fs sectors) : 0 < fs.clusterSize := by
  have := geometry.cluster_pos
  rw [geometry.cluster_size]
  omega

section

variable (geometry : FatGeometry fs sectors) (range : fs.InRange cluster)
include geometry range

theorem FatGeometry.cluster_lt : cluster < 0x0FFFFFF7 := range.2.trans_le geometry.numbers

/-- The cluster numbers are no marks. -/
theorem FatGeometry.not_eoc : fat32IsEoc cluster = false := by
  have below := geometry.cluster_lt range
  refine decide_eq_false ?_
  rw [fat32Masked, fat32EocMin]
  omega

theorem FatGeometry.masked : fat32Masked cluster = cluster := by
  have below := geometry.cluster_lt range
  exact Nat.mod_eq_of_lt (by omega)

/-- The sector of an entry, the offset in it, and that it is in the first table. -/
theorem FatGeometry.entry_place :
    fatSector fs cluster = fs.fatStartSector + 4 * cluster / 512 ∧
      entryOffset fs cluster = 4 * cluster % 512 ∧
      4 * cluster / 512 < fs.fatSize ∧
      fs.fatStartSector + fs.fatSize ≤ fs.dataStartSector ∧ fs.dataStartSector ≤ sectors := by
  have below := geometry.cluster_lt range
  have offset : fatOffset cluster = 4 * cluster := by
    rw [fatOffset, Nat.mul_comm]
    exact u32_of_lt (by omega)
  have inside : 4 * cluster / 512 < fs.fatSize := by
    have := geometry.table
    have := range.2
    omega
  have one : fs.fatSize ≤ fs.numFats * fs.fatSize := Nat.le_mul_of_pos_left _ geometry.fats_pos
  have tables := geometry.tables
  have data := geometry.data
  have device := geometry.device
  refine ⟨?_, ?_, inside, by omega, by omega⟩
  · rw [fatSector, geometry.sector_size, offset]
    exact u32_of_lt (by omega)
  · rw [entryOffset, geometry.sector_size, offset]

/-- The sectors of a cluster. -/
theorem FatGeometry.cluster_place :
    clusterToSector fs cluster = fs.dataStartSector + (cluster - 2) * fs.sectorsPerCluster ∧
      clusterToSector fs cluster + fs.sectorsPerCluster ≤ sectors := by
  have data := geometry.data
  have device := geometry.device
  have numbers := geometry.numbers
  rw [fat32BadCluster] at numbers
  obtain ⟨low, high⟩ := range
  have fits : (cluster - 2 + 1) * fs.sectorsPerCluster ≤
      (fs.totalClusters - 2) * fs.sectorsPerCluster := Nat.mul_le_mul_right _ (by omega)
  rw [Nat.succ_mul] at fits
  have value : clusterToSector fs cluster =
      fs.dataStartSector + (cluster - 2) * fs.sectorsPerCluster := by
    rw [clusterToSector, sub32_of_le low (by omega)]
    generalize (cluster - 2) * fs.sectorsPerCluster = offset at *
    rw [u32_of_lt (n := offset) (by omega), u32_of_lt (by omega)]
  exact ⟨value, by rw [value]; omega⟩

end

/-- Two clusters do not share a sector. -/
theorem clusters_apart (fs : FatInfo) {c d : ℕ} (low : 2 ≤ c) (lt : c < d) :
    (c - 2) * fs.sectorsPerCluster + fs.sectorsPerCluster ≤ (d - 2) * fs.sectorsPerCluster := by
  rw [← Nat.succ_mul]
  exact Nat.mul_le_mul_right _ (by omega)

end

/-! ## Accesses -/

section

variable {fs : FatInfo} {dev : BlockDevice} {view : FatView} {cluster : ℕ}

theorem Shows.masked (shows : Shows fs dev view) (range : fs.InRange cluster) :
    fat32Masked (view.entry cluster) = view.entry cluster := by
  rw [← shows.entry cluster range, fatEntry, fat32Masked, fat32Masked, Nat.mod_mod]

theorem Shows.readFat (shows : Shows fs dev view) (range : fs.InRange cluster) :
    fat32ReadFat fs dev cluster = some (view.entry cluster) := by
  obtain ⟨sector, offset, inside, before, data⟩ := shows.geometry.entry_place range
  have read := blockReadSectors_of_le dev (fs.fatStartSector + 4 * cluster / 512) 1 (fun _ => 0)
    (by omega) shows.geometry.device
  have fits : ¬fat32SectorSize < 4 * cluster % 512 + 4 := by
    rw [fat32SectorSize]
    omega
  simp only [fat32ReadFat, if_neg range.not_outside, sector, offset, read, if_neg fits]
  rw [← shows.entry cluster range, fatEntry]
  congr 2
  refine Bytes.load32_moved fun i below => ?_
  rw [if_pos (by omega)]
  congr 1
  omega

/-- What the two tables look like after a write: the sector of the entry in the first one
is the changed buffer, nothing else in it or in the data area changes. -/
theorem fat32WriteFat_sector (geometry : FatGeometry fs dev.totalSectors)
    (range : fs.InRange cluster) (value : ℕ) :
    ∃ dev' buf, fat32WriteFat fs dev cluster value = some (.ok (), dev') ∧
      dev'.totalSectors = dev.totalSectors ∧
      (∀ j, j < 512 → buf j = dev.bytes (512 * (fs.fatStartSector + 4 * cluster / 512) + j)) ∧
      (∀ j, j < 512 → dev'.bytes (512 * (fs.fatStartSector + 4 * cluster / 512) + j) =
        setEntry buf (4 * cluster % 512) value j) ∧
      ∀ a, a < 512 * (fs.fatStartSector + 4 * cluster / 512) ∨
          512 * (fs.fatStartSector + 4 * cluster / 512 + 1) ≤ a →
        a < 512 * (fs.fatStartSector + fs.fatSize) ∨ 512 * fs.dataStartSector ≤ a →
        dev'.bytes a = dev.bytes a := by
  obtain ⟨sector, offset, inside, before, data⟩ := geometry.entry_place range
  have device := geometry.device
  generalize 4 * cluster / 512 = row at *
  rw [fat32WriteFat, if_neg range.not_outside, sector, offset,
    blockReadSectors_of_le dev _ _ _ (by omega) device]
  dsimp only
  rw [if_neg (by rw [fat32SectorSize]; omega)]
  generalize buf_eq : (fun j => if j < 512 * 1 then _ else _) = buf
  obtain ⟨first, first_eq, sectors, here, elsewhere⟩ := blockWriteSectors_of_le dev
    (fs.fatStartSector + row) 1 (setEntry buf (4 * cluster % 512) value) (by omega) device
  rw [first_eq]
  dsimp only
  have held : ∀ j, j < 512 → buf j = dev.bytes (512 * (fs.fatStartSector + row) + j) := by
    intro j below
    rw [← buf_eq]
    exact if_pos (by omega)
  by_cases two : 1 < fs.numFats
  · have double : 2 * fs.fatSize ≤ fs.numFats * fs.fatSize := Nat.mul_le_mul_right _ two
    have tables := geometry.tables
    obtain ⟨both, both_eq, sectors', _, elsewhere'⟩ := blockWriteSectors_of_le first
      (fs.fatStartSector + row + fs.fatSize) 1 (setEntry buf (4 * cluster % 512) value)
      (by omega) (by omega)
    rw [if_pos two, u32_of_lt (by omega), both_eq]
    refine ⟨both, buf, rfl, sectors'.trans sectors, held, fun j below => ?_, ?_⟩
    · rw [elsewhere' _ (by omega)]
      exact here j (by omega)
    · intro a outside area
      rw [elsewhere' a (by omega), elsewhere a (by omega)]
  · rw [if_neg two]
    refine ⟨first, buf, rfl, sectors, held, fun j below => here j (by omega), ?_⟩
    intro a outside _
    exact elsewhere a (by omega)

/-- The entry that is set, and one at another place. -/
theorem masked_setEntry {buf : Bytes} {offset value : ℕ} :
    fat32Masked ((setEntry buf offset value).load32 offset) = fat32Masked value := by
  have small := buf.load32_lt offset
  have masked_lt : fat32Masked value < 2 ^ 28 := Nat.mod_lt _ (by decide)
  rw [setEntry, Bytes.load32_store32_self (by omega)]
  rw [fat32Masked]
  omega

section

variable (shows : Shows fs dev view) (range : fs.InRange cluster)
include shows range

/-- Writing an entry. -/
theorem Shows.writeFat (value : ℕ) :
    ∃ dev', fat32WriteFat fs dev cluster value = some (.ok (), dev') ∧
      Shows fs dev' (view.setEntry cluster (fat32Masked value)) := by
  obtain ⟨dev', buf, run, sectors, held, here, elsewhere⟩ :=
    fat32WriteFat_sector shows.geometry range value
  refine ⟨dev', run, sectors ▸ shows.geometry, ?_, ?_⟩
  · intro c c_range
    obtain ⟨_, _, inside, _, _⟩ := shows.geometry.entry_place c_range
    by_cases same_row : 4 * c / 512 = 4 * cluster / 512
    · -- an entry of the sector that is written
      have moved : dev'.bytes.load32 (512 * fs.fatStartSector + 4 * c) =
          (EduOS.setEntry buf (4 * cluster % 512) value).load32 (4 * c % 512) := by
        refine Bytes.load32_moved fun i below => ?_
        rw [← here _ (by omega)]
        congr 1
        omega
      rw [fatEntry, moved]
      by_cases same : c = cluster
      · subst same
        rw [masked_setEntry, FatView.setEntry_entry_self]
      rw [setEntry, Bytes.load32_store32 (by omega), FatView.setEntry_entry_of_ne same,
        ← shows.entry c c_range, fatEntry]
      congr 1
      refine Bytes.load32_moved fun i below => ?_
      rw [held _ (by omega)]
      congr 1
      omega
    · have ne : c ≠ cluster := fun same => same_row (by rw [same])
      rw [FatView.setEntry_entry_of_ne ne, ← shows.entry c c_range, fatEntry, fatEntry]
      congr 1
      exact Bytes.load32_congr fun i below => elsewhere _ (by omega) (by omega)
  · intro c c_range j below
    obtain ⟨_, _, inside, before, _⟩ := shows.geometry.entry_place range
    rw [FatView.setEntry_byte, ← shows.byte c c_range j below, clusterByte, clusterByte]
    exact elsewhere _ (by omega) (by omega)

/-- Reading a cluster. -/
theorem Shows.readCluster (buf : Bytes) :
    ∃ buf', fat32ReadCluster fs dev cluster buf = .ok buf' ∧
      ∀ j, j < fs.clusterSize → buf' j = view.byte cluster j := by
  obtain ⟨sector, fits⟩ := shows.geometry.cluster_place range
  rw [fat32ReadCluster, if_neg range.not_outside,
    blockReadSectors_of_le _ _ _ _ fits shows.geometry.device]
  refine ⟨_, rfl, fun j below => ?_⟩
  rw [if_pos (shows.geometry.cluster_size ▸ below), sector, ← shows.byte cluster range j below,
    clusterByte]

/-- Writing a cluster. -/
theorem Shows.writeCluster (buf : Bytes) :
    ∃ dev', fat32WriteCluster fs dev cluster buf = .ok dev' ∧
      Shows fs dev' (view.setBytes cluster buf) := by
  obtain ⟨sector, fits⟩ := shows.geometry.cluster_place range
  have size := shows.geometry.cluster_size
  obtain ⟨dev', run, sectors, here, elsewhere⟩ :=
    blockWriteSectors_of_le dev _ _ buf fits shows.geometry.device
  rw [sector] at here elsewhere
  refine ⟨dev', ?_, sectors ▸ shows.geometry, ?_, ?_⟩
  · rw [fat32WriteCluster, if_neg range.not_outside, run]
  · intro c c_range
    obtain ⟨_, _, inside, before, _⟩ := shows.geometry.entry_place c_range
    rw [FatView.setBytes_entry, ← shows.entry c c_range, fatEntry, fatEntry]
    congr 1
    exact Bytes.load32_congr fun i below => elsewhere _ (by omega)
  · intro c c_range j below
    rw [size] at below
    by_cases same : c = cluster
    · subst same
      rw [clusterByte, here j below, FatView.setBytes_byte_self]
    rw [FatView.setBytes_byte_of_ne same, ← shows.byte c c_range j (size ▸ below), clusterByte,
      clusterByte]
    refine elsewhere _ ?_
    rcases Nat.lt_or_gt_of_ne same with lt | gt
    · have apart := clusters_apart fs c_range.1 lt
      omega
    · have apart := clusters_apart fs range.1 gt
      omega

end

/-! ## Allocation -/

theorem fat32IsFreeCluster_iff {entry : ℕ} (masked : fat32Masked entry = entry) :
    fat32IsFreeCluster entry = true ↔ entry = fat32Free := by
  rw [fat32IsFreeCluster, masked, decide_eq_true_eq]

/-- The search from a cluster on finds a free one, if there is one, and marks it as the end
of a chain. -/
theorem Shows.allocFrom (shows : Shows fs dev view) {free : ℕ} (below : free < fs.totalClusters)
    (is_free : view.entry free = fat32Free) :
    ∀ (n start : ℕ), 2 ≤ start → start ≤ free → start + n = fs.totalClusters →
      ∃ c dev', allocFrom fs dev n start = some (c, dev') ∧ fs.InRange c ∧
        view.entry c = fat32Free ∧ Shows fs dev' (view.setEntry c fat32EocMax)
  | 0, start, _, le, reach => by omega
  | n + 1, start, low, le, reach => by
    have range : fs.InRange start := ⟨low, by omega⟩
    rw [EduOS.allocFrom, shows.readFat range, Option.bind_some]
    by_cases here : view.entry start = fat32Free
    · obtain ⟨dev', run, shows'⟩ := shows.writeFat range fat32EocMax
      rw [if_pos ((fat32IsFreeCluster_iff (shows.masked range)).mpr here), run]
      exact ⟨start, dev', rfl, range, here, shows'⟩
    · rw [if_neg (mt (fat32IsFreeCluster_iff (shows.masked range)).mp here)]
      have later : start ≠ free := fun same => here (same ▸ is_free)
      exact shows.allocFrom below is_free n (start + 1) (by omega) (by omega) (by omega)

/-- **Allocation**: a free cluster becomes the end of a chain. -/
theorem Shows.alloc (shows : Shows fs dev view) {free : ℕ} (range : fs.InRange free)
    (is_free : view.entry free = fat32Free) :
    ∃ c dev', fat32AllocCluster fs dev = some (c, dev') ∧ fs.InRange c ∧
      view.entry c = fat32Free ∧ Shows fs dev' (view.setEntry c fat32EocMax) := by
  have low := range.1
  have high := range.2
  exact shows.allocFrom high is_free (fs.totalClusters - 2) 2 le_rfl low (by omega)

/-- Without a free cluster the search returns 0. -/
theorem Shows.allocFrom_full (shows : Shows fs dev view)
    (full : ∀ c, fs.InRange c → view.entry c ≠ fat32Free) :
    ∀ (n start : ℕ), 2 ≤ start → start + n ≤ fs.totalClusters →
      EduOS.allocFrom fs dev n start = some (0, dev)
  | 0, _, _, _ => rfl
  | n + 1, start, low, high => by
    have range : fs.InRange start := ⟨low, by omega⟩
    have used := mt (fat32IsFreeCluster_iff (shows.masked range)).mp (full start range)
    rw [EduOS.allocFrom, shows.readFat range, Option.bind_some, if_neg used]
    exact shows.allocFrom_full full n (start + 1) (by omega) (by omega)

theorem Shows.alloc_full (shows : Shows fs dev view)
    (full : ∀ c, fs.InRange c → view.entry c ≠ fat32Free) :
    fat32AllocCluster fs dev = some (0, dev) := by
  by_cases some_clusters : 2 ≤ fs.totalClusters
  · exact shows.allocFrom_full full _ 2 le_rfl (by omega)
  · rw [fat32AllocCluster, show fs.totalClusters - 2 = 0 by omega]
    rfl

end

/-- The free clusters of a volume. -/
def FatInfo.freeClusters (fs : FatInfo) (view : FatView) : Finset ℕ :=
  (Finset.Ico 2 fs.totalClusters).filter fun c => view.entry c = fat32Free

end EduOS
