import EduOS.Drivers.Block
import EduOS.Include.Errno
import EduOS.Library.Run

/-!
# FAT32 volumes

`kernel/fs/fat32.c`: mounting a volume, the file allocation table, and the clusters of the
data area.

The sector buffer for the table is 512 bytes long whatever the sector size in the boot
sector is; reading an entry beyond it is a fault (`none`).

`validate_boot_sector` checks neither the size of the table nor that of the volume.
`mount_safe_iff` is the exact condition on the boot sector under which everything that is
addressed lies where it should.
-/

namespace EduOS

def fat32SectorSize : ℕ := 512

def fat32Free : ℕ := 0

def fat32BadCluster : ℕ := 0x0FFFFFF7

def fat32EocMin : ℕ := 0x0FFFFFF8

def fat32EocMax : ℕ := 0x0FFFFFFF

/-- The low 28 bits, which `FAT32_MASK` keeps. -/
def fat32Masked (entry : ℕ) : ℕ := entry % 2 ^ 28

def fat32IsEoc (cluster : ℕ) : Bool := fat32EocMin ≤ fat32Masked cluster

def fat32IsBadCluster (cluster : ℕ) : Bool := fat32Masked cluster = fat32BadCluster

def fat32IsFreeCluster (cluster : ℕ) : Bool := fat32Masked cluster = fat32Free

/-! ## Directory entries -/

/-- A directory entry of 32 bytes, short or long. -/
abbrev DirEntry := Fin 32 → BitVec 8

instance entrySize_neZero : NeZero 32 := ⟨by decide⟩

/-- The 11 bytes of the short name. -/
def DirEntry.name (entry : DirEntry) : List (BitVec 8) :=
  List.ofFn fun i : Fin 11 => entry (i.castLE (by decide))

def DirEntry.attr (entry : DirEntry) : BitVec 8 := entry 11

def fatAttrLongName : BitVec 8 := 0x0F

/-- `fat32_get_first_cluster` -/
def DirEntry.firstCluster (entry : DirEntry) : ℕ :=
  (entry 0x1A).toNat + 2 ^ 8 * (entry 0x1B).toNat + 2 ^ 16 * (entry 0x14).toNat +
    2 ^ 24 * (entry 0x15).toNat

def DirEntry.fileSize (entry : DirEntry) : ℕ :=
  (entry 0x1C).toNat + 2 ^ 8 * (entry 0x1D).toNat + 2 ^ 16 * (entry 0x1E).toNat +
    2 ^ 24 * (entry 0x1F).toNat

/-- `fat32_set_first_cluster` -/
def DirEntry.setFirstCluster (entry : DirEntry) (cluster : ℕ) : DirEntry
  | 0x1A => BitVec.ofNat 8 cluster
  | 0x1B => BitVec.ofNat 8 (cluster / 2 ^ 8)
  | 0x14 => BitVec.ofNat 8 (cluster / 2 ^ 16)
  | 0x15 => BitVec.ofNat 8 (cluster / 2 ^ 24)
  | j => entry j

def DirEntry.setFileSize (entry : DirEntry) (size : ℕ) : DirEntry
  | 0x1C => BitVec.ofNat 8 size
  | 0x1D => BitVec.ofNat 8 (size / 2 ^ 8)
  | 0x1E => BitVec.ofNat 8 (size / 2 ^ 16)
  | 0x1F => BitVec.ofNat 8 (size / 2 ^ 24)
  | j => entry j

section

variable (entry : DirEntry) {n : ℕ}

theorem DirEntry.firstCluster_setFirstCluster (small : n < 2 ^ 32) :
    (entry.setFirstCluster n).firstCluster = n := by
  simp only [firstCluster, setFirstCluster, BitVec.toNat_ofNat]
  omega

theorem DirEntry.fileSize_setFileSize (small : n < 2 ^ 32) :
    (entry.setFileSize n).fileSize = n := by
  simp only [fileSize, setFileSize, BitVec.toNat_ofNat]
  omega

@[simp] theorem DirEntry.fileSize_setFirstCluster :
    (entry.setFirstCluster n).fileSize = entry.fileSize := rfl

@[simp] theorem DirEntry.firstCluster_setFileSize :
    (entry.setFileSize n).firstCluster = entry.firstCluster := rfl

end

/-! ## Mounting -/

/-- `struct fat32_boot_sector`, as far as it is read. -/
structure BootSector where
  bytesPerSector : BitVec 16
  sectorsPerCluster : BitVec 8
  reservedSectors : BitVec 16
  numFats : BitVec 8
  rootEntryCount : BitVec 16
  totalSectors16 : BitVec 16
  fatSize16 : BitVec 16
  totalSectors32 : BitVec 32
  fatSize32 : BitVec 32
  rootCluster : BitVec 32
  fsType : List (BitVec 8)
  bootSignatureEnd : BitVec 16
deriving DecidableEq

/-- A boot sector in a buffer. -/
def readBootSector (buf : Bytes) : BootSector where
  bytesPerSector := buf 0x0C ++ buf 0x0B
  sectorsPerCluster := buf 0x0D
  reservedSectors := buf 0x0F ++ buf 0x0E
  numFats := buf 0x10
  rootEntryCount := buf 0x12 ++ buf 0x11
  totalSectors16 := buf 0x14 ++ buf 0x13
  fatSize16 := buf 0x17 ++ buf 0x16
  totalSectors32 := BitVec.ofNat 32 (buf.load32 0x20)
  fatSize32 := BitVec.ofNat 32 (buf.load32 0x24)
  rootCluster := BitVec.ofNat 32 (buf.load32 0x2C)
  fsType := (List.range 8).map fun i => buf (0x52 + i)
  bootSignatureEnd := buf 0x1FF ++ buf 0x1FE

/-- The bytes of `FAT32`. -/
def fat32Name : List (BitVec 8) := [0x46, 0x41, 0x54, 0x33, 0x32]

/-- `validate_boot_sector` -/
def validateBootSector (bs : BootSector) : Bool :=
  bs.bootSignatureEnd = 0xAA55 && bs.fsType.take 5 = fat32Name &&
    (bs.bytesPerSector = 512 || bs.bytesPerSector = 1024 || bs.bytesPerSector = 2048 ||
      bs.bytesPerSector = 4096) &&
    bs.sectorsPerCluster ≠ 0 && bs.sectorsPerCluster &&& (bs.sectorsPerCluster - 1) = 0 &&
    bs.numFats ≠ 0 && bs.rootEntryCount = 0 && bs.totalSectors16 = 0 && bs.fatSize16 = 0

/-- `struct fat32_fs_info` -/
structure FatInfo where
  bytesPerSector : ℕ
  sectorsPerCluster : ℕ
  clusterSize : ℕ
  reservedSectors : ℕ
  numFats : ℕ
  fatSize : ℕ
  rootCluster : ℕ
  totalSectors : ℕ
  totalClusters : ℕ
  fatStartSector : ℕ
  dataStartSector : ℕ
deriving DecidableEq

/-- Where the data area starts, on 32 bits. -/
def BootSector.dataStart (bs : BootSector) : ℕ :=
  u32 (bs.reservedSectors.toNat + u32 (bs.numFats.toNat * bs.fatSize32.toNat))

/-- The parameters that `fat32_mount` takes from the boot sector. -/
def BootSector.info (bs : BootSector) : FatInfo where
  bytesPerSector := bs.bytesPerSector.toNat
  sectorsPerCluster := bs.sectorsPerCluster.toNat
  clusterSize := bs.bytesPerSector.toNat * bs.sectorsPerCluster.toNat
  reservedSectors := bs.reservedSectors.toNat
  numFats := bs.numFats.toNat
  fatSize := bs.fatSize32.toNat
  rootCluster := bs.rootCluster.toNat
  totalSectors := bs.totalSectors32.toNat
  totalClusters :=
    u32 (sub32 bs.totalSectors32.toNat bs.dataStart / bs.sectorsPerCluster.toNat + 2)
  fatStartSector := bs.reservedSectors.toNat
  dataStartSector := bs.dataStart

/-- `fat32_mount`; `allocated` says if there is memory for the parameters. -/
def fat32Mount (allocated : Bool) (dev : BlockDevice) : Except ℕ FatInfo :=
  if !allocated then .error enomem
  else
    match blockReadSectors dev 0 1 fun _ => 0 with
    | none => .error eio
    | some buf =>
      if validateBootSector (readBootSector buf) then .ok (readBootSector buf).info
      else .error einval

/-! ## The table and the clusters -/

/-- The offset of an entry in the table. -/
def fatOffset (cluster : ℕ) : ℕ := u32 (cluster * 4)

/-- The sector of an entry. -/
def fatSector (fs : FatInfo) (cluster : ℕ) : ℕ :=
  u32 (fs.fatStartSector + fatOffset cluster / fs.bytesPerSector)

/-- The offset of an entry in its sector. -/
def entryOffset (fs : FatInfo) (cluster : ℕ) : ℕ := fatOffset cluster % fs.bytesPerSector

/-- `cluster_to_sector` -/
def clusterToSector (fs : FatInfo) (cluster : ℕ) : ℕ :=
  u32 (fs.dataStartSector + u32 (sub32 cluster 2 * fs.sectorsPerCluster))

/-- `fat32_read_fat` -/
def fat32ReadFat (fs : FatInfo) (dev : BlockDevice) (cluster : ℕ) : Option ℕ :=
  if cluster < 2 ∨ fs.totalClusters ≤ cluster then some fat32BadCluster
  else
    match blockReadSectors dev (fatSector fs cluster) 1 fun _ => 0 with
    | none => some fat32BadCluster
    | some buf =>
      if fat32SectorSize < entryOffset fs cluster + 4 then none
      else some (fat32Masked (buf.load32 (entryOffset fs cluster)))

/-- What `fat32_write_fat` does to the entry in a sector. -/
def setEntry (buf : Bytes) (offset value : ℕ) : Bytes :=
  buf.store32 offset (buf.load32 offset / 2 ^ 28 * 2 ^ 28 + fat32Masked value)

/-- `fat32_write_fat` -/
def fat32WriteFat (fs : FatInfo) (dev : BlockDevice) (cluster value : ℕ) :
    Option (Except ℕ Unit × BlockDevice) :=
  if cluster < 2 ∨ fs.totalClusters ≤ cluster then some (.error einval, dev)
  else
    match blockReadSectors dev (fatSector fs cluster) 1 fun _ => 0 with
    | none => some (.error eio, dev)
    | some buf =>
      if fat32SectorSize < entryOffset fs cluster + 4 then none
      else
        let buf := setEntry buf (entryOffset fs cluster) value
        match blockWriteSectors dev (fatSector fs cluster) 1 buf with
        | none => some (.error eio, dev)
        | some dev =>
          if 1 < fs.numFats then
            -- the second copy is written without a look at the result
            let second := u32 (fatSector fs cluster + fs.fatSize)
            some (.ok (), (blockWriteSectors dev second 1 buf).getD dev)
          else some (.ok (), dev)

/-- The loop of `fat32_alloc_cluster`, with `n` clusters to look at. -/
def allocFrom (fs : FatInfo) (dev : BlockDevice) : ℕ → ℕ → Option (ℕ × BlockDevice)
  | 0, _ => some (0, dev)
  | n + 1, cluster =>
    (fat32ReadFat fs dev cluster).bind fun entry =>
      if fat32IsFreeCluster entry then
        (fat32WriteFat fs dev cluster fat32EocMax).map fun r => (cluster, r.2)
      else allocFrom fs dev n (cluster + 1)

/-- `fat32_alloc_cluster`: a cluster that was free, or 0. -/
def fat32AllocCluster (fs : FatInfo) (dev : BlockDevice) : Option (ℕ × BlockDevice) :=
  allocFrom fs dev (fs.totalClusters - 2) 2

/-- One pass of the loop of `fat32_free_cluster`. -/
def freePass (fs : FatInfo) : ℕ × BlockDevice → Option (ℕ × BlockDevice ⊕ BlockDevice)
  | (cluster, dev) =>
    if cluster < 2 ∨ fs.totalClusters ≤ cluster then some (Sum.inr dev)
    else
      (fat32ReadFat fs dev cluster).bind fun next =>
        (fat32WriteFat fs dev cluster fat32Free).map fun r =>
          if fat32IsEoc next || fat32IsBadCluster next then Sum.inr r.2
          else Sum.inl (next, r.2)

/-- `fat32_free_cluster` -/
def fat32FreeCluster (fs : FatInfo) (dev : BlockDevice) (cluster : ℕ) : Option BlockDevice :=
  loop (freePass fs) (2 ^ 32) (cluster, dev)

/-- `fat32_read_cluster` into a buffer: the buffer afterwards. -/
def fat32ReadCluster (fs : FatInfo) (dev : BlockDevice) (cluster : ℕ) (buf : Bytes) :
    Except ℕ Bytes :=
  if cluster < 2 ∨ fs.totalClusters ≤ cluster then .error einval
  else
    match blockReadSectors dev (clusterToSector fs cluster) fs.sectorsPerCluster buf with
    | none => .error einval
    | some buf => .ok buf

/-- `fat32_write_cluster` -/
def fat32WriteCluster (fs : FatInfo) (dev : BlockDevice) (cluster : ℕ) (buf : Bytes) :
    Except ℕ BlockDevice :=
  if cluster < 2 ∨ fs.totalClusters ≤ cluster then .error einval
  else
    match blockWriteSectors dev (clusterToSector fs cluster) fs.sectorsPerCluster buf with
    | none => .error einval
    | some dev => .ok dev

/-! ## What is addressed -/

/-- Every cluster has its entry in the first table and in the sector buffer, and its
sectors in the data area. -/
def GeometrySafe (fs : FatInfo) : Prop :=
  ∀ cluster, 2 ≤ cluster → cluster < fs.totalClusters →
    (fs.fatStartSector ≤ fatSector fs cluster ∧
      fatSector fs cluster < fs.fatStartSector + fs.fatSize) ∧
    entryOffset fs cluster + 4 ≤ fat32SectorSize ∧
    fs.dataStartSector ≤ clusterToSector fs cluster ∧
    clusterToSector fs cluster + fs.sectorsPerCluster ≤ fs.totalSectors

/-- The volume has no cluster, or it ends after the start of the data area, its table has
the entry of the last cluster, and a table sector fits the buffer or no entry comes after
the first 512 bytes. -/
def BootSector.Safe (bs : BootSector) : Prop :=
  bs.info.totalClusters ≤ 2 ∨
    bs.dataStart ≤ bs.totalSectors32.toNat ∧
    min (bs.info.totalClusters - 1) (2 ^ 30 - 1) * 4 / bs.bytesPerSector.toNat <
      bs.fatSize32.toNat ∧
    (bs.bytesPerSector.toNat = 512 ∨ bs.info.totalClusters ≤ 128)

theorem validateBootSector_spec {bs : BootSector} (valid : validateBootSector bs = true) :
    (bs.bytesPerSector.toNat = 512 ∨ 1024 ≤ bs.bytesPerSector.toNat ∧
      bs.bytesPerSector.toNat % 4 = 0) ∧ 0 < bs.sectorsPerCluster.toNat := by
  simp only [validateBootSector, Bool.and_eq_true, Bool.or_eq_true, decide_eq_true_eq] at valid
  obtain ⟨⟨⟨⟨⟨⟨⟨⟨_, _⟩, size⟩, nonzero⟩, _⟩, _⟩, _⟩, _⟩, _⟩ := valid
  constructor
  · rcases size with ((size | size) | size) | size <;> rw [size] <;> decide
  · refine Nat.pos_of_ne_zero fun zero => nonzero ?_
    exact BitVec.eq_of_toNat_eq zero

/-- A boot sector only depends on the first 512 bytes. -/
theorem readBootSector_congr {m m' : Bytes} (agree : ∀ j, j < 512 → m' j = m j) :
    readBootSector m' = readBootSector m := by
  have words : ∀ a, a + 4 ≤ 512 → m'.load32 a = m.load32 a := fun a below =>
    Bytes.load32_congr fun i lt => agree (a + i) (by omega)
  have name : ((List.range 8).map fun i => m' (0x52 + i)) =
      (List.range 8).map fun i => m (0x52 + i) :=
    List.map_congr_left fun i mem => agree _ (by have := List.mem_range.mp mem; omega)
  simp [readBootSector, name, words, Nat.reduceAdd, Nat.reduceLeDiff, agree, Nat.reduceLT]

theorem fat32Mount_spec {dev : BlockDevice} {fs : FatInfo}
    (mounted : fat32Mount true dev = .ok fs) :
    validateBootSector (readBootSector dev.bytes) = true ∧
      fs = (readBootSector dev.bytes).info := by
  simp only [fat32Mount, blockReadSectors] at mounted
  rw [if_neg (by decide)] at mounted
  split at mounted
  · cases mounted
  rename_i buf read
  split at read
  · cases read
  have same : readBootSector buf = readBootSector dev.bytes := by
    cases read
    exact readBootSector_congr fun j below => by simp [below]
  rw [same] at mounted
  split at mounted
  · rename_i valid
    exact ⟨valid, (Except.ok.inj mounted).symm⟩
  · cases mounted

/-! ## Safe boot sectors -/

section

variable {bs : BootSector}

/-- The sector of an entry, which does not wrap around. -/
theorem fatSector_eq (valid : validateBootSector bs = true) (cluster : ℕ) :
    fatSector bs.info cluster =
      bs.reservedSectors.toNat + fatOffset cluster / bs.bytesPerSector.toNat := by
  have large : 512 ≤ bs.bytesPerSector.toNat := by
    have := (validateBootSector_spec valid).1
    omega
  have offset : fatOffset cluster / bs.bytesPerSector.toNat ≤ 2 ^ 23 := by
    refine (Nat.div_le_div_left large (by decide)).trans ?_
    have := u32_lt (cluster * 4)
    rw [fatOffset]
    omega
  exact u32_of_lt (by dsimp only [BootSector.info]; omega)

/-- The last cluster, or the last one before the offsets wrap around. -/
theorem fatOffset_le {cluster total : ℕ} (below : cluster < total) :
    fatOffset cluster ≤ min (total - 1) (2 ^ 30 - 1) * 4 := by
  rw [fatOffset, u32]
  omega

theorem fatOffset_last {total : ℕ} :
    fatOffset (min (total - 1) (2 ^ 30 - 1)) = min (total - 1) (2 ^ 30 - 1) * 4 :=
  u32_of_lt (by omega)

/-- The number of clusters, if there are any and the data area starts in the volume. -/
theorem totalClusters_eq (inside : bs.dataStart ≤ bs.totalSectors32.toNat)
    (clusters : 2 < bs.info.totalClusters) :
    bs.info.totalClusters =
      (bs.totalSectors32.toNat - bs.dataStart) / bs.sectorsPerCluster.toNat + 2 := by
  have small := bs.totalSectors32.isLt
  have quotient := Nat.div_le_self (bs.totalSectors32.toNat - bs.dataStart)
    bs.sectorsPerCluster.toNat
  simp only [BootSector.info] at clusters ⊢
  rw [sub32_of_le inside small] at clusters ⊢
  generalize (bs.totalSectors32.toNat - bs.dataStart) / bs.sectorsPerCluster.toNat = q at *
  rw [u32] at clusters ⊢
  omega

/-- The sectors of a cluster are in the data area. -/
theorem clusterToSector_spec (inside : bs.dataStart ≤ bs.totalSectors32.toNat)
    {cluster : ℕ} (from_two : 2 ≤ cluster) (below : cluster < bs.info.totalClusters) :
    clusterToSector bs.info cluster = bs.dataStart + (cluster - 2) * bs.sectorsPerCluster.toNat ∧
      clusterToSector bs.info cluster + bs.sectorsPerCluster.toNat ≤ bs.totalSectors32.toNat := by
  have number := totalClusters_eq inside (lt_of_le_of_lt from_two below)
  have fits : (cluster - 2 + 1) * bs.sectorsPerCluster.toNat ≤
      bs.totalSectors32.toNat - bs.dataStart := by
    have index : cluster - 2 + 1 ≤
        (bs.totalSectors32.toNat - bs.dataStart) / bs.sectorsPerCluster.toNat := by omega
    exact (Nat.mul_le_mul_right _ index).trans (Nat.div_mul_le_self _ _)
  rw [Nat.succ_mul] at fits
  have cluster_lt : cluster < 2 ^ 32 := below.trans (u32_lt _)
  have value : clusterToSector bs.info cluster =
      bs.dataStart + (cluster - 2) * bs.sectorsPerCluster.toNat := by
    show u32 (bs.dataStart + u32 (sub32 cluster 2 * bs.sectorsPerCluster.toNat)) = _
    rw [sub32_of_le from_two cluster_lt]
    generalize (cluster - 2) * bs.sectorsPerCluster.toNat = offset at *
    rw [u32_of_lt (n := offset) (by omega), u32_of_lt (by omega)]
  exact ⟨value, by rw [value]; omega⟩

end

/-- **What a mounted volume addresses is safe exactly if its boot sector is.** -/
theorem mount_safe_iff (dev : BlockDevice) (fs : FatInfo) (mounted : fat32Mount true dev = .ok fs) :
    GeometrySafe fs ↔ (readBootSector dev.bytes).Safe := by
  obtain ⟨valid, rfl⟩ := fat32Mount_spec mounted
  generalize readBootSector dev.bytes = bs at valid ⊢
  obtain ⟨sector_size, _⟩ := validateBootSector_spec valid
  constructor
  · intro safe
    by_cases none_left : bs.info.totalClusters ≤ 2
    · exact Or.inl none_left
    have clusters : 2 < bs.info.totalClusters := Nat.lt_of_not_le none_left
    refine Or.inr ⟨?_, ?_, ?_⟩
    · obtain ⟨_, _, start, ends⟩ := safe 2 le_rfl clusters
      exact start.trans ((Nat.le_add_right _ _).trans ends)
    · -- the entry of the last cluster
      obtain ⟨⟨_, sector⟩, _⟩ := safe (min (bs.info.totalClusters - 1) (2 ^ 30 - 1))
        (by omega) (by omega)
      rw [fatSector_eq valid, fatOffset_last] at sector
      exact Nat.lt_of_add_lt_add_left sector
    · by_contra bad
      obtain ⟨_, offset, _⟩ := safe 128 (by decide) (by omega)
      have at_512 : entryOffset bs.info 128 = 512 := by
        show 512 % bs.bytesPerSector.toNat = 512
        exact Nat.mod_eq_of_lt (by omega)
      rw [at_512] at offset
      exact absurd offset (by decide)
  · rintro safe cluster from_two below
    rcases safe with none_left | ⟨inside, table, fits⟩
    · omega
    obtain ⟨value, ends⟩ := clusterToSector_spec inside from_two below
    refine ⟨?_, ?_, ?_, ends⟩
    · rw [fatSector_eq valid]
      refine ⟨Nat.le_add_right _ _, Nat.add_lt_add_left ?_ _⟩
      exact lt_of_le_of_lt (Nat.div_le_div_right (fatOffset_le below)) table
    · show fatOffset cluster % bs.bytesPerSector.toNat + 4 ≤ 512
      rcases fits with fits | fits
      · rw [fits, fatOffset, u32]
        omega
      · have small : fatOffset cluster ≤ 508 := by
          rw [fatOffset, u32]
          omega
        exact (Nat.add_le_add_right (Nat.mod_le _ _) 4).trans (by omega)
    · rw [value]
      exact Nat.le_add_right _ _

/-- A volume with 512-byte sectors, one sector a cluster, one reserved sector and one
table. -/
def smallVolume (fatSize totalSectors : ℕ) : BlockDevice where
  totalSectors := totalSectors
  bytes := fun
    | 0x0C => 0x02
    | 0x0D => 0x01
    | 0x0E => 0x01
    | 0x10 => 0x01
    | 0x20 => BitVec.ofNat 8 totalSectors
    | 0x21 => BitVec.ofNat 8 (totalSectors / 2 ^ 8)
    | 0x24 => BitVec.ofNat 8 fatSize
    | 0x2C => 0x02
    | 0x52 => 0x46
    | 0x53 => 0x41
    | 0x54 => 0x54
    | 0x55 => 0x33
    | 0x56 => 0x32
    | 0x1FE => 0x55
    | 0x1FF => 0xAA
    | _ => 0x00

/-- The parameters of such a volume with 1000 sectors. -/
def smallInfo (fatSize : ℕ) : FatInfo where
  bytesPerSector := 512
  sectorsPerCluster := 1
  clusterSize := 512
  reservedSectors := 1
  numFats := 1
  fatSize := fatSize
  rootCluster := 2
  totalSectors := 1000
  totalClusters := 1001 - fatSize
  fatStartSector := 1
  dataStartSector := 1 + fatSize

/-- Eight sectors of table are enough for it. -/
theorem small_mount_safe : GeometrySafe (smallInfo 8) := by
  have mounted : fat32Mount true (smallVolume 8 1000) = .ok (smallInfo 8) := by decide +kernel
  exact (mount_safe_iff (smallVolume 8 1000) (smallInfo 8) mounted).mpr (Or.inr (by decide +kernel))

/-- A table of one sector is accepted, and the entry of cluster 128 is read behind it. -/
theorem small_mount_unsafe : fat32Mount true (smallVolume 1 1000) = .ok (smallInfo 1) ∧
    ¬GeometrySafe (smallInfo 1) := by
  refine ⟨by decide +kernel, fun safe => ?_⟩
  obtain ⟨⟨_, sector⟩, _⟩ := safe 128 (by decide) (by decide)
  exact absurd sector (by decide)

end EduOS
