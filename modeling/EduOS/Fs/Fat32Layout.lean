import EduOS.Fs.Fat32Dir
import EduOS.Fs.Fat32File

/-!
# Who owns the clusters of a FAT32 volume

`VolumeConsistent` is what a volume should be, in terms of what the calls return: the chains of
the entries that `fat32_readdir` lists from the root directory downwards do not meet, and none
of their clusters is free.

`Sound` is the invariant behind it.  A `Layout` names the first clusters of the chains in use,
those of the directories among them, and the chains; an entry that is listed owns its chain.
Allocated clusters that nobody refers to are in no chain and do not matter.

Each edit of a volume is one lemma: only free clusters change (`Sound.aside`), a chain begins
(`Sound.newChain`) or grows (`Sound.extend`), a file is written (`Sound.setBytes`), a chain
becomes a directory (`Sound.newDir`), an entry is added to the root directory (`Sound.fill`).
-/

namespace EduOS

open Function (update update_self update_of_ne)
open List FatView

/-! ## Consistent volumes -/

/-- The names `.` and `..`. -/
def dotName : List (BitVec 8) := dot :: List.replicate 10 blank

def dotDotName : List (BitVec 8) := dot :: dot :: List.replicate 9 blank

/-- The entries of a directory for itself and for its parent. -/
def DirEntry.isDot (entry : DirEntry) : Bool := entry.name = dotName || entry.name = dotDotName

variable {entry : DirEntry} {c start n x d : ℕ} {chain : List ℕ}

theorem DirEntry.isDirectory_of_attr (attr : entry.attr = fatAttrDirectory) :
    entry.isDirectory = true := by
  rw [isDirectory, attr]
  decide

section

variable (fs : FatInfo) (dev : BlockDevice)

/-- The first cluster of a directory that is listed from the root directory downwards. -/
inductive ListedDir : ℕ → Prop
  | root : ListedDir fs.rootCluster
  | sub {d index : ℕ} {entry : DirEntry} (parent : ListedDir d)
      (listed : fat32Readdir fs dev d index = some (.ok (some entry)))
      (proper : entry.isDot = false) (directory : entry.isDirectory = true) :
      ListedDir entry.firstCluster

/-- An entry that is listed, with its directory and its index there. -/
structure Lists (d index : ℕ) (entry : DirEntry) : Prop where
  dir : ListedDir fs dev d
  listed : fat32Readdir fs dev d index = some (.ok (some entry))
  proper : entry.isDot = false

/-- The clusters of the chain that starts at a cluster. -/
inductive OnChain (start : ℕ) : ℕ → Prop
  | first (range : fs.InRange start) : OnChain start start
  | next {c d : ℕ} (on : OnChain start c) (link : fat32ReadFat fs dev c = some d)
      (range : fs.InRange d) : OnChain start d

/-- The chains of the listed entries do not meet, and no cluster of them is free. -/
structure VolumeConsistent : Prop where
  disjoint : ∀ {d i d' i' : ℕ} {entry entry' : DirEntry}, Lists fs dev d i entry →
    Lists fs dev d' i' entry' → (d, i) ≠ (d', i') →
      ∀ c, OnChain fs dev entry.firstCluster c → ¬OnChain fs dev entry'.firstCluster c
  used : ∀ {d i : ℕ} {entry : DirEntry}, Lists fs dev d i entry →
    ∀ c, OnChain fs dev entry.firstCluster c → fat32ReadFat fs dev c ≠ some fat32Free

end

/-! ## Layouts -/

/-- The chains of a volume that are in use, by their first clusters. -/
structure Layout where
  heads : Set ℕ
  dirs : Set ℕ
  chains : ℕ → List ℕ

/-- The chains that are no directories. -/
def Layout.files (layout : Layout) : Set ℕ := layout.heads \ layout.dirs

variable {fs : FatInfo} {dev : BlockDevice} {view view' : FatView} {layout : Layout}

/-- A slot of a directory with an entry that is listed. -/
structure ListedSlot (fs : FatInfo) (view : FatView) (layout : Layout) (d c i : ℕ) : Prop where
  dir : d ∈ layout.dirs
  mem : c ∈ layout.chains d
  inside : i < fs.entriesPerCluster
  shown : (view.dirEntry c i).isEnd = false
  listed : (view.dirEntry c i).isSkipped = false

/-- **A sound volume.** -/
structure Sound (fs : FatInfo) (view : FatView) (layout : Layout) : Prop where
  root : fs.rootCluster ∈ layout.dirs
  dirs_sub : layout.dirs ⊆ layout.heads
  chain : ∀ c ∈ layout.heads, DirChain fs view c (layout.chains c)
  apart : ∀ c ∈ layout.heads, ∀ d ∈ layout.heads, c ≠ d →
    (layout.chains c).Disjoint (layout.chains d)
  /-- There is nothing behind the end mark of a directory. -/
  ended : ∀ d ∈ layout.dirs, (dirSlots fs (layout.chains d)).Pairwise fun slot later =>
    (view.dirEntry slot.1 slot.2).isEnd = true → (view.dirEntry later.1 later.2).isEnd = true
  dots : ∀ {d c i}, ListedSlot fs view layout d c i → (view.dirEntry c i).isDot = true →
    (view.dirEntry c i).isDirectory = true ∧
      ((view.dirEntry c i).firstCluster < 2 ∨ (view.dirEntry c i).firstCluster ∈ layout.dirs)
  subdirs : ∀ {d c i}, ListedSlot fs view layout d c i → (view.dirEntry c i).isDot = false →
    (view.dirEntry c i).isDirectory = true → (view.dirEntry c i).firstCluster ∈ layout.dirs
  leaves : ∀ {d c i}, ListedSlot fs view layout d c i → (view.dirEntry c i).isDot = false →
    (view.dirEntry c i).isDirectory = false →
      (view.dirEntry c i).firstCluster = 0 ∨ (view.dirEntry c i).firstCluster ∈ layout.files
  /-- A chain has one entry that refers to it. -/
  own : ∀ {d c i d' c' i'}, ListedSlot fs view layout d c i → ListedSlot fs view layout d' c' i' →
    (view.dirEntry c i).isDot = false → (view.dirEntry c' i').isDot = false →
      (view.dirEntry c i).firstCluster = (view.dirEntry c' i').firstCluster →
        (view.dirEntry c i).firstCluster = 0 ∨ (c, i) = (c', i')

/-! ## Chains -/

theorem Chained.next_mem {next : ℕ → ℕ} {ends : ℕ → Prop} {pages : List ℕ}
    (chained : Chained next ends pages) (mem : c ∈ pages) : ends (next c) ∨ next c ∈ pages := by
  obtain ⟨i, below, rfl⟩ := getElem_of_mem mem
  by_cases more : i + 1 < pages.length
  · rw [chained.next_getElem more]
    exact Or.inr (getElem_mem more)
  · have last : i = pages.length - 1 := by omega
    subst last
    exact Or.inl (chained.next_last (by omega))

theorem DirChain.congr (dir : DirChain fs view start chain)
    (same : ∀ c ∈ chain, view'.entry c = view.entry c) : DirChain fs view' start chain :=
  ⟨dir.first, dir.inRange, dir.chained.congr same, dir.nodup⟩

theorem DirChain.start_mem (dir : DirChain fs view start chain) :
    start ∈ chain := mem_of_mem_head? dir.first

/-- A chain that consists of one cluster. -/
theorem DirChain.single (range : fs.InRange n) (eoc : fat32IsEoc (view.entry n) = true) :
    DirChain fs view n [n] :=
  ⟨rfl, by simpa using range, eoc, nodup_singleton n⟩

/-- **A chain grows**: its last cluster leads to a new one. -/
theorem DirChain.extend {sectors last new : ℕ} (dir : DirChain fs view start chain)
    (geometry : FatGeometry fs sectors) (mem : last ∈ chain)
    (eoc : fat32IsEoc (view.entry last) = true) (range : fs.InRange new) (outside : new ∉ chain)
    (mark : fat32IsEoc (view'.entry new) = true) (link : view'.entry last = new)
    (same : ∀ c ∈ chain, c ≠ last → view'.entry c = view.entry c) :
    DirChain fs view' start (chain ++ [new]) := by
  -- the cluster with the mark is the last one
  have is_last : ∀ i (below : i < chain.length), i + 1 < chain.length → chain[i] ≠ last := by
    rintro i below more rfl
    rw [dir.chained.next_getElem more, geometry.not_eoc (dir.inRange _ (getElem_mem more))] at eoc
    cases eoc
  refine ⟨?_, ?_, ?_, ?_⟩
  · rw [head?_append, dir.first]
    rfl
  · exact forall_mem_append.mpr ⟨dir.inRange, forall_mem_singleton.mpr range⟩
  · refine dir.chained.concat mark (fun i below more => ?_) fun nonempty => ?_
    · exact same _ (getElem_mem below) (is_last i below more)
    obtain ⟨i, below, rfl⟩ := getElem_of_mem mem
    have ends : i = chain.length - 1 := by
      by_contra before
      exact is_last i below (by omega) rfl
    subst ends
    exact link
  · refine nodup_append.mpr ⟨dir.nodup, nodup_singleton new, fun c at_c d at_d => ?_⟩
    rintro rfl
    exact outside (mem_singleton.mp at_d ▸ at_c)

namespace Sound

section

variable (sound : Sound fs view layout)
include sound

/-- The clusters of the chains are in use. -/
theorem used_entry (head : c ∈ layout.heads)
    (mem : x ∈ layout.chains c) : view.entry x ≠ fat32Free :=
  chained_used (sound.chain c head).inRange (sound.chain c head).chained x mem

/-- A free cluster is in no chain. -/
theorem notMem_of_free (free : view.entry n = fat32Free)
    (head : c ∈ layout.heads) : n ∉ layout.chains c :=
  fun mem => sound.used_entry head mem free

theorem notMem_heads (free : view.entry n = fat32Free) : n ∉ layout.heads :=
  fun head => sound.notMem_of_free free head (sound.chain n head).start_mem

/-- Two chains with a cluster in common are one. -/
theorem head_eq (head : c ∈ layout.heads) (head' : d ∈ layout.heads)
    (mem : x ∈ layout.chains c) (mem' : x ∈ layout.chains d) : c = d := by
  by_contra ne
  exact sound.apart c head d head' ne mem mem'

/-- The first cluster of a listed entry. -/
theorem firstCluster {i : ℕ} (slot : ListedSlot fs view layout d c i)
    (proper : (view.dirEntry c i).isDot = false) :
    (view.dirEntry c i).firstCluster = 0 ∨ (view.dirEntry c i).firstCluster ∈ layout.heads := by
  cases kind : (view.dirEntry c i).isDirectory with
  | true => exact Or.inr (sound.dirs_sub (sound.subdirs slot proper kind))
  | false => exact (sound.leaves slot proper kind).imp_right fun file => file.1

end

/-! ## Edits -/

/-- A volume whose chains and directories have not changed. -/
theorem congr (sound : Sound fs view layout)
    (same : ∀ c ∈ layout.heads, ∀ x ∈ layout.chains c, view'.entry x = view.entry x)
    (same_dirs : ∀ d ∈ layout.dirs, ∀ x ∈ layout.chains d, ∀ i < fs.entriesPerCluster,
      view'.dirEntry x i = view.dirEntry x i) : Sound fs view' layout := by
  have slots : ∀ {d c i}, ListedSlot fs view' layout d c i →
      view'.dirEntry c i = view.dirEntry c i ∧ ListedSlot fs view layout d c i := by
    intro d c i slot
    have entry := same_dirs d slot.dir c slot.mem i slot.inside
    exact ⟨entry, slot.dir, slot.mem, slot.inside, entry ▸ slot.shown, entry ▸ slot.listed⟩
  refine ⟨sound.root, sound.dirs_sub, fun c head => (sound.chain c head).congr (same c head),
    sound.apart, ?_, ?_, ?_, ?_, ?_⟩
  · intro d dir
    refine (sound.ended d dir).imp_of_mem fun {slot later} mem mem' ends => ?_
    obtain ⟨on, inside⟩ := mem_dirSlots.mp mem
    obtain ⟨on', inside'⟩ := mem_dirSlots.mp mem'
    rwa [same_dirs d dir _ on _ inside, same_dirs d dir _ on' _ inside']
  · intro d c i slot
    obtain ⟨entry, slot⟩ := slots slot
    rw [entry]
    exact sound.dots slot
  · intro d c i slot
    obtain ⟨entry, slot⟩ := slots slot
    rw [entry]
    exact sound.subdirs slot
  · intro d c i slot
    obtain ⟨entry, slot⟩ := slots slot
    rw [entry]
    exact sound.leaves slot
  · intro d c i d' c' i' slot slot'
    obtain ⟨entry, slot⟩ := slots slot
    obtain ⟨entry', slot'⟩ := slots slot'
    rw [entry, entry']
    exact sound.own slot slot'

/-- What happens to free clusters does not matter. -/
theorem aside (sound : Sound fs view layout) (aside : Aside view view') :
    Sound fs view' layout := by
  refine sound.congr (fun c head x mem => (aside x (sound.used_entry head mem)).1) ?_
  intro d dir x mem i _
  rw [FatView.dirEntry, (aside x (sound.used_entry (sound.dirs_sub dir) mem)).2]
  rfl

/-- The contents of files do not matter. -/
theorem setBytes (sound : Sound fs view layout) (file : c ∈ layout.files)
    (mem : x ∈ layout.chains c) (bytes : Bytes) : Sound fs (view.setBytes x bytes) layout := by
  refine sound.congr (fun _ _ _ _ => rfl) fun d dir y mem' i _ => ?_
  have ne : y ≠ x := by
    rintro rfl
    obtain rfl := sound.head_eq file.1 (sound.dirs_sub dir) mem mem'
    exact file.2 dir
  rw [FatView.dirEntry, setBytes_byte_of_ne ne]
  rfl

end Sound

/-- The layout with the chain of a file changed. -/
def Layout.setChain (layout : Layout) (c : ℕ) (chain : List ℕ) : Layout :=
  { layout with heads := insert c layout.heads, chains := update layout.chains c chain }

@[simp] theorem Layout.setChain_self (layout : Layout) (c : ℕ) (chain : List ℕ) :
    (layout.setChain c chain).chains c = chain := update_self ..

theorem Layout.setChain_of_ne (layout : Layout) (ne : d ≠ c) (chain : List ℕ) :
    (layout.setChain c chain).chains d = layout.chains d := update_of_ne ne ..

namespace Sound

/-- The chain of a file begins or grows; its clusters are in no other chain. -/
theorem setChain (sound : Sound fs view layout) (file : c ∉ layout.dirs)
    (new : DirChain fs view' c chain)
    (outside : ∀ d ∈ layout.heads, d ≠ c → (layout.chains d).Disjoint chain)
    (same : ∀ d ∈ layout.heads, d ≠ c → ∀ x ∈ layout.chains d, view'.entry x = view.entry x)
    (same_bytes : view'.byte = view.byte) : Sound fs view' (layout.setChain c chain) := by
  have dir_chain : ∀ d ∈ layout.dirs, (layout.setChain c chain).chains d = layout.chains d := by
    intro d dir
    refine layout.setChain_of_ne ?_ chain
    rintro rfl
    exact file dir
  have entries : view'.dirEntry = view.dirEntry := by
    funext x i
    rw [FatView.dirEntry, same_bytes]
    rfl
  have slots : ∀ {d x i}, ListedSlot fs view' (layout.setChain c chain) d x i →
      ListedSlot fs view layout d x i := by
    intro d x i slot
    refine ⟨slot.dir, ?_, slot.inside, entries ▸ slot.shown, entries ▸ slot.listed⟩
    exact dir_chain d slot.dir ▸ slot.mem
  have sub : ∀ {x}, x ∈ layout.heads → x ∈ (layout.setChain c chain).heads := fun head =>
    Set.mem_insert_of_mem _ head
  refine ⟨sound.root, fun d dir => sub (sound.dirs_sub dir), ?_, ?_, ?_, ?_, ?_, ?_, ?_⟩
  · intro d head
    by_cases equal : d = c
    · subst equal
      rw [Layout.setChain_self]
      exact new
    · have old := Set.mem_of_mem_insert_of_ne head equal
      rw [layout.setChain_of_ne equal]
      exact (sound.chain d old).congr (same d old equal)
  · intro d head e head' ne
    by_cases equal : d = c
    · subst equal
      have old := Set.mem_of_mem_insert_of_ne head' ne.symm
      rw [Layout.setChain_self, layout.setChain_of_ne ne.symm]
      exact (outside e old ne.symm).symm
    have old := Set.mem_of_mem_insert_of_ne head equal
    rw [layout.setChain_of_ne equal]
    by_cases equal' : e = c
    · subst equal'
      rw [Layout.setChain_self]
      exact outside d old equal
    · rw [layout.setChain_of_ne equal']
      exact sound.apart d old e (Set.mem_of_mem_insert_of_ne head' equal') ne
  · intro d dir
    rw [dir_chain d dir, entries]
    exact sound.ended d dir
  · intro d x i slot
    rw [entries]
    exact sound.dots (slots slot)
  · intro d x i slot
    rw [entries]
    exact sound.subdirs (slots slot)
  · intro d x i slot
    rw [entries]
    exact fun proper kind => (sound.leaves (slots slot) proper kind).imp_right fun leaf =>
      ⟨sub leaf.1, leaf.2⟩
  · intro d x i d' x' i' slot slot'
    rw [entries]
    exact sound.own (slots slot) (slots slot')

/-- **A chain begins** at a cluster that was free. -/
theorem newChain (sound : Sound fs view layout) (range : fs.InRange n)
    (free : view.entry n = fat32Free) :
    Sound fs (view.setEntry n fat32EocMax) (layout.setChain n [n]) := by
  refine sound.setChain (fun dir => sound.notMem_heads free (sound.dirs_sub dir)) ?_ ?_ ?_ rfl
  · refine DirChain.single range ?_
    rw [setEntry_entry_self]
    decide
  · rintro d head - x mem mem'
    exact sound.notMem_of_free free head (mem_singleton.mp mem' ▸ mem)
  · intro d head _ x mem
    refine setEntry_entry_of_ne ?_
    rintro rfl
    exact sound.notMem_of_free free head mem

/-- **The chain of a file grows** by a cluster that was free. -/
theorem extend (sound : Sound fs view layout) {sectors last : ℕ} (geometry : FatGeometry fs sectors)
    (file : c ∈ layout.files) (mem : last ∈ layout.chains c)
    (eoc : fat32IsEoc (view.entry last) = true) (range : fs.InRange n)
    (free : view.entry n = fat32Free) :
    Sound fs ((view.setEntry n fat32EocMax).setEntry last n)
      (layout.setChain c (layout.chains c ++ [n])) := by
  have outside := sound.notMem_of_free free file.1
  have ne : n ≠ last := by
    rintro rfl
    exact outside mem
  have kept : ∀ x, x ≠ n → x ≠ last →
      ((view.setEntry n fat32EocMax).setEntry last n).entry x = view.entry x := by
    intro x not_n not_last
    rw [setEntry_entry_of_ne not_last, setEntry_entry_of_ne not_n]
  refine sound.setChain file.2 ?_ ?_ ?_ rfl
  · refine (sound.chain c file.1).extend geometry mem eoc range outside ?_ ?_
      fun x at_x not_last => ?_
    · rw [setEntry_entry_of_ne ne, setEntry_entry_self]
      decide
    · exact setEntry_entry_self ..
    · refine kept x ?_ not_last
      rintro rfl
      exact outside at_x
  · intro d head not_c x at_x at_x'
    rcases mem_append.mp at_x' with at_c | at_n
    · exact sound.apart d head c file.1 not_c at_x at_c
    · exact sound.notMem_of_free free head (mem_singleton.mp at_n ▸ at_x)
  · intro d head not_c x at_x
    refine kept x ?_ ?_
    · rintro rfl
      exact sound.notMem_of_free free head at_x
    · rintro rfl
      exact sound.apart d head c file.1 not_c at_x mem

end Sound

/-- The layout with one more directory. -/
def Layout.addDir (layout : Layout) (n : ℕ) : Layout := { layout with dirs := insert n layout.dirs }

/-- No listed entry refers to a cluster. -/
def Unreferenced (fs : FatInfo) (view : FatView) (layout : Layout) (n : ℕ) : Prop :=
  ∀ {d c i}, ListedSlot fs view layout d c i → (view.dirEntry c i).isDot = false →
    (view.dirEntry c i).firstCluster ≠ n

namespace Sound

/-- **A chain becomes a directory** with entries for itself and its parent only. -/
theorem newDir (sound : Sound fs view layout) (file : n ∈ layout.files)
    (unreferenced : Unreferenced fs view layout n)
    (ended : (dirSlots fs (layout.chains n)).Pairwise fun slot later =>
      (view.dirEntry slot.1 slot.2).isEnd = true → (view.dirEntry later.1 later.2).isEnd = true)
    (content : ∀ c ∈ layout.chains n, ∀ i < fs.entriesPerCluster,
      (view.dirEntry c i).isEnd = false → (view.dirEntry c i).isDot = true ∧
        (view.dirEntry c i).isDirectory = true ∧
        ((view.dirEntry c i).firstCluster = n ∨ (view.dirEntry c i).firstCluster ∈ layout.dirs)) :
    Sound fs view (layout.addDir n) ∧ Unreferenced fs view (layout.addDir n) n := by
  -- an entry that is no dot entry is listed in one of the other directories
  have proper_slot : ∀ {d c i}, ListedSlot fs view (layout.addDir n) d c i →
      (view.dirEntry c i).isDot = false → ListedSlot fs view layout d c i := by
    intro d c i slot proper
    rcases Set.mem_insert_iff.mp slot.dir with rfl | dir
    · exact absurd ((content c slot.mem i slot.inside slot.shown).1.symm.trans proper) (by simp)
    · exact ⟨dir, slot.mem, slot.inside, slot.shown, slot.listed⟩
  refine ⟨⟨Set.mem_insert_of_mem _ sound.root, ?_, sound.chain, sound.apart, ?_, ?_, ?_, ?_, ?_⟩,
    fun slot proper => unreferenced (proper_slot slot proper) proper⟩
  · exact Set.insert_subset file.1 sound.dirs_sub
  · rintro d (rfl | dir)
    · exact ended
    · exact sound.ended d dir
  · intro d c i slot is_dot
    rcases Set.mem_insert_iff.mp slot.dir with rfl | dir
    · obtain ⟨_, directory, place⟩ := content c slot.mem i slot.inside slot.shown
      exact ⟨directory, Or.inr place⟩
    · obtain ⟨directory, place⟩ :=
        sound.dots ⟨dir, slot.mem, slot.inside, slot.shown, slot.listed⟩ is_dot
      exact ⟨directory, place.imp_right (Set.mem_insert_of_mem _)⟩
  · intro d c i slot proper directory
    exact Set.mem_insert_of_mem _ (sound.subdirs (proper_slot slot proper) proper directory)
  · intro d c i slot proper kind
    refine (sound.leaves (proper_slot slot proper) proper kind).imp_right fun leaf => ⟨leaf.1, ?_⟩
    rintro (same | dir)
    · exact unreferenced (proper_slot slot proper) proper same
    · exact leaf.2 dir
  · intro d c i d' c' i' slot slot' proper proper'
    exact sound.own (proper_slot slot proper) (proper_slot slot' proper') proper proper'

/-- **An entry is added** at the end of the root directory: for an empty file, or for a directory
that nothing refers to. -/
theorem fill (sound : Sound fs view layout) {k j : ℕ} {new : DirEntry}
    (filled : Filled fs view view' k j new) {front back : List (ℕ × ℕ)}
    (slots : dirSlots fs (layout.chains fs.rootCluster) = front ++ (k, j) :: back)
    (before : ∀ slot ∈ front, (view.dirEntry slot.1 slot.2).isEnd = false)
    (shown : new.isEnd = false) (proper : new.isDot = false)
    (content : new.isDirectory = false ∧ new.firstCluster = 0 ∨
      new.isDirectory = true ∧ new.firstCluster ∈ layout.dirs ∧
        Unreferenced fs view layout new.firstCluster) :
    Sound fs view' layout := by
  have root_chain := sound.chain _ (sound.dirs_sub sound.root)
  obtain ⟨at_k, -⟩ := mem_dirSlots.mp (slots ▸ (by simp) :
    (k, j) ∈ dirSlots fs (layout.chains fs.rootCluster))
  have listed : ∀ {d c i}, ListedSlot fs view' layout d c i →
      (c, i) = (k, j) ∧ view'.dirEntry c i = new ∨
        view'.dirEntry c i = view.dirEntry c i ∧ ListedSlot fs view layout d c i := by
    intro d c i slot
    by_cases here : (c, i) = (k, j)
    · cases here
      exact Or.inl ⟨rfl, filled.here⟩
    · have entry := filled.others c i slot.inside here
      exact Or.inr ⟨entry, slot.dir, slot.mem, slot.inside, entry ▸ slot.shown, entry ▸ slot.listed⟩
  have fresh : ∀ {d c i}, ListedSlot fs view layout d c i → (view.dirEntry c i).isDot = false →
      (view.dirEntry c i).firstCluster = new.firstCluster → new.firstCluster = 0 := by
    intro d c i slot proper equal
    rcases content with ⟨_, zero⟩ | ⟨_, _, unreferenced⟩
    · exact zero
    · exact absurd equal (unreferenced slot proper)
  refine ⟨sound.root, sound.dirs_sub, ?_, sound.apart, ?_, ?_, ?_, ?_, ?_⟩
  · exact fun c head => (sound.chain c head).congr fun x _ => by rw [filled.entry]
  · intro d dir
    have unended : (dirSlots fs (layout.chains d)).Pairwise fun slot later =>
        later = (k, j) → (view.dirEntry slot.1 slot.2).isEnd = false := by
      by_cases is_root : d = fs.rootCluster
      · subst is_root
        have nodup := dirSlots_nodup fs root_chain.nodup
        rw [slots] at nodup ⊢
        have apart := (nodup_cons.mp (nodup_append.mp nodup).2.1).1
        refine pairwise_append.mpr ⟨?_, pairwise_cons.mpr ⟨?_, ?_⟩, ?_⟩
        · exact pairwise_of_forall_mem_list fun slot mem _ _ _ => before slot mem
        · exact fun later mem equal => absurd (equal ▸ mem) apart
        · exact pairwise_of_forall_mem_list fun _ _ later mem equal => absurd (equal ▸ mem) apart
        · exact fun slot mem _ _ _ => before slot mem
      · refine pairwise_of_forall_mem_list fun _ _ later mem equal => absurd ?_ is_root
        exact sound.head_eq (sound.dirs_sub dir) (sound.dirs_sub sound.root)
          (mem_dirSlots.mp (equal ▸ mem)).1 at_k
    -- the new entry is no end mark itself, and comes after none
    refine ((sound.ended d dir).and unended).imp_of_mem ?_
    rintro slot later mem mem' ⟨ended, first⟩ ends
    have old : slot ≠ (k, j) := by
      rintro rfl
      exact absurd (ends.symm.trans (filled.here ▸ shown)) (by simp)
    rw [filled.others _ _ (mem_dirSlots.mp mem).2 old] at ends
    have old' : later ≠ (k, j) := fun equal => absurd (ends.symm.trans (first equal)) (by simp)
    rw [filled.others _ _ (mem_dirSlots.mp mem').2 old']
    exact ended ends
  · intro d c i slot is_dot
    rcases listed slot with ⟨-, entry⟩ | ⟨entry, slot⟩ <;> rw [entry] at is_dot ⊢
    · exact absurd (is_dot.symm.trans proper) (by simp)
    · exact sound.dots slot is_dot
  · intro d c i slot not_dot directory
    rcases listed slot with ⟨-, entry⟩ | ⟨entry, slot⟩ <;> rw [entry] at not_dot directory ⊢
    · rcases content with ⟨kind, _⟩ | ⟨_, place, _⟩
      · exact absurd (kind.symm.trans directory) (by simp)
      · exact place
    · exact sound.subdirs slot not_dot directory
  · intro d c i slot not_dot kind
    rcases listed slot with ⟨-, entry⟩ | ⟨entry, slot⟩ <;> rw [entry] at not_dot kind ⊢
    · rcases content with ⟨_, zero⟩ | ⟨directory, _⟩
      · exact Or.inl zero
      · exact absurd (kind.symm.trans directory) (by simp)
    · exact sound.leaves slot not_dot kind
  · intro d c i d' c' i' slot slot' not_dot not_dot' equal
    rcases listed slot with ⟨here, entry⟩ | ⟨entry, slot⟩ <;>
      rcases listed slot' with ⟨here', entry'⟩ | ⟨entry', slot'⟩ <;>
      rw [entry, entry'] at equal <;> rw [entry] at not_dot ⊢ <;> rw [entry'] at not_dot'
    · exact Or.inr (here.trans here'.symm)
    · exact Or.inl (fresh slot' not_dot' equal.symm)
    · exact Or.inl (equal.trans (fresh slot not_dot equal))
    · exact sound.own slot slot' not_dot not_dot' equal

/-! ## What the calls return -/

/-- The clusters of the directories hold all that is reached. -/
theorem closed (sound : Sound fs view layout) :
    DirsClosed fs view {x | ∃ d ∈ layout.dirs, x ∈ layout.chains d} := by
  have start : ∀ d ∈ layout.dirs, d ∈ layout.chains d := fun d dir =>
    (sound.chain d (sound.dirs_sub dir)).start_mem
  refine ⟨⟨_, sound.root, start _ sound.root⟩, ?_, ?_, ?_⟩
  · rintro c ⟨d, dir, mem⟩
    exact (sound.chain d (sound.dirs_sub dir)).inRange c mem
  · rintro c ⟨d, dir, mem⟩
    refine ((sound.chain d (sound.dirs_sub dir)).chained.next_mem mem).imp_right fun next => ?_
    exact ⟨d, dir, next⟩
  · rintro c ⟨d, dir, mem⟩ i inside shown listed directory
    have slot : ListedSlot fs view layout d c i := ⟨dir, mem, inside, shown, listed⟩
    cases is_dot : (view.dirEntry c i).isDot with
    | true => exact (sound.dots slot is_dot).2.imp_right fun place => ⟨_, place, start _ place⟩
    | false =>
      have place := sound.subdirs slot is_dot directory
      exact Or.inr ⟨_, place, start _ place⟩

section

variable (sound : Sound fs view layout) (shows : Shows fs dev view)
include sound shows

/-- **A file that is found** has no clusters, or the chain of a file. -/
theorem lookup {memory : Bool} {path : List (BitVec 8)}
    (found : fat32Lookup memory fs dev path = some (some entry))
    (kind : entry.isDirectory = false) :
    entry.firstCluster = 0 ∨ entry.firstCluster ∈ layout.files := by
  rcases sound.closed.lookup_mem shows found with rfl | ⟨c, ⟨d, dir, mem⟩, i, inside, rfl,
    shown, listed⟩
  · have directory := DirEntry.isDirectory_of_attr (show (rootEntry fs).attr = _ from rfl)
    exact absurd (directory.symm.trans kind) (by simp)
  · have slot : ListedSlot fs view layout d c i := ⟨dir, mem, inside, shown, listed⟩
    cases is_dot : (view.dirEntry c i).isDot with
    | true => exact absurd ((sound.dots slot is_dot).1.symm.trans kind) (by simp)
    | false => exact sound.leaves slot is_dot kind

/-- What is listed in a directory is the entry on one of its slots. -/
theorem readdir {index : ℕ}
    (dir : d ∈ layout.dirs) (found : fat32Readdir fs dev d index = some (.ok (some entry))) :
    ∃ c i, (listedSlots view (dirSlots fs (layout.chains d)))[index]? = some (c, i) ∧
      view.dirEntry c i = entry ∧ ListedSlot fs view layout d c i := by
  obtain ⟨last, _, follows⟩ := (sound.chain d (sound.dirs_sub dir)).follows shows.geometry
  rw [follows.readdir_iff shows, listedEntries, getElem?_map] at found
  obtain ⟨⟨c, i⟩, at_index, rfl⟩ := Option.map_eq_some_iff.mp found
  obtain ⟨on, shown, listed⟩ := mem_listedSlots (mem_of_getElem? at_index)
  obtain ⟨mem, inside⟩ := mem_dirSlots.mp on
  exact ⟨c, i, at_index, rfl, dir, mem, inside, shown, listed⟩

/-- The directories that are listed are those of the layout. -/
theorem listedDir (listed : ListedDir fs dev d) : d ∈ layout.dirs := by
  induction listed with
  | root => exact sound.root
  | sub parent listed proper directory ih =>
    obtain ⟨c, i, _, rfl, slot⟩ := sound.readdir shows ih listed
    exact sound.subdirs slot proper directory

/-- The clusters of a chain are those of the layout. -/
theorem onChain (start : c = 0 ∨ c ∈ layout.heads) (on : OnChain fs dev c x) :
    c ∈ layout.heads ∧ x ∈ layout.chains c := by
  have head : c ∈ layout.heads := by
    rcases start with rfl | head
    · -- a chain has its first cluster in the data area
      have low : fs.InRange 0 := by
        induction on with
        | first range => exact range
        | next _ _ _ ih => exact ih
      exact absurd low.1 (by decide)
    · exact head
  refine ⟨head, ?_⟩
  have chain := sound.chain c head
  induction on with
  | first => exact chain.start_mem
  | next on link range ih =>
    rw [shows.readFat (chain.inRange _ ih)] at link
    cases link
    rcases chain.chained.next_mem ih with eoc | mem
    · rw [shows.geometry.not_eoc range] at eoc
      cases eoc
    · exact mem

/-- **A sound volume is consistent.** -/
theorem consistent : VolumeConsistent fs dev := by
  constructor
  · intro d index d' index' entry entry' lists lists' ne x on on'
    have dir := sound.listedDir shows lists.dir
    have dir' := sound.listedDir shows lists'.dir
    obtain ⟨c, i, at_index, rfl, slot⟩ := sound.readdir shows dir lists.listed
    obtain ⟨c', i', at_index', rfl, slot'⟩ := sound.readdir shows dir' lists'.listed
    obtain ⟨head, mem⟩ := sound.onChain shows (sound.firstCluster slot lists.proper) on
    obtain ⟨head', mem'⟩ := sound.onChain shows (sound.firstCluster slot' lists'.proper) on'
    -- both entries refer to one chain, so they are on one slot of one directory
    have low := ((sound.chain _ head).inRange _ (sound.chain _ head).start_mem).1
    rcases sound.own slot slot' lists.proper lists'.proper (sound.head_eq head head' mem mem') with
      zero | same
    · omega
    cases same
    obtain rfl := sound.head_eq (sound.dirs_sub dir) (sound.dirs_sub dir') slot.mem slot'.mem
    have nodup : (listedSlots view (dirSlots fs (layout.chains d))).Nodup :=
      (dirSlots_nodup fs (sound.chain d (sound.dirs_sub dir)).nodup).sublist
        (filter_sublist.trans (takeWhile_sublist _))
    obtain ⟨below, here⟩ := List.getElem?_eq_some_iff.mp at_index
    obtain ⟨below', here'⟩ := List.getElem?_eq_some_iff.mp at_index'
    exact ne (by rw [(nodup.getElem_inj_iff).mp (here.trans here'.symm)])
  · intro d index entry lists x on free
    obtain ⟨c, i, _, rfl, slot⟩ :=
      sound.readdir shows (sound.listedDir shows lists.dir) lists.listed
    obtain ⟨head, mem⟩ := sound.onChain shows (sound.firstCluster slot lists.proper) on
    rw [shows.readFat ((sound.chain _ head).inRange x mem)] at free
    exact sound.used_entry head mem (Option.some.inj free)

end

end Sound

end EduOS
