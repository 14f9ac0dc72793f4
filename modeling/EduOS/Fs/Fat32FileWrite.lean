import EduOS.Fs.Fat32File

/-!
# Writing a file

What `fat32_file_write` does to a file that is a `FileChain`.

`Growing` is the invariant of the whole call: the clusters `new` have been added to the
chain, `written` bytes are in place, and everything else is as it was.  The chain only grows
when it is full (`Growing.extend`), so in the end it has exactly the clusters that the new
size needs.

The data is always written as it should be.  `file_write_iff` says when the caller is told
so.
-/

namespace EduOS

open List FatView Option

/-! ## The file while it is written -/

/-- Between two passes of the loop: `written` of the `bytes` are at `pos`, and the clusters
`new`, free before, are at the end of the chain. -/
structure Growing (fs : FatInfo) (old : FatView) (chain : List ℕ) (pos : ℕ)
    (bytes : List (BitVec 8)) (written : ℕ) (view : FatView) (new : List ℕ) : Prop where
  inRange : ∀ c ∈ chain ++ new, fs.InRange c
  fresh : ∀ c ∈ new, old.entry c = fat32Free
  nodup : (chain ++ new).Nodup
  chained : Chained view.entry (fat32IsEoc · = true) (chain ++ new)
  others : ∀ c, c ∉ chain ++ new → view.entry c = old.entry c ∧ view.byte c = old.byte c
  room : pos + written ≤ (chain ++ new).length * fs.clusterSize
  tight : new ≠ [] → (chain ++ new).length * fs.clusterSize < pos + bytes.length + fs.clusterSize
  there : ∀ o, pos ≤ o → o < pos + written →
    pagedByte view.byte fs.clusterSize (chain ++ new) o = bytes.getD (o - pos) 0
  kept : ∀ o, o / fs.clusterSize < chain.length → ¬(pos ≤ o ∧ o < pos + written) →
    pagedByte view.byte fs.clusterSize (chain ++ new) o = pagedByte old.byte fs.clusterSize chain o

section

variable {fs : FatInfo} {old view : FatView} {chain new : List ℕ} {pos written : ℕ}
variable {bytes : List (BitVec 8)} {entry : DirEntry} {dev : BlockDevice}

/-- Nothing is written yet. -/
theorem FileChain.growing (file : FileChain fs old entry chain) (size_pos : 0 < fs.clusterSize)
    (inside : pos ≤ entry.fileSize) (bytes : List (BitVec 8)) :
    Growing fs old chain pos bytes 0 old [] where
  inRange := by simpa using file.inRange
  fresh := by simp
  nodup := by simpa using file.nodup
  chained := by simpa using file.chained
  others := fun _ _ => ⟨rfl, rfl⟩
  room := by simpa using inside.trans (file.size_le size_pos)
  tight := fun grown => absurd rfl grown
  there := fun o low high => by omega
  kept := fun o _ _ => by rw [append_nil]

/-- The clusters of a chain and the free ones are enough for the bytes. -/
structure HasSpace (fs : FatInfo) (old : FatView) (chain : List ℕ) (pos : ℕ)
    (bytes : List (BitVec 8)) : Prop where
  used : ∀ c ∈ chain, old.entry c ≠ fat32Free
  enough : fs.clustersFor (pos + bytes.length) ≤ chain.length + (fs.freeClusters old).card

section

variable (growing : Growing fs old chain pos bytes written view new)
include growing

/-- There is a free cluster as long as the bytes do not fit the chain. -/
theorem Growing.exists_free (space : HasSpace fs old chain pos bytes)
    (size_pos : 0 < fs.clusterSize) (more : written < bytes.length)
    (full : pos + written = (chain ++ new).length * fs.clusterSize) :
    ∃ c, fs.InRange c ∧ view.entry c = fat32Free := by
  have few : new.toFinset.card < (fs.freeClusters old).card := by
    have needed := (FatInfo.lt_clustersFor_iff size_pos).mpr
      (show (chain ++ new).length * fs.clusterSize < pos + bytes.length by omega)
    rw [length_append] at needed
    have distinct := toFinset_card_le new
    have enough := space.enough
    omega
  obtain ⟨c, free, not_new⟩ := Finset.exists_mem_notMem_of_card_lt_card few
  rw [FatInfo.freeClusters, Finset.mem_filter, Finset.mem_Ico] at free
  obtain ⟨range, is_free⟩ := free
  have outside : c ∉ chain ++ new := by
    rw [mem_append]
    rintro (mem | mem)
    · exact space.used c mem is_free
    · exact not_new (mem_toFinset.mpr mem)
  exact ⟨c, range, (growing.others c outside).1.trans is_free⟩

/-- **A cluster is added** to a full chain: it is marked as the end, and the last cluster
leads to it. -/
theorem Growing.extend
    {view' : FatView} {c : ℕ} (range : fs.InRange c) (free : view.entry c = fat32Free)
    (more : written < bytes.length) (full : pos + written = (chain ++ new).length * fs.clusterSize)
    (size_pos : 0 < fs.clusterSize) (mark : view'.entry c = fat32EocMax)
    (link : ∀ last, (chain ++ new)[(chain ++ new).length - 1]? = some last → view'.entry last = c)
    (same : ∀ d, d ≠ c → (chain ++ new)[(chain ++ new).length - 1]? ≠ some d →
      view'.entry d = view.entry d) (same_bytes : view'.byte = view.byte) :
    Growing fs old chain pos bytes written view' (new ++ [c]) := by
  have outside : c ∉ chain ++ new := fun mem =>
    chained_used growing.inRange growing.chained c mem free
  have old_free : old.entry c = fat32Free := (growing.others c outside).1.symm.trans free
  have length : (chain ++ new ++ [c]).length = (chain ++ new).length + 1 :=
    length_append
  have assoc : chain ++ (new ++ [c]) = chain ++ new ++ [c] := (append_assoc ..).symm
  constructor <;> try rw [assoc]
  · exact forall_mem_append.mpr ⟨growing.inRange, forall_mem_singleton.mpr range⟩
  · exact forall_mem_append.mpr ⟨growing.fresh, forall_mem_singleton.mpr old_free⟩
  · exact nodup_append.mpr ⟨growing.nodup, nodup_singleton c, fun d mem e new_c =>
      fun equal => outside (mem_singleton.mp new_c ▸ equal ▸ mem)⟩
  · refine growing.chained.concat (by rw [mark]; decide) ?_ ?_
    · intro i below not_last
      refine same _ (fun equal => outside (equal ▸ getElem_mem below)) fun last => ?_
      obtain ⟨_, equal⟩ := List.getElem?_eq_some_iff.mp last
      have := growing.nodup.getElem_inj_iff.mp equal
      omega
    · intro nonempty
      exact link _ (getElem?_eq_getElem _)
  · intro d not_member
    rw [mem_append, not_or, mem_singleton] at not_member
    have keep := growing.others d not_member.1
    refine ⟨(same d not_member.2 fun last => ?_).trans keep.1, ?_⟩
    · exact not_member.1 (mem_of_getElem? last)
    · rw [same_bytes, keep.2]
  · rw [length, Nat.succ_mul]
    omega
  · rw [length, Nat.succ_mul]
    omega
  · intro o low high
    have below : o / fs.clusterSize < (chain ++ new).length :=
      (Nat.div_lt_iff_lt_mul size_pos).mpr (by omega)
    rw [same_bytes, pagedByte_append below]
    exact growing.there o low high
  · intro o below miss
    rw [same_bytes, pagedByte_append (by rw [length_append]; omega)]
    exact growing.kept o below miss

/-- **A page is written.** -/
theorem Growing.write (size_pos : 0 < fs.clusterSize) {cluster step : ℕ} {buf : Bytes}
    (page : (chain ++ new)[(pos + written) / fs.clusterSize]? = some cluster)
    (inside : (pos + written) % fs.clusterSize + step ≤ fs.clusterSize)
    (held : ∀ j, j < fs.clusterSize → ¬((pos + written) % fs.clusterSize ≤ j ∧
      j < (pos + written) % fs.clusterSize + step) → buf j = view.byte cluster j) :
    Growing fs old chain pos bytes (written + step)
      (view.setBytes cluster
        (overwrite buf ((pos + written) % fs.clusterSize) step bytes written)) new := by
  obtain ⟨below, cluster_eq⟩ := List.getElem?_eq_some_iff.mp page
  have split := Nat.div_add_mod (pos + written) fs.clusterSize
  have end_le : pos + written + step ≤ (chain ++ new).length * fs.clusterSize := by
    have pages : fs.clusterSize * ((pos + written) / fs.clusterSize + 1) ≤
        fs.clusterSize * (chain ++ new).length := Nat.mul_le_mul_left _ below
    rw [Nat.mul_succ] at pages
    rw [Nat.mul_comm (chain ++ new).length]
    omega
  have content : ∀ o, o / fs.clusterSize < (chain ++ new).length →
      pagedByte (view.setBytes cluster
          (overwrite buf ((pos + written) % fs.clusterSize) step bytes written)).byte
          fs.clusterSize (chain ++ new) o =
        if pos + written ≤ o ∧ o < pos + written + step then bytes.getD (o - pos) 0
        else pagedByte view.byte fs.clusterSize (chain ++ new) o := by
    intro o o_below
    rw [pagedByte_write (fun j => bytes.getD (written + j) 0) growing.nodup below inside
      o_below size_pos]
    · by_cases hit : pos + written ≤ o ∧ o < pos + written + step
      · rw [if_pos hit, if_pos hit]
        congr 1
        omega
      · rw [if_neg hit, if_neg hit]
    · intro c _ ne j _
      rw [cluster_eq] at ne
      rw [setBytes_byte_of_ne ne]
    · intro j j_below
      rw [cluster_eq, setBytes_byte_self, overwrite]
      split
      · rfl
      · rename_i miss
        exact held j j_below miss
  refine ⟨growing.inRange, growing.fresh, growing.nodup, growing.chained, ?_, ?_, growing.tight,
    ?_, ?_⟩
  · intro c not_member
    have ne : c ≠ cluster := (ne_of_mem_of_not_mem (mem_of_getElem? page) not_member).symm
    have keep := growing.others c not_member
    exact ⟨keep.1, (setBytes_byte_of_ne ne).trans keep.2⟩
  · omega
  · intro o low high
    rw [content o ((Nat.div_lt_iff_lt_mul size_pos).mpr (by omega))]
    by_cases now : pos + written ≤ o
    · rw [if_pos ⟨now, by omega⟩]
    · rw [if_neg (by omega)]
      exact growing.there o low (by omega)
  · intro o below_old miss
    rw [content o (by rw [length_append]; omega), if_neg (by omega)]
    exact growing.kept o below_old (by omega)

end

/-! ## The steps of the call -/

/-- A cluster is allocated and the last one of the chain linked to it. -/
theorem Growing.alloc_link (growing : Growing fs old chain pos bytes written view new)
    (shows : Shows fs dev view) (space : HasSpace fs old chain pos bytes)
    (more : written < bytes.length) (full : pos + written = (chain ++ new).length * fs.clusterSize)
    {last : ℕ} (is_last : (chain ++ new)[(chain ++ new).length - 1]? = some last) :
    ∃ c dev' dev'' view', fat32AllocCluster fs dev = some (c, dev') ∧ 2 ≤ c ∧
      fat32WriteFat fs dev' last c = some (.ok (), dev'') ∧ Shows fs dev'' view' ∧
      Growing fs old chain pos bytes written view' (new ++ [c]) := by
  have size_pos := shows.geometry.size_pos
  obtain ⟨free, free_range, is_free⟩ := growing.exists_free space size_pos more full
  obtain ⟨c, dev', alloc, range, was_free, shows'⟩ := shows.alloc free_range is_free
  have last_member : last ∈ chain ++ new := mem_of_getElem? is_last
  obtain ⟨dev'', link, shows''⟩ := shows'.writeFat (growing.inRange last last_member) c
  rw [shows.geometry.masked range] at shows''
  have ne : c ≠ last := by
    rintro rfl
    exact chained_used growing.inRange growing.chained c last_member was_free
  refine ⟨c, dev', dev'', _, alloc, range.1, link, shows'', ?_⟩
  refine growing.extend range was_free more full size_pos ?_ ?_ ?_ rfl
  · rw [setEntry_entry_of_ne ne, setEntry_entry_self]
  · rintro d d_last
    obtain rfl : last = d := mem_unique is_last d_last
    exact setEntry_entry_self ..
  · intro d d_ne d_not_last
    have d_ne_last : d ≠ last := by
      rintro rfl
      exact d_not_last is_last
    rw [setEntry_entry_of_ne d_ne_last, setEntry_entry_of_ne d_ne]

section

variable {s : WriteState} (growing : Growing fs old chain pos bytes s.written view new)
    (shows : Shows fs s.dev view) (space : HasSpace fs old chain pos bytes)
    (more : s.written < bytes.length)
include growing shows space more

/-- The cluster for the next byte, at the end of a pass. -/
theorem Growing.nextCluster {i : ℕ} (page : (chain ++ new)[i]? = some s.cluster)
    (at_end : pos + s.written = (i + 1) * fs.clusterSize) (offset : s.offset = 0) :
    ∃ s' view' new', nextCluster fs s = some (Sum.inl s') ∧ s'.written = s.written ∧
      new <+: new' ∧ Shows fs s'.dev view' ∧ Growing fs old chain pos bytes s.written view' new' ∧
      (chain ++ new')[(pos + s.written) / fs.clusterSize]? = some s'.cluster ∧
      s'.offset = (pos + s.written) % fs.clusterSize := by
  have size_pos := shows.geometry.size_pos
  obtain ⟨below, cluster_eq⟩ := List.getElem?_eq_some_iff.mp page
  have range : fs.InRange s.cluster := cluster_eq ▸ growing.inRange _ (getElem_mem below)
  rw [at_end, Nat.mul_div_cancel _ size_pos, Nat.mul_mod_left, EduOS.nextCluster,
    shows.readFat range, bind_some]
  by_cases further : i + 1 < (chain ++ new).length
  · have next := growing.chained.next_getElem further
    rw [cluster_eq] at next
    have next_range := growing.inRange _ (getElem_mem further)
    rw [next, shows.geometry.not_eoc next_range, if_neg Bool.false_ne_true]
    exact ⟨_, view, new, rfl, rfl, prefix_rfl, shows, growing, getElem?_eq_getElem further, offset⟩
  · -- the chain ends here
    have last : (chain ++ new).length - 1 = i := by omega
    have mark : fat32IsEoc (view.entry s.cluster) = true := by
      rw [← cluster_eq]
      have := growing.chained.next_last (by omega)
      simpa only [last] using this
    have full : pos + s.written = (chain ++ new).length * fs.clusterSize := by
      rw [at_end]
      congr 1
      omega
    obtain ⟨c, dev', dev'', view', alloc, low, link, shows'', growing'⟩ :=
      growing.alloc_link shows space more full (last.symm ▸ page)
    rw [if_pos mark, alloc, bind_some]
    dsimp only
    rw [if_neg (by omega), link, map_some]
    refine ⟨_, view', new ++ [c], rfl, rfl, prefix_append .., shows'', growing', ?_, offset⟩
    have here : i + 1 = (chain ++ new).length := by omega
    rw [← append_assoc, here, getElem?_concat_length]

/-- **One pass of the loop.** -/
theorem Growing.writePass
    (page : (chain ++ new)[(pos + s.written) / fs.clusterSize]? = some s.cluster)
    (offset : s.offset = (pos + s.written) % fs.clusterSize) :
    ∃ s' view' new', writePass fs bytes s = some (Sum.inl s') ∧ s.written < s'.written ∧
      s'.written ≤ bytes.length ∧ new <+: new' ∧ Shows fs s'.dev view' ∧
      Growing fs old chain pos bytes s'.written view' new' ∧
      (s'.written < bytes.length →
        (chain ++ new')[(pos + s'.written) / fs.clusterSize]? = some s'.cluster ∧
          s'.offset = (pos + s'.written) % fs.clusterSize) := by
  have size_pos := shows.geometry.size_pos
  obtain ⟨below, cluster_eq⟩ := List.getElem?_eq_some_iff.mp page
  have range : fs.InRange s.cluster := cluster_eq ▸ growing.inRange _ (getElem_mem below)
  have offset_lt : s.offset < fs.clusterSize := offset ▸ Nat.mod_lt _ size_pos
  rw [EduOS.writePass, if_neg (Nat.not_le.mpr more)]
  dsimp only
  generalize buf_eq : (if 0 < s.offset ∨ bytes.length - s.written < fs.clusterSize - s.offset
    then _ else s.buf) = buf
  set step := min (fs.clusterSize - s.offset) (bytes.length - s.written) with step_def
  -- a cluster that is written in part is read before
  have held : ∀ j, j < fs.clusterSize → ¬(s.offset ≤ j ∧ j < s.offset + step) →
      buf j = view.byte s.cluster j := by
    intro j j_below miss
    obtain ⟨filled, read, same⟩ := shows.readCluster range s.buf
    rw [if_pos (by omega), read] at buf_eq
    rw [← buf_eq]
    exact same j j_below
  obtain ⟨dev', write, shows'⟩ := shows.writeCluster range
    (overwrite buf s.offset step bytes s.written)
  rw [write]
  rw [offset] at held
  have fits : (pos + s.written) % fs.clusterSize + step ≤ fs.clusterSize := by omega
  have growing' := growing.write size_pos page fits held
  rw [← offset] at growing'
  by_cases left : s.written + step < bytes.length
  · have at_end : pos + (s.written + step) = ((pos + s.written) / fs.clusterSize + 1) *
        fs.clusterSize := by
      have split := Nat.div_add_mod (pos + s.written) fs.clusterSize
      rw [Nat.succ_mul, Nat.mul_comm]
      omega
    obtain ⟨s', view', new', run, same, longer, shows'', growing'', page', offset'⟩ :=
      Growing.nextCluster (s := ⟨s.cluster, 0, s.written + step,
        overwrite buf s.offset step bytes s.written, dev'⟩)
      growing' shows' space left page at_end rfl
    dsimp only at same growing'' page' offset' ⊢
    rw [if_pos left]
    refine ⟨s', view', new', run, ?_, ?_, longer, shows'', same ▸ growing'', fun _ => ?_⟩
    · omega
    · omega
    · rw [same]
      exact ⟨page', offset'⟩
  · dsimp only
    rw [if_neg left]
    refine ⟨_, _, new, rfl, ?_, ?_, prefix_rfl, shows', growing',
      fun more' => absurd more' left⟩
    · dsimp only
      omega
    · dsimp only
      omega

end

/-- **The loop** writes all the bytes. -/
theorem Growing.loop (growing : Growing fs old chain pos bytes 0 view new)
    (shows : Shows fs dev view) (space : HasSpace fs old chain pos bytes)
    (small : bytes.length < 2 ^ 32) {cluster : ℕ} (buf : Bytes)
    (page : (chain ++ new)[pos / fs.clusterSize]? = some cluster) :
    ∃ dev' view' new', EduOS.loop (EduOS.writePass fs bytes) (2 ^ 32)
        ⟨cluster, pos % fs.clusterSize, 0, buf, dev⟩ = some (.ok bytes.length, dev') ∧
      new <+: new' ∧ Shows fs dev' view' ∧
      Growing fs old chain pos bytes bytes.length view' new' := by
  obtain ⟨r, run, ok, view', new', longer, shows', growing'⟩ :=
    loop_total (EduOS.writePass fs bytes)
    (fun s => s.written ≤ bytes.length ∧ ∃ view' new', new <+: new' ∧ Shows fs s.dev view' ∧
      Growing fs old chain pos bytes s.written view' new' ∧
      (s.written < bytes.length →
        (chain ++ new')[(pos + s.written) / fs.clusterSize]? = some s.cluster ∧
          s.offset = (pos + s.written) % fs.clusterSize))
    (fun r => r.1 = .ok bytes.length ∧ ∃ view' new', new <+: new' ∧ Shows fs r.2 view' ∧
      Growing fs old chain pos bytes bytes.length view' new')
    (fun s => bytes.length - s.written) (by
      rintro s ⟨le, view, new', longer, shows, growing, here⟩
      by_cases done : bytes.length ≤ s.written
      · right
        have all : s.written = bytes.length := le_antisymm le done
        exact ⟨_, if_pos done, by rw [all], view, new', longer, shows, all ▸ growing⟩
      left
      obtain ⟨page, offset⟩ := here (by omega)
      obtain ⟨s', view', new'', pass, further, le', longer', shows', growing', here'⟩ :=
        growing.writePass shows space (by omega) page offset
      exact ⟨s', pass, ⟨le', view', new'', longer.trans longer', shows', growing', here'⟩,
        by omega⟩)
    (2 ^ 32) ⟨cluster, pos % fs.clusterSize, 0, buf, dev⟩
    ⟨Nat.zero_le _, view, new, prefix_rfl, shows, growing, fun _ => ⟨page, rfl⟩⟩
    (by dsimp only; omega)
  obtain ⟨status, dev'⟩ := r
  obtain rfl : status = .ok bytes.length := ok
  exact ⟨dev', view', new', run, longer, shows', growing'⟩

/-- Before the loop an empty file gets its first cluster. -/
theorem FileChain.prepare_empty (file : FileChain fs old entry []) (shows : Shows fs dev old)
    (inside : pos ≤ entry.fileSize) (some_bytes : 0 < bytes.length)
    (space : HasSpace fs old [] pos bytes) :
    ∃ c dev' view, ensureFirst fs dev entry = some (some c, entry.setFirstCluster c, dev') ∧
      locateCluster fs dev' (pos / fs.clusterSize) c = some (some c, dev') ∧
      Shows fs dev' view ∧ Growing fs old [] pos bytes 0 view [c] ∧
      [c][pos / fs.clusterSize]? = some c ∧ c < 2 ^ 32 := by
  have size_pos := shows.geometry.size_pos
  have at_start : pos = 0 := by simpa using inside.trans (file.size_le size_pos)
  have growing := file.growing size_pos inside bytes
  have full : pos + 0 = ([] ++ ([] : List ℕ)).length * fs.clusterSize := by simpa using at_start
  obtain ⟨free, free_range, is_free⟩ := growing.exists_free space size_pos some_bytes full
  obtain ⟨c, dev', alloc, range, was_free, shows'⟩ := shows.alloc free_range is_free
  have low := range.1
  have first : entry.firstCluster = 0 := file.first
  refine ⟨c, dev', _, ?_, ?_, shows', ?_, ?_, ?_⟩
  · rw [ensureFirst, if_pos first, alloc, map_some]
    dsimp only
    rw [if_neg (by omega)]
  · rw [at_start, Nat.zero_div, locateCluster, skipClusters, bind_some]
    exact if_neg fun both => absurd both.2 (lt_irrefl 0)
  · refine growing.extend range was_free some_bytes full size_pos (setEntry_entry_self ..)
      (fun last found => ?_) (fun d ne _ => setEntry_entry_of_ne ne) rfl
    simp at found
  · rw [at_start, Nat.zero_div]
    rfl
  · have := shows.geometry.cluster_lt range
    omega

/-- A file with clusters gets another one if the position is behind the last one. -/
theorem FileChain.prepare_nonempty (file : FileChain fs old entry chain) (shows : Shows fs dev old)
    (clusters : 0 < chain.length) (inside : pos ≤ entry.fileSize) (some_bytes : 0 < bytes.length)
    (space : HasSpace fs old chain pos bytes) :
    ∃ cluster dev' view new, ensureFirst fs dev entry = some (some chain[0], entry, dev) ∧
      locateCluster fs dev (pos / fs.clusterSize) chain[0] = some (some cluster, dev') ∧
      Shows fs dev' view ∧ Growing fs old chain pos bytes 0 view new ∧
      (chain ++ new)[pos / fs.clusterSize]? = some cluster := by
  have size_pos := shows.geometry.size_pos
  have growing := file.growing size_pos inside bytes
  have first : entry.firstCluster = chain[0] := by
    rw [file.first, headD_eq_head?_getD, head?_eq_getElem?, getElem?_eq_getElem clusters, getD_some]
  have low := (file.inRange _ (getElem_mem clusters)).1
  have ensure : ensureFirst fs dev entry = some (some chain[0], entry, dev) := by
    rw [ensureFirst, first, if_neg (by omega)]
  have pos_le : pos ≤ chain.length * fs.clusterSize := inside.trans (file.size_le size_pos)
  have page_le : pos / fs.clusterSize ≤ chain.length :=
    Nat.div_le_of_le_mul (by rwa [Nat.mul_comm])
  obtain ⟨prev, cluster, skip, here, behind⟩ := shows.skip file.inRange file.chained
    (pos / fs.clusterSize) 0 0 clusters (by omega)
  rcases Nat.lt_or_eq_of_le page_le with below | at_end
  · have cluster_eq : cluster = chain[pos / fs.clusterSize] := by
      rw [here (by omega)]
      congr 1
      omega
    have range : fs.InRange cluster := cluster_eq ▸ file.inRange _ (getElem_mem below)
    refine ⟨cluster, dev, old, [], ensure, ?_, shows, growing, ?_⟩
    · rw [locateCluster, skip, bind_some]
      refine if_neg fun both => ?_
      rw [shows.geometry.not_eoc range] at both
      exact Bool.false_ne_true both.1
    · rw [append_nil, getElem?_eq_getElem below, cluster_eq]
  · obtain ⟨mark, is_last⟩ := behind (by omega)
    have full : pos + 0 = (chain ++ []).length * fs.clusterSize := by
      have le := Nat.div_mul_le_self pos fs.clusterSize
      rw [at_end] at le
      rw [append_nil]
      omega
    obtain ⟨c, dev', dev'', view, alloc, c_low, link, shows'', growing'⟩ := growing.alloc_link
      shows space some_bytes full (by rwa [append_nil])
    have prev_low := (file.inRange _ (mem_of_getElem? is_last)).1
    refine ⟨c, dev'', view, [c], ensure, ?_, shows'', growing', ?_⟩
    · rw [locateCluster, skip, bind_some]
      dsimp only
      rw [if_pos ⟨mark, by omega⟩, alloc, bind_some]
      rw [if_neg (by omega), if_pos (by omega), link, map_some]
    · rw [at_end, getElem?_concat_length]

/-- **Before the loop**: the entry names the first cluster, and there is a cluster for the
first byte. -/
theorem FileChain.prepare (file : FileChain fs old entry chain) (shows : Shows fs dev old)
    (inside : pos ≤ entry.fileSize) (some_bytes : 0 < bytes.length)
    (space : HasSpace fs old chain pos bytes) :
    ∃ first entry' dev' cluster dev'' view new,
      ensureFirst fs dev entry = some (some first, entry', dev') ∧
      locateCluster fs dev' (pos / fs.clusterSize) first = some (some cluster, dev'') ∧
      Shows fs dev'' view ∧ Growing fs old chain pos bytes 0 view new ∧
      (chain ++ new)[pos / fs.clusterSize]? = some cluster ∧
      entry'.fileSize = entry.fileSize ∧
      ∃ rest, chain ++ new = entry'.firstCluster :: rest := by
  cases chain with
  | nil =>
    obtain ⟨c, dev', view, ensure, locate, shows', growing, page, small⟩ :=
      file.prepare_empty shows inside some_bytes space
    refine ⟨c, _, dev', c, dev', view, [c], ensure, locate, shows', growing, page,
      DirEntry.fileSize_setFirstCluster .., [], ?_⟩
    rw [DirEntry.firstCluster_setFirstCluster _ small]
    rfl
  | cons first rest =>
    obtain ⟨cluster, dev', view, new, ensure, locate, shows', growing, page⟩ :=
      file.prepare_nonempty shows (Nat.succ_pos _) inside some_bytes space
    refine ⟨first, entry, dev, cluster, dev', view, new, ensure, locate, shows', growing, page,
      rfl, rest ++ new, ?_⟩
    rw [file.first]
    rfl

/-! ## The file afterwards -/

/-- The chain has grown to what the new size needs. -/
theorem Growing.length_eq (growing : Growing fs old chain pos bytes bytes.length view new)
    (size_pos : 0 < fs.clusterSize) {size : ℕ} (length : chain.length = fs.clustersFor size) :
    (chain ++ new).length = fs.clustersFor (max size (pos + bytes.length)) := by
  have size_le : size ≤ chain.length * fs.clusterSize :=
    (FatInfo.clustersFor_le_iff size_pos).mp length.ge
  have longer : chain.length * fs.clusterSize ≤ (chain ++ new).length * fs.clusterSize :=
    Nat.mul_le_mul_right _ (by rw [length_append]; omega)
  have room := growing.room
  refine le_antisymm ?_ ((FatInfo.clustersFor_le_iff size_pos).mpr (by omega))
  by_cases same : new = []
  · rw [same, append_nil, length]
    refine (FatInfo.clustersFor_le_iff size_pos).mpr ?_
    exact (le_max_left _ _).trans ((FatInfo.clustersFor_le_iff size_pos).mp le_rfl)
  -- the last cluster was added because the bytes did not fit without it
  have tight := growing.tight same
  obtain ⟨k, k_eq⟩ : ∃ k, (chain ++ new).length = k + 1 :=
    ⟨_, (Nat.succ_pred_eq_of_pos (length_pos_iff.mpr (by simp [same]))).symm⟩
  rw [k_eq, Nat.succ_mul] at tight
  rw [k_eq]
  exact (FatInfo.lt_clustersFor_iff size_pos).mpr (by omega)

/-- The bytes of the file afterwards. -/
theorem Growing.bytes_eq (growing : Growing fs old chain pos bytes bytes.length view new)
    (file : FileChain fs old entry chain) (size_pos : 0 < fs.clusterSize)
    (inside : pos ≤ entry.fileSize) {entry' : DirEntry}
    (size : entry'.fileSize = max entry.fileSize (pos + bytes.length)) :
    chainBytes fs view entry' (chain ++ new) =
      (chainBytes fs old entry chain).take pos ++ bytes ++
        (chainBytes fs old entry chain).drop (pos + bytes.length) := by
  have old_length : (chainBytes fs old entry chain).length = entry.fileSize := by simp [chainBytes]
  have take_length : ((chainBytes fs old entry chain).take pos).length = pos := by
    rw [length_take, old_length]
    omega
  refine ext_getElem ?_ fun o below below' => ?_
  · simp [chainBytes, length_range, size]
    omega
  have o_lt : o < max entry.fileSize (pos + bytes.length) := by
    simpa [chainBytes, size] using below
  have value : (chainBytes fs view entry' (chain ++ new)).get ⟨o, below⟩ =
      pagedByte view.byte fs.clusterSize (chain ++ new) o := by simp [chainBytes]
  rw [get_eq_getElem] at value
  rw [value]
  have old_value : ∀ x, x < entry.fileSize → ¬(pos ≤ x ∧ x < pos + bytes.length) →
      pagedByte view.byte fs.clusterSize (chain ++ new) x =
        pagedByte old.byte fs.clusterSize chain x := fun x lt miss =>
    growing.kept x (file.page_lt size_pos lt) miss
  by_cases before : o < pos
  · rw [getElem_append_left (by rw [length_append, take_length]; omega),
      getElem_append_left (by omega), getElem_take, old_value o (by omega) (by omega)]
    simp [chainBytes]
  by_cases during : o < pos + bytes.length
  · rw [getElem_append_left (by rw [length_append, take_length]; omega),
      getElem_append_right (by omega), growing.there o (by omega) during,
      getD_eq_getElem _ _ (by omega)]
    simp [take_length]
  · rw [getElem_append_right (by rw [length_append, take_length]; omega),
      getElem_drop, old_value o (by omega) (by omega)]
    simp only [chainBytes, getElem_map, getElem_range, length_append,
      length_take, length_map, length_range]
    congr 1
    omega

theorem DirEntry.grown_fileSize {pos written : ℕ} (small : pos + written < 2 ^ 32) :
    (entry.grown pos written).fileSize = max entry.fileSize (pos + written) := by
  rw [grown, u32_of_lt small]
  split
  · rw [fileSize_setFileSize _ small]
    omega
  · omega

theorem DirEntry.grown_firstCluster {pos written : ℕ} :
    (entry.grown pos written).firstCluster = entry.firstCluster := by
  rw [grown]
  split
  · exact firstCluster_setFileSize ..
  · rfl

/-- **Writing a file**: the bytes are replaced, the file has the clusters it needs, and no
cluster in use outside of it changes. -/
theorem FileChain.write (file : FileChain fs old entry chain) (shows : Shows fs dev old)
    (buf : Bytes) (inside : pos ≤ entry.fileSize) (some_bytes : 0 < bytes.length)
    (small : pos + bytes.length < 2 ^ 32) (space : HasSpace fs old chain pos bytes) :
    ∃ entry' dev' view chain', fat32FileWrite (some fs) dev (some buf) (some entry) pos bytes =
        some ⟨asInt bytes.length, some entry', pos + bytes.length, dev'⟩ ∧
      entry'.fileSize = max entry.fileSize (pos + bytes.length) ∧
      Shows fs dev' view ∧ FileChain fs view entry' chain' ∧
      chainBytes fs view entry' chain' = (chainBytes fs old entry chain).take pos ++ bytes ++
        (chainBytes fs old entry chain).drop (pos + bytes.length) ∧
      ∀ c, c ∉ chain → old.entry c ≠ fat32Free →
        view.entry c = old.entry c ∧ view.byte c = old.byte c := by
  have size_pos := shows.geometry.size_pos
  obtain ⟨first, entry₁, dev₁, cluster, dev₂, view₂, new₂, ensure, locate, shows₂, growing₂, page,
    same_size, rest, names⟩ := file.prepare shows inside some_bytes space
  obtain ⟨dev', view, new, run, ⟨more, rfl⟩, shows', growing⟩ :=
    growing₂.loop shows₂ space (by omega) buf page
  have size : (entry₁.grown pos bytes.length).fileSize =
      max entry.fileSize (pos + bytes.length) := by
    rw [DirEntry.grown_fileSize small, same_size]
  refine ⟨entry₁.grown pos bytes.length, dev', view, chain ++ (new₂ ++ more), ?_, size, shows', ?_,
    growing.bytes_eq file size_pos inside size, ?_⟩
  · simp only [fat32FileWrite, ensure, bind_some, locate, run, map_some, u32_of_lt small]
  · refine ⟨growing.inRange, growing.nodup, growing.chained, ?_, ?_⟩
    · rw [DirEntry.grown_firstCluster, ← append_assoc, names]
      rfl
    · rw [growing.length_eq size_pos file.length, size]
  · intro c not_chain in_use
    refine growing.others c fun mem => ?_
    rcases mem_append.mp mem with mem | mem
    · exact not_chain mem
    · exact in_use (growing.fresh c mem)

end

/-! ## What the caller sees -/

/-- `fat32_file_write` returns the number of bytes, the file is well formed and as long as
it should be, reading it gives the old bytes with the written ones in their place, and the
entries and clusters of all other files are unchanged. -/
def WriteThenRead (fs : FatInfo) (dev : BlockDevice) (entry : DirEntry) (chain : List ℕ)
    (buf : Bytes) (pos : ℕ) (bytes : List (BitVec 8)) : Prop :=
  ∃ entry' dev' chain',
    fat32FileWrite (some fs) dev (some buf) (some entry) pos bytes =
      some ⟨bytes.length, some entry', pos + bytes.length, dev'⟩ ∧
    entry'.fileSize = max entry.fileSize (pos + bytes.length) ∧
    FileChain fs (viewOf fs dev') entry' chain' ∧
    (∀ buf' count out, count < 2 ^ 32 →
      out = ((chainBytes fs (viewOf fs dev) entry chain).take pos ++ bytes ++
        (chainBytes fs (viewOf fs dev) entry chain).drop (pos + bytes.length)).take count →
      fat32FileRead (some fs) dev' (some buf') (some entry') 0 count =
        some ⟨asInt out.length, out, out.length⟩) ∧
    ∀ other clusters, FileChain fs (viewOf fs dev) other clusters → clusters.Disjoint chain →
      ∀ c ∈ clusters, fatEntry fs dev' c = fatEntry fs dev c ∧
        ∀ j, j < fs.clusterSize → clusterByte fs dev' c j = clusterByte fs dev c j

section

variable (fs : FatInfo) (dev : BlockDevice) (entry : DirEntry) (chain : List ℕ) (buf : Bytes)
    (pos : ℕ) (bytes : List (BitVec 8)) (geometry : FatGeometry fs dev.totalSectors)
    (file : FileChain fs (viewOf fs dev) entry chain)
    (inside : pos ≤ entry.fileSize) (some_bytes : 0 < bytes.length)
    (small : pos + bytes.length < 2 ^ 32)
    (enough : fs.clustersFor (max entry.fileSize (pos + bytes.length)) ≤
      chain.length + (fs.freeClusters (viewOf fs dev)).card)
include geometry file inside some_bytes small enough

/-- All of it holds, up to the conversion of the returned number. -/
theorem writeThenRead_of_asInt :
    (∃ entry' pos' dev', fat32FileWrite (some fs) dev (some buf) (some entry) pos bytes =
        some ⟨asInt bytes.length, some entry', pos', dev'⟩) ∧
      (asInt bytes.length = bytes.length → WriteThenRead fs dev entry chain buf pos bytes) := by
  have size_pos := geometry.size_pos
  have enough' : fs.clustersFor (pos + bytes.length) ≤
      chain.length + (fs.freeClusters (viewOf fs dev)).card := by
    refine le_trans ?_ enough
    rw [FatInfo.clustersFor_le_iff size_pos]
    exact (le_max_right _ _).trans ((FatInfo.clustersFor_le_iff size_pos).mp le_rfl)
  obtain ⟨entry', dev', view, chain', run, size, shows', file', content, others⟩ :=
    file.write geometry.shows buf inside some_bytes small
      ⟨chained_used file.inRange file.chained, enough'⟩
  refine ⟨⟨_, _, _, run⟩, fun returned => ⟨entry', dev', chain', ?_, size, ?_, ?_, ?_⟩⟩
  · rw [run, returned]
  · exact file'.congr fun c mem => shows'.entry c (file'.inRange c mem)
  · intro buf' count out below out_eq
    have read := file'.read shows' buf' 0 count (by omega)
      (out_eq.trans (by rw [content, drop_zero]))
    rwa [Nat.zero_add] at read
  · intro other clusters other_file disjoint c mem
    have range := other_file.inRange c mem
    obtain ⟨same_entry, same_bytes⟩ := others c (fun mine => disjoint mem mine)
      (chained_used other_file.inRange other_file.chained c mem)
    refine ⟨(shows'.entry c range).trans same_entry, fun j below => ?_⟩
    rw [shows'.byte c range j below, same_bytes]
    rfl

/-- **A write is reported as it should be exactly below 2 GiB.** -/
theorem file_write_iff :
    WriteThenRead fs dev entry chain buf pos bytes ↔ bytes.length < 2 ^ 31 := by
  obtain ⟨⟨entry', pos', dev', run⟩, correct⟩ :=
    writeThenRead_of_asInt fs dev entry chain buf pos bytes geometry file inside some_bytes small
      enough
  constructor
  · rintro ⟨_, _, _, returned, _⟩
    rw [run] at returned
    refine (asInt_eq_iff (by omega)).mp ?_
    exact congrArg WriteResult.ret (Option.some.inj returned)
  · intro below
    exact correct ((asInt_eq_iff (by omega)).mpr below)

end

/-! ## Two volumes -/

/-- A device with nothing on it. -/
def blankDevice (sectors : ℕ) : BlockDevice := ⟨sectors, fun _ => 0⟩

/-- On an empty volume every cluster is free. -/
theorem card_freeClusters_blank (fs : FatInfo) (sectors : ℕ) :
    (fs.freeClusters (viewOf fs (blankDevice sectors))).card = fs.totalClusters - 2 := by
  have all : ∀ c ∈ Finset.Ico 2 fs.totalClusters,
      (viewOf fs (blankDevice sectors)).entry c = fat32Free := fun _ _ => rfl
  rw [FatInfo.freeClusters, Finset.filter_true_of_mem all, Nat.card_Ico]

/-- An empty file. -/
def emptyEntry : DirEntry := fun _ => 0

theorem emptyEntry_file {fs : FatInfo} {view : FatView} (size_pos : 0 < fs.clusterSize) :
    FileChain fs view emptyEntry [] where
  inRange := by simp
  nodup := nodup_nil
  chained := trivial
  first := rfl
  length := by
    refine (Nat.div_eq_of_lt ?_).symm
    show 0 + fs.clusterSize - 1 < fs.clusterSize
    omega

/-- Three bytes for an empty file. -/
theorem file_write_small : WriteThenRead (smallInfo 8) (blankDevice 1000) emptyEntry []
    (fun _ => 0) 0 [1, 2, 3] := by
  refine (file_write_iff (smallInfo 8) (blankDevice 1000) emptyEntry [] (fun _ => 0) 0 [1, 2, 3]
    (by constructor <;> decide)
    (emptyEntry_file (by decide)) (by decide) (by decide) (by decide) ?_).mpr
    (by decide)
  rw [card_freeClusters_blank]
  decide

/-- The parameters of a volume with 2 GiB of data in clusters of 64 KiB. -/
def bigInfo : FatInfo where
  bytesPerSector := 512
  sectorsPerCluster := 128
  clusterSize := 65536
  reservedSectors := 1
  numFats := 1
  fatSize := 257
  rootCluster := 2
  totalSectors := 4194562
  totalClusters := 32770
  fatStartSector := 1
  dataStartSector := 258

theorem bigInfo_geometry : FatGeometry bigInfo 4194562 := by
  constructor <;> decide

/-- A file of 2 GiB is written, and the call returns a negative number. -/
theorem file_write_negative :
    FatGeometry bigInfo (blankDevice 4194562).totalSectors ∧
      FileChain bigInfo (viewOf bigInfo (blankDevice 4194562)) emptyEntry [] ∧
      bigInfo.clustersFor (2 ^ 31) ≤
        (bigInfo.freeClusters (viewOf bigInfo (blankDevice 4194562))).card ∧
      (∃ entry' pos' dev', fat32FileWrite (some bigInfo) (blankDevice 4194562)
        (some fun _ => 0) (some emptyEntry) 0 (List.replicate (2 ^ 31) 0) =
          some ⟨-2147483648, some entry', pos', dev'⟩) ∧
      ¬WriteThenRead bigInfo (blankDevice 4194562) emptyEntry [] (fun _ => 0) 0
        (List.replicate (2 ^ 31) 0) := by
  have enough : bigInfo.clustersFor (2 ^ 31) ≤
      (bigInfo.freeClusters (viewOf bigInfo (blankDevice 4194562))).card := by
    rw [card_freeClusters_blank]
    decide
  generalize bytes_eq : List.replicate (2 ^ 31) (0 : BitVec 8) = bytes
  have length : bytes.length = 2 ^ 31 := by rw [← bytes_eq, length_replicate]
  have file : FileChain bigInfo (viewOf bigInfo (blankDevice 4194562)) emptyEntry [] :=
    emptyEntry_file (by decide)
  have size : max emptyEntry.fileSize (0 + bytes.length) = 2 ^ 31 := by
    rw [length]
    decide
  obtain ⟨⟨entry', pos', dev', run⟩, _⟩ := writeThenRead_of_asInt _ _ _ _ (fun _ => 0) 0 bytes
    bigInfo_geometry file (Nat.zero_le _) (by omega) (by omega)
    (by rw [size, length_nil, Nat.zero_add]; exact enough)
  have negative : asInt bytes.length = -2147483648 := by
    rw [length]
    decide
  rw [negative] at run
  refine ⟨bigInfo_geometry, file, enough, ⟨entry', pos', dev', run⟩, ?_⟩
  rintro ⟨_, _, _, returned, _⟩
  rw [run] at returned
  have same := congrArg WriteResult.ret (Option.some.inj returned)
  dsimp only at same
  omega

end EduOS
