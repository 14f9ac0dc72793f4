import EduOS.Fs.Fat32
import EduOS.Lib.String

/-!
# Long file names

`kernel/fs/fat32_lfn.c`: a long name is kept in directory entries before the short one,
thirteen characters an entry and the last part of the name first.

`fat32_read_lfn` puts the parts together again, and gives the name when it comes to the
short entry.  But it leaves the loop at the entry of the first part already
(`expected_order == 0`), before it has seen the short entry, and then returns 0.  So no name
that `fat32_create_lfn` makes entries for is ever read back: `lfn_round_trip_iff`.
-/

namespace EduOS

open List

def lfnMaxLen : ℕ := 255

def lfnCharsPerEntry : ℕ := 13

def lfnLastEntry : BitVec 8 := 0x40

/-- `lfn_checksum` -/
def lfnChecksum (shortName : List (BitVec 8)) : BitVec 8 :=
  shortName.foldl (fun sum byte => ((sum &&& 1) <<< 7) + (sum >>> 1) + byte) 0

/-! ## Reading -/

/-- Where the characters of a long entry are: `name1`, `name2` and `name3`. -/
def lfnCharOffsets : List (Fin 32) := [1, 3, 5, 7, 9, 14, 16, 18, 20, 22, 24, 28, 30]

/-- The characters of a long entry. -/
def lfnChars (entry : DirEntry) : List (BitVec 16) :=
  lfnCharOffsets.map fun offset => entry (offset + 1) ++ entry offset

/-- `lfn_extract_chars`: the characters up to the end of the name. -/
def lfnExtractChars (entry : DirEntry) : List (BitVec 16) :=
  (lfnChars entry).takeWhile fun ch => ch ≠ 0 && ch ≠ 0xFFFF

/-- `unicode_to_ascii` -/
def unicodeToAscii (unicode : List (BitVec 16)) : List (BitVec 8) :=
  unicode.map fun ch => ch.setWidth 8

/-- The variables of the loop of `fat32_read_lfn`; `lfnBuf` has `lfn_pos` characters. -/
structure LfnState where
  lfnBuf : List (BitVec 16)
  lfnCount : ℕ
  expectedOrder : BitVec 8
  checksum : BitVec 8
  first : Bool

/-- The checks of a long entry. -/
def lfnCheck (entry : DirEntry) (s : LfnState) : Option LfnState :=
  if s.first then
    if entry 0 &&& lfnLastEntry = 0 then none
    else some { s with expectedOrder := entry 0 &&& 0x3F, checksum := entry 13, first := false }
  else if entry 0 ≠ s.expectedOrder then none
  else if entry 13 ≠ s.checksum then none
  else some s

/-- The loop of `fat32_read_lfn`: what it returns, and the name if it writes one.  More
characters than `lfn_buf` has room for are a fault. -/
def readLfnLoop : List DirEntry → LfnState → Option (ℕ × Option (List (BitVec 8)))
  | [], _ => some (0, none)
  | entry :: rest, s =>
    if entry.attr ≠ fatAttrLongName then
      if 0 < s.lfnCount ∧ lfnChecksum entry.name = s.checksum then
        some (s.lfnCount, some (unicodeToAscii s.lfnBuf))
      else some (0, none)
    else
      match lfnCheck entry s with
      | none => some (0, none)
      | some s =>
        let chars := lfnExtractChars entry
        if lfnMaxLen < chars.length + s.lfnBuf.length then none
        else if s.expectedOrder - 1 = 0 then some (0, none)
        else
          readLfnLoop rest
            { s with
              lfnBuf := chars ++ s.lfnBuf
              lfnCount := s.lfnCount + 1
              expectedOrder := s.expectedOrder - 1 }

/-- `fat32_read_lfn` -/
def fat32ReadLfn (entries : List DirEntry) : Option (ℕ × Option (List (BitVec 8))) :=
  readLfnLoop entries ⟨[], 0, 0, 0, true⟩

/-! ## Creating -/

/-- The test of `fat32_create_lfn` for a name that needs no long entries. -/
def fits83 (name : List (BitVec 8)) : Bool :=
  let base := name.takeWhile fun ch => ch ≠ 0x2E
  base.length ≤ 8 && name.length - (base.length + 1) ≤ 3 &&
    !name.any fun ch => islower ch || ch = 0x20

/-- The number of long entries of a name. -/
def lfnEntries (name : List (BitVec 8)) : ℕ :=
  (name.length + lfnCharsPerEntry - 1) / lfnCharsPerEntry

/-- A character that is put in an entry: one of the name, the end of the name, or filling. -/
def lfnCharAt (name : List (BitVec 8)) (idx : ℕ) : BitVec 16 :=
  if idx ≤ name.length then (name.getD idx 0).setWidth 16 else 0xFFFF

/-- The bytes of an entry with the characters `char 0` to `char 12`. -/
def lfnBytes (order checksum : BitVec 8) (char : ℕ → BitVec 16) : DirEntry
  | 0 => order
  | 11 => fatAttrLongName
  | 12 => 0
  | 13 => checksum
  | 26 => 0
  | 27 => 0
  | j =>
    -- `name1` from 1, `name2` from 14 and `name3` from 28
    let offset := if j.val < 11 then j.val - 1 else if j.val < 26 then j.val - 4 else j.val - 6
    if offset % 2 = 0 then (char (offset / 2)).setWidth 8
    else (char (offset / 2) >>> 8).setWidth 8

/-- The long entry with index `i`. -/
def lfnEntry (name : List (BitVec 8)) (checksum : BitVec 8) (i : ℕ) : DirEntry :=
  let order := BitVec.ofNat 8 (lfnEntries name - i)
  lfnBytes (if i = 0 then order ||| lfnLastEntry else order) checksum fun j =>
    lfnCharAt name ((lfnEntries name - i - 1) * lfnCharsPerEntry + j)

/-- The indices at which `fat32_create_lfn` uses `unicode_name`: those that
`ascii_to_unicode` writes, and those that are put in the entries. -/
def createLfnIndices (name : List (BitVec 8)) (maxEntries : ℤ) : List ℕ :=
  if fits83 name = true ∨ maxEntries < lfnEntries name + 1 then []
  else
    List.range (name.length + 1) ++ (List.range (lfnEntries name)).flatMap fun i =>
      ((List.range 13).map fun j => (lfnEntries name - i - 1) * lfnCharsPerEntry + j).filter
        (· ≤ name.length)

/-- `fat32_create_lfn`: the long entries that it makes.  `unicode_name` has `LFN_MAX_LEN + 1`
characters; a use past its end is a fault. -/
def fat32CreateLfn (name shortName : List (BitVec 8)) (maxEntries : ℤ) :
    Option (Except ℕ (List DirEntry)) :=
  if ∃ idx ∈ createLfnIndices name maxEntries, lfnMaxLen < idx then none
  else if fits83 name then some (.ok [])
  else if maxEntries < lfnEntries name + 1 then some (.error einval)
  else some (.ok ((List.range (lfnEntries name)).map (lfnEntry name (lfnChecksum shortName))))

/-! ## Reading created entries -/

section

variable {name : List (BitVec 8)} {entry : DirEntry} {rest : List DirEntry} {s checked : LfnState}

/-- One long entry that passes the checks: there is no name yet, and the reader goes on only if
this is not the first part. -/
theorem readLfnLoop_part (long : entry.attr = fatAttrLongName)
    (check : lfnCheck entry s = some checked)
    (goes_on : ∀ s' : LfnState, s'.first = checked.first →
      s'.expectedOrder = checked.expectedOrder - 1 → s'.expectedOrder ≠ 0 →
        (readLfnLoop rest s').bind Prod.snd = none) :
    (readLfnLoop (entry :: rest) s).bind Prod.snd = none := by
  rw [readLfnLoop, if_neg (not_not.mpr long), check]
  dsimp only
  split_ifs with full done
  · rfl
  · rfl
  · exact goes_on _ rfl rfl done

theorem ofNat_succ_sub_one (n : ℕ) : BitVec.ofNat 8 (n + 1) - 1 = BitVec.ofNat 8 n := by
  rw [BitVec.ofNat_add]
  exact BitVec.add_sub_cancel ..

/-- As many long entries as there are orders left are read up to the first part, where the
reader gives up. -/
theorem readLfnLoop_long (rest : List DirEntry) {front : List DirEntry}
    (long : ∀ entry ∈ front, entry.attr = fatAttrLongName) :
    ∀ s : LfnState, s.first = false → s.expectedOrder = BitVec.ofNat 8 front.length →
      s.expectedOrder ≠ 0 → (readLfnLoop (front ++ rest) s).bind Prod.snd = none := by
  induction front with
  | nil => exact fun s _ order nonzero => absurd order nonzero
  | cons entry front ih =>
    intro s later order _
    have long_entry := long entry mem_cons_self
    rw [cons_append]
    cases check : lfnCheck entry s with
    | none =>
      rw [readLfnLoop, if_neg (not_not.mpr long_entry), check]
      rfl
    | some checked =>
      have same : checked = s := by
        rw [lfnCheck, later] at check
        simp_all
      refine readLfnLoop_part long_entry check fun s' first' order' nonzero => ?_
      refine ih (forall_mem_of_forall_mem_cons long) s' (first'.trans (same ▸ later)) ?_ nonzero
      rw [order', same, order, length_cons, ofNat_succ_sub_one]

theorem ofNat_order {m : ℕ} (small : m < 21) :
    (BitVec.ofNat 8 m ||| lfnLastEntry) &&& lfnLastEntry ≠ 0 ∧
      (BitVec.ofNat 8 m ||| lfnLastEntry) &&& 0x3F = BitVec.ofNat 8 m := by
  interval_cases m <;> decide

/-- The created entries of a name are never read back. -/
theorem fat32ReadLfn_created (nonempty : name ≠ []) (short : name.length ≤ 255)
    (checksum : BitVec 8) (rest : List DirEntry) :
    (fat32ReadLfn ((List.range (lfnEntries name)).map (lfnEntry name checksum) ++ rest)).bind
      Prod.snd = none := by
  have length := length_pos_iff.mpr nonempty
  obtain ⟨m, number, few⟩ : ∃ m, lfnEntries name = m + 1 ∧ m < 20 := by
    refine ⟨lfnEntries name - 1, ?_⟩
    rw [lfnEntries, lfnCharsPerEntry]
    omega
  obtain ⟨last, order⟩ := ofNat_order (m := m + 1) (by omega)
  -- the first entry read is that of the last part
  have first : lfnEntry name checksum 0 0 = BitVec.ofNat 8 (m + 1) ||| lfnLastEntry := by
    rw [lfnEntry, number]
    rfl
  have check : lfnCheck (lfnEntry name checksum 0) ⟨[], 0, 0, 0, true⟩ =
      some ⟨[], 0, BitVec.ofNat 8 (m + 1), checksum, false⟩ := by
    rw [lfnCheck, if_pos rfl, first, if_neg last, order]
    rfl
  rw [fat32ReadLfn, number, range_succ_eq_map, map_cons, cons_append]
  refine readLfnLoop_part rfl check fun s' later order' => ?_
  refine readLfnLoop_long rest (fun entry mem => ?_) s' later ?_
  · obtain ⟨i, -, rfl⟩ := mem_map.mp mem
    rfl
  · rw [order', ofNat_succ_sub_one, length_map, length_map, length_range]

end

/-- `unicode_name` is used up to the end of the name. -/
theorem le_of_mem_createLfnIndices {name : List (BitVec 8)} {maxEntries : ℤ} {idx : ℕ}
    (used : idx ∈ createLfnIndices name maxEntries) : idx ≤ name.length := by
  unfold createLfnIndices at used
  split_ifs at used with none_made
  · cases used
  rcases mem_append.mp used with written | read
  · exact Nat.lt_succ_iff.mp (mem_range.mp written)
  · obtain ⟨i, -, member⟩ := mem_flatMap.mp read
    simpa using (mem_filter.mp member).2

/-- The name is read back from the entries created for it and the short one. -/
def LfnRoundTrip (name shortName : List (BitVec 8)) (maxEntries : ℤ) (entry : DirEntry) : Prop :=
  ∀ entries, fat32CreateLfn name shortName maxEntries = some (.ok entries) → 0 < entries.length →
    fat32ReadLfn (entries ++ [entry]) = some (entries.length, some name)

/-- **A long name is read back exactly if no entry was created for it.** -/
theorem lfn_round_trip_iff (name shortName : List (BitVec 8)) (maxEntries : ℤ) (entry : DirEntry)
    (nonempty : name ≠ []) (short : name.length ≤ 255) :
    LfnRoundTrip name shortName maxEntries entry ↔
      fits83 name = true ∨ maxEntries < lfnEntries name + 1 := by
  have inside : ¬∃ idx ∈ createLfnIndices name maxEntries, lfnMaxLen < idx := by
    rintro ⟨idx, used, past⟩
    exact absurd ((le_of_mem_createLfnIndices used).trans short) (not_le.mpr past)
  rw [LfnRoundTrip, fat32CreateLfn, if_neg inside]
  constructor
  · intro roundTrip
    by_contra needed
    rw [not_or] at needed
    rw [if_neg needed.1, if_neg needed.2] at roundTrip
    have some_entry : 0 < lfnEntries name := by
      have := length_pos_iff.mpr nonempty
      rw [lfnEntries, lfnCharsPerEntry]
      omega
    have read := roundTrip _ rfl (by simpa using some_entry)
    have unread := fat32ReadLfn_created nonempty short (lfnChecksum shortName) [entry]
    rw [read] at unread
    cases unread
  · rintro (fits | full) entries created some_entry
    · rw [if_pos fits] at created
      cases created
      exact absurd some_entry (by decide)
    rw [if_pos full] at created
    split at created
    · cases created
      exact absurd some_entry (by decide)
    · cases created

/-- The short name `A`. -/
def shortA : List (BitVec 8) :=
  [0x41, 0x20, 0x20, 0x20, 0x20, 0x20, 0x20, 0x20, 0x20, 0x20, 0x20]

/-- A short entry with that name. -/
def entryA : DirEntry
  | 0 => 0x41
  | 11 => 0x20
  | j => if j.val < 11 then 0x20 else 0

/-- The name `A` needs no long entries. -/
theorem lfn_round_trip_upper : LfnRoundTrip [0x41] shortA 20 entryA :=
  (lfn_round_trip_iff [0x41] shortA 20 entryA (by decide) (by decide)).mpr
    (Or.inl (by decide))

/-- The name `a` gets one long entry, and is not read back. -/
theorem lfn_round_trip_lower :
    entryA.name = shortA ∧ entryA.attr ≠ fatAttrLongName ∧
      ∃ entries, fat32CreateLfn [0x61] shortA 20 = some (.ok entries) ∧ entries.length = 1 ∧
        fat32ReadLfn (entries ++ [entryA]) = some (0, none) :=
  ⟨by decide, by decide, [lfnEntry [0x61] (lfnChecksum shortA) 0], rfl, rfl, by decide⟩

/-! ## The buffers -/

/-- The entries that the reader takes for the parts of a name before the last one. -/
def lfnFollowing (order checksum : BitVec 8) : List DirEntry → List DirEntry
  | [] => []
  | entry :: rest =>
    if order ≠ 0 ∧ entry.attr = fatAttrLongName ∧ entry 0 = order ∧ entry 13 = checksum then
      entry :: lfnFollowing (order - 1) checksum rest
    else []

/-- The entries that the reader takes for the parts of a name. -/
def lfnParts : List DirEntry → List DirEntry
  | [] => []
  | entry :: rest =>
    if entry.attr = fatAttrLongName ∧ entry 0 &&& lfnLastEntry ≠ 0 then
      entry :: lfnFollowing ((entry 0 &&& 0x3F) - 1) (entry 13) rest
    else []

/-- The number of characters in entries. -/
def lfnLength (entries : List DirEntry) : ℕ :=
  (entries.map fun entry => (lfnExtractChars entry).length).sum

/-- `lfn_buf` has room for what the reader still takes. -/
def ReadsWithin (rest : List DirEntry) : Prop :=
  ∀ s : LfnState, s.first = false → s.lfnBuf.length ≤ lfnMaxLen →
    ((s.expectedOrder ≠ 0 → (readLfnLoop rest s).isSome = true) ↔
      lfnLength (lfnFollowing s.expectedOrder s.checksum rest) + s.lfnBuf.length ≤ lfnMaxLen)

/-- One long entry that passes the checks. -/
theorem ReadsWithin.part {entry : DirEntry} {rest : List DirEntry} {s checked : LfnState}
    (within : ReadsWithin rest) (long : entry.attr = fatAttrLongName)
    (check : lfnCheck entry s = some checked) (later : checked.first = false) :
    (readLfnLoop (entry :: rest) s).isSome = true ↔
      lfnLength (entry :: lfnFollowing (checked.expectedOrder - 1) checked.checksum rest) +
        checked.lfnBuf.length ≤ lfnMaxLen := by
  rw [readLfnLoop, if_neg (not_not.mpr long), check, lfnLength, map_cons, sum_cons, ← lfnLength]
  dsimp only
  by_cases room : lfnMaxLen < (lfnExtractChars entry).length + checked.lfnBuf.length
  · rw [if_pos room]
    exact iff_of_false nofun (by omega)
  have more := within
    { checked with
      lfnBuf := lfnExtractChars entry ++ checked.lfnBuf
      lfnCount := checked.lfnCount + 1
      expectedOrder := checked.expectedOrder - 1 } later
    (by rw [length_append]; exact Nat.le_of_not_lt room)
  rw [length_append] at more
  rw [if_neg room, Nat.add_right_comm, Nat.add_comm _ (lfnLength _), ← more]
  split_ifs with done
  · exact iff_of_true rfl fun goes_on => absurd done goes_on
  · exact (imp_iff_right done).symm

theorem readsWithin (entries : List DirEntry) : ReadsWithin entries := by
  induction entries with
  | nil => exact fun s _ room => iff_of_true (fun _ => rfl) (by simpa [lfnFollowing, lfnLength])
  | cons entry rest ih =>
    intro s later room
    rw [lfnFollowing]
    split_ifs with part
    · obtain ⟨order, long, same_order, same_sum⟩ := part
      have check : lfnCheck entry s = some s := by simp [lfnCheck, later, same_order, same_sum]
      rw [← ih.part long check later]
      exact imp_iff_right order
    refine iff_of_true (fun order => ?_) (by simpa [lfnLength])
    rw [readLfnLoop]
    split_ifs with long
    · rfl
    · rfl
    · have refused : lfnCheck entry s = none := by
        simp only [lfnCheck, later, ne_eq, ite_not]
        simp_all
      rw [refused]
      rfl

/-- **The buffers for long names** are not left exactly if the parts that the reader takes
have at most 255 characters, and the name that entries are made for has as many. -/
theorem lfn_buffers_iff (entries : List DirEntry) (name : List (BitVec 8)) (maxEntries : ℤ) :
    ((fat32ReadLfn entries).isSome = true ∧
        ∀ idx ∈ createLfnIndices name maxEntries, idx < lfnMaxLen + 1) ↔
      lfnLength (lfnParts entries) ≤ lfnMaxLen ∧
        ((fits83 name = true ∨ maxEntries < lfnEntries name + 1) ∨ name.length ≤ lfnMaxLen) := by
  refine and_congr ?_ ?_
  · cases entries with
    | nil => exact iff_of_true rfl (Nat.zero_le _)
    | cons entry rest =>
      rw [fat32ReadLfn, lfnParts]
      split_ifs with part
      · have check : lfnCheck entry ⟨[], 0, 0, 0, true⟩ =
            some ⟨[], 0, entry 0 &&& 0x3F, entry 13, false⟩ := by
          rw [lfnCheck, if_pos rfl, if_neg part.2]
        exact (readsWithin rest).part part.1 check rfl
      · refine iff_of_true ?_ (Nat.zero_le _)
        rw [readLfnLoop]
        split_ifs with long
        · exact absurd ‹_ ∧ _› (by simp)
        · rfl
        · rw [lfnCheck, if_pos rfl, if_pos (by simp_all)]
          rfl
  · constructor
    · intro below
      rw [or_iff_not_imp_left]
      intro made
      have last := below name.length (by rw [createLfnIndices, if_neg made]; simp)
      omega
    · rintro (none_made | short) idx used
      · rw [createLfnIndices, if_pos none_made] at used
        cases used
      · exact Nat.lt_succ_of_le ((le_of_mem_createLfnIndices used).trans short)

/-- A name of 256 characters: both buffers are left. -/
theorem lfn_buffers_left :
    256 ∈ createLfnIndices (List.replicate 256 0x61) 21 ∧
      fat32ReadLfn ((List.range 20).map (lfnEntry (List.replicate 256 0x61) 0)) = none := by
  decide +kernel

end EduOS
