import Mathlib

/-!
# Two-level paging

Physical memory as frames of 1024 words, and the walk that a 32-bit x86 processor
makes through it: a virtual address is a directory index, a table index and an
offset; the entries it meets name the next frame and grant rights, and a page is
writable, or open to user mode, if both entries say so.

`walk_congr` says what a translation depends on: its directory entry and its table
entry.  `walk_window` is about a directory whose last entry names the directory
itself: the top 4 MiB of the address space then show all of its tables, and the last
page the directory.  `load`, `store` and `fillPage` are accesses of the kernel
through the walk; they fail where nothing is mapped, and ignore the write bit.
-/

namespace EduOS

open Function

/-- Physical memory: the words of every frame. -/
abbrev Memory := ℕ → ℕ → BitVec 32

namespace Memory

variable {m : Memory} {frame index frame' index' : ℕ} {word : BitVec 32}

def write (m : Memory) (frame index : ℕ) (word : BitVec 32) : Memory :=
  update m frame (update (m frame) index word)

def writePage (m : Memory) (frame : ℕ) (page : ℕ → BitVec 32) : Memory :=
  update m frame page

@[simp] theorem write_self : m.write frame index word frame index = word := by
  simp [write]

theorem write_of_frame_ne (other : frame' ≠ frame) :
    m.write frame index word frame' = m frame' := by
  simp [write, other]

theorem write_of_index_ne (other : index' ≠ index) :
    m.write frame index word frame' index' = m frame' index' := by
  by_cases same : frame' = frame
  · simp [write, same, other]
  · simp [write, same]

theorem write_of_ne (other : ¬(frame' = frame ∧ index' = index)) :
    m.write frame index word frame' index' = m frame' index' := by
  by_cases same : frame' = frame
  · exact write_of_index_ne fun same_index => other ⟨same, same_index⟩
  · rw [write_of_frame_ne same]

theorem write_eq_self (same : m frame index = word) : m.write frame index word = m := by
  rw [write, ← same, update_eq_self, update_eq_self]

@[simp] theorem writePage_self {page : ℕ → BitVec 32} : m.writePage frame page frame = page := by
  simp [writePage]

theorem writePage_of_ne {page : ℕ → BitVec 32} (other : frame' ≠ frame) :
    m.writePage frame page frame' = m frame' := by
  simp [writePage, other]

end Memory

/-! ## Bytes -/

/-- Byte `k` of a word, the lowest one first. -/
def wordByte (word : BitVec 32) (k : ℕ) : BitVec 8 := word.extractLsb' (8 * k) 8

/-- The word with the given bytes. -/
def wordOfBytes (bytes : ℕ → BitVec 8) : BitVec 32 :=
  bytes 3 ++ bytes 2 ++ bytes 1 ++ bytes 0

theorem wordByte_wordOfBytes (bytes : ℕ → BitVec 8) {k : ℕ} (small : k < 4) :
    wordByte (wordOfBytes bytes) k = bytes k := by
  unfold wordByte wordOfBytes
  refine BitVec.eq_of_getLsbD_eq fun i i_lt => ?_
  have cases : k = 0 ∨ k = 1 ∨ k = 2 ∨ k = 3 := by omega
  rcases cases with rfl | rfl | rfl | rfl
  all_goals
    simp only [BitVec.getLsbD_extractLsb', BitVec.getLsbD_append, i_lt, decide_true, Bool.true_and]
    split_ifs <;> first | omega | exact congrArg _ (by omega)

namespace Memory

/-- The byte at an offset in a frame. -/
def byte (m : Memory) (frame offset : ℕ) : BitVec 8 := wordByte (m frame (offset / 4)) (offset % 4)

/-- The page with the given bytes. -/
def pageOfBytes (bytes : ℕ → BitVec 8) : ℕ → BitVec 32 := fun i =>
  wordOfBytes fun k => bytes (4 * i + k)

def writeByte (m : Memory) (frame offset : ℕ) (value : BitVec 8) : Memory :=
  m.write frame (offset / 4)
    (wordOfBytes (update (wordByte (m frame (offset / 4))) (offset % 4) value))

theorem byte_pageOfBytes (m : Memory) (frame offset : ℕ) (bytes : ℕ → BitVec 8) :
    (m.writePage frame (pageOfBytes bytes)).byte frame offset = bytes offset := by
  rw [byte, writePage_self, pageOfBytes, wordByte_wordOfBytes _ (Nat.mod_lt _ (by omega)),
    Nat.div_add_mod]

end Memory

/-! ## Entries -/

def entryPresent (entry : BitVec 32) : Bool := entry.getLsbD 0

def entryWritable (entry : BitVec 32) : Bool := entry.getLsbD 1

def entryUser (entry : BitVec 32) : Bool := entry.getLsbD 2

/-- The frame that an entry names. -/
def entryFrame (entry : BitVec 32) : ℕ := entry.toNat / 4096

/-- The entry for a frame, with the low bits of `flags`. -/
def makeEntry (address : ℕ) (flags : BitVec 32) : BitVec 32 :=
  (BitVec.ofNat 32 address &&& 0xFFFFF000#32) ||| (flags &&& 0xFFF#32)

theorem getLsbD_pageMask {i : ℕ} (small : i < 32) :
    (0xFFFFF000#32).getLsbD i = decide (12 ≤ i) := by
  have bits : ∀ i : Fin 32, (0xFFFFF000#32).getLsbD i = decide (12 ≤ i.val) := by decide
  exact bits ⟨i, small⟩

theorem getLsbD_flagMask {i : ℕ} (small : i < 32) : (0xFFF#32).getLsbD i = decide (i < 12) := by
  have bits : ∀ i : Fin 32, (0xFFF#32).getLsbD i = decide (i.val < 12) := by decide
  exact bits ⟨i, small⟩

/-- The low bits of an entry are its flags. -/
theorem makeEntry_flag {address i : ℕ} {flags : BitVec 32} (low : i < 12) :
    (makeEntry address flags).getLsbD i = flags.getLsbD i := by
  have small : i < 32 := by omega
  have not_high : ¬12 ≤ i := Nat.not_le.mpr low
  simp [makeEntry, getLsbD_pageMask small, getLsbD_flagMask small, not_high, low]

/-- The high bits name the frame. -/
theorem entryFrame_makeEntry (address : ℕ) (flags : BitVec 32) :
    entryFrame (makeEntry address flags) = address % 2 ^ 32 / 4096 := by
  have shifted : makeEntry address flags >>> 12 = BitVec.ofNat 32 address >>> 12 := by
    refine BitVec.eq_of_getLsbD_eq fun i _ => ?_
    by_cases small : 12 + i < 32
    · have high : 12 ≤ 12 + i := Nat.le_add_right 12 i
      have not_low : ¬12 + i < 12 := Nat.not_lt.mpr high
      simp [makeEntry, getLsbD_pageMask small, getLsbD_flagMask small, not_low, high]
    · have beyond : 32 ≤ 12 + i := Nat.le_of_not_lt small
      simp [BitVec.getLsbD_of_ge _ _ beyond]
  have values := congrArg BitVec.toNat shifted
  simpa [entryFrame, Nat.shiftRight_eq_div_pow] using values

/-! ## The walk -/

/-- What a virtual page is mapped to, and with which rights. -/
structure Mapping where
  frame : ℕ
  writable : Bool
  user : Bool
  deriving DecidableEq

def dirIndex (virt : ℕ) : ℕ := virt / 0x400000

def tableIndex (virt : ℕ) : ℕ := virt / 4096 % 1024

/-- The mapping by a pair of entries. -/
def mapping (pde pte : BitVec 32) : Option Mapping :=
  if entryPresent pde && entryPresent pte then
    some ⟨entryFrame pte, entryWritable pde && entryWritable pte, entryUser pde && entryUser pte⟩
  else none

/-- The translation of `virt` in the directory in frame `dir`. -/
def walk (m : Memory) (dir virt : ℕ) : Option Mapping :=
  mapping (m dir (dirIndex virt)) (m (entryFrame (m dir (dirIndex virt))) (tableIndex virt))

theorem mapping_eq_none_of_pde {pde pte : BitVec 32} (absent : entryPresent pde = false) :
    mapping pde pte = none := by
  simp [mapping, absent]

theorem mapping_eq_none_of_pte {pde pte : BitVec 32} (absent : entryPresent pte = false) :
    mapping pde pte = none := by
  simp [mapping, absent]

variable {m : Memory} {virt : ℕ}

theorem walk_of_absent {dir : ℕ}
    (absent : entryPresent (m dir (dirIndex virt)) = false) : walk m dir virt = none :=
  mapping_eq_none_of_pde absent

variable {rights : Mapping}

theorem walk_eq_some {dir : ℕ} (walked : walk m dir virt = some rights) :
    entryPresent (m dir (dirIndex virt)) = true ∧
      entryPresent (m (entryFrame (m dir (dirIndex virt))) (tableIndex virt)) = true ∧
      rights =
        ⟨entryFrame (m (entryFrame (m dir (dirIndex virt))) (tableIndex virt)),
          entryWritable (m dir (dirIndex virt)) &&
            entryWritable (m (entryFrame (m dir (dirIndex virt))) (tableIndex virt)),
          entryUser (m dir (dirIndex virt)) &&
            entryUser (m (entryFrame (m dir (dirIndex virt))) (tableIndex virt))⟩ := by
  unfold walk mapping at walked
  split_ifs at walked with both
  · obtain ⟨pde, pte⟩ := Bool.and_eq_true_iff.mp both
    exact ⟨pde, pte, (Option.some.inj walked).symm⟩

theorem frame_of_walk {dir : ℕ}
    (walked : walk m dir virt = some rights) : rights.frame < 2 ^ 20 := by
  obtain ⟨-, -, rfl⟩ := walk_eq_some walked
  exact Nat.div_lt_of_lt_mul (BitVec.isLt _)

/-- A translation depends on two entries. -/
theorem walk_congr {m' : Memory} {dir : ℕ} (pde : m' dir (dirIndex virt) = m dir (dirIndex virt))
    (pte : entryPresent (m dir (dirIndex virt)) = true →
      m' (entryFrame (m dir (dirIndex virt))) (tableIndex virt) =
        m (entryFrame (m dir (dirIndex virt))) (tableIndex virt)) :
    walk m' dir virt = walk m dir virt := by
  unfold walk
  rw [pde]
  cases present : entryPresent (m dir (dirIndex virt)) with
  | false => rw [mapping_eq_none_of_pde present, mapping_eq_none_of_pde present]
  | true => rw [pte present]

/-! ## The window onto the tables -/

/-- The last entry of the directory names the directory itself. -/
structure SelfMapped (m : Memory) (dir : ℕ) : Prop where
  present : entryPresent (m dir 1023) = true
  frame : entryFrame (m dir 1023) = dir

theorem SelfMapped.of_last {m' : Memory} {dir : ℕ} (self : SelfMapped m dir)
    (same : m' dir 1023 = m dir 1023) : SelfMapped m' dir :=
  ⟨same ▸ self.present, same ▸ self.frame⟩

/-- Page `i` of the top 4 MiB shows the frame that directory entry `i` names. -/
theorem walk_window {dir i : ℕ} (self : SelfMapped m dir) (i_lt : i < 1024)
    (offset : ℕ) (offset_lt : offset < 4096) (present : entryPresent (m dir i) = true) :
    ∃ rights, walk m dir (0xFFC00000 + 4096 * i + offset) = some rights ∧
      rights.frame = entryFrame (m dir i) := by
  have at_dir : dirIndex (0xFFC00000 + 4096 * i + offset) = 1023 := by
    unfold dirIndex
    omega
  have at_table : tableIndex (0xFFC00000 + 4096 * i + offset) = i := by
    unfold tableIndex
    omega
  simp [walk, mapping, at_dir, at_table, self.frame, self.present, present]

namespace Memory

/-- A read of the word at `virt`. -/
def load (m : Memory) (dir virt : ℕ) : Option (BitVec 32) :=
  (walk m dir virt).map fun t => m t.frame (virt % 4096 / 4)

/-- A write of the word at `virt`. -/
def store (m : Memory) (dir virt : ℕ) (word : BitVec 32) : Option Memory :=
  (walk m dir virt).map fun t => m.write t.frame (virt % 4096 / 4) word

/-- A write of the whole page at `virt`. -/
def fillPage (m : Memory) (dir virt : ℕ) (page : ℕ → BitVec 32) : Option Memory :=
  (walk m dir virt).map fun t => m.writePage t.frame page

variable {m : Memory} {dir i j : ℕ}

theorem store_of_walk (walked : walk m dir virt = some rights) (word : BitVec 32) :
    m.store dir virt word = some (m.write rights.frame (virt % 4096 / 4) word) := by
  simp [store, walked]

theorem fillPage_of_walk (walked : walk m dir virt = some rights) (page : ℕ → BitVec 32) :
    m.fillPage dir virt page = some (m.writePage rights.frame page) := by
  simp [fillPage, walked]

section

variable (self : SelfMapped m dir)
include self

theorem load_window (i_lt : i < 1024) (j_lt : j < 1024) (present : entryPresent (m dir i) = true) :
    m.load dir (0xFFC00000 + 4096 * i + 4 * j) = some (m (entryFrame (m dir i)) j) := by
  obtain ⟨rights, walked, frame⟩ :=
    walk_window self i_lt (4 * j) (by omega) present
  have offset : (0xFFC00000 + 4096 * i + 4 * j) % 4096 / 4 = j := by omega
  simp [load, walked, frame, offset]

theorem store_window (i_lt : i < 1024) (j_lt : j < 1024)
    (present : entryPresent (m dir i) = true) (word : BitVec 32) :
    m.store dir (0xFFC00000 + 4096 * i + 4 * j) word =
      some (m.write (entryFrame (m dir i)) j word) := by
  obtain ⟨rights, walked, frame⟩ :=
    walk_window self i_lt (4 * j) (by omega) present
  have offset : (0xFFC00000 + 4096 * i + 4 * j) % 4096 / 4 = j := by omega
  rw [store_of_walk walked, frame, offset]

theorem fillPage_window (i_lt : i < 1024)
    (present : entryPresent (m dir i) = true) (page : ℕ → BitVec 32) :
    m.fillPage dir (0xFFC00000 + 4096 * i) page =
      some (m.writePage (entryFrame (m dir i)) page) := by
  obtain ⟨rights, walked, frame⟩ := walk_window self i_lt 0 (by omega) present
  rw [Nat.add_zero] at walked
  rw [fillPage_of_walk walked, frame]

/-- The last page of the window is the directory. -/
theorem load_self (j_lt : j < 1024) : m.load dir (0xFFFFF000 + 4 * j) = some (m dir j) := by
  have window := load_window (i := 1023) self (by omega) j_lt self.present
  rw [self.frame] at window
  exact window

theorem store_self (j_lt : j < 1024) (word : BitVec 32) :
    m.store dir (0xFFFFF000 + 4 * j) word = some (m.write dir j word) := by
  have window := store_window (i := 1023) self (by omega) j_lt self.present word
  rw [self.frame] at window
  exact window

end

end Memory

end EduOS
