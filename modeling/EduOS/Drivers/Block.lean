import EduOS.Library.ByteMemory
import EduOS.Library.Word

/-!
# Block devices

`kernel/drivers/block.c`.  A device is an array of sectors of 512 bytes, sector `k` at
`512 * k`.  The driver below does not fail; what `block_read_sectors` and
`block_write_sectors` refuse is a request beyond the end of the device.
-/

namespace EduOS

/-- `struct block_device`, with what is on it. -/
structure BlockDevice where
  totalSectors : ℕ
  bytes : Bytes

/-- `block_read_sectors`: the buffer afterwards.  The sum is a 32-bit one. -/
def blockReadSectors (dev : BlockDevice) (sector count : ℕ) (buf : Bytes) : Option Bytes :=
  if dev.totalSectors < u32 (sector + count) then none
  else some fun j => if j < 512 * count then dev.bytes (512 * sector + j) else buf j

/-- `block_write_sectors` -/
def blockWriteSectors (dev : BlockDevice) (sector count : ℕ) (buf : Bytes) : Option BlockDevice :=
  if dev.totalSectors < u32 (sector + count) then none
  else some
    { dev with
      bytes := fun a =>
        if 512 * sector ≤ a ∧ a < 512 * (sector + count) then buf (a - 512 * sector)
        else dev.bytes a }

section

variable (dev : BlockDevice) (sector count : ℕ) (buf : Bytes)

theorem blockReadSectors_of_le (fits : sector + count ≤ dev.totalSectors)
    (small : dev.totalSectors < 2 ^ 32) :
    blockReadSectors dev sector count buf =
      some fun j => if j < 512 * count then dev.bytes (512 * sector + j) else buf j := by
  rw [blockReadSectors, u32_of_lt (lt_of_le_of_lt fits small), if_neg (Nat.not_lt.mpr fits)]

theorem blockWriteSectors_of_le (fits : sector + count ≤ dev.totalSectors)
    (small : dev.totalSectors < 2 ^ 32) :
    ∃ dev', blockWriteSectors dev sector count buf = some dev' ∧
      dev'.totalSectors = dev.totalSectors ∧
      (∀ j, j < 512 * count → dev'.bytes (512 * sector + j) = buf j) ∧
      ∀ a, a < 512 * sector ∨ 512 * (sector + count) ≤ a → dev'.bytes a = dev.bytes a := by
  rw [blockWriteSectors, u32_of_lt (lt_of_le_of_lt fits small), if_neg (Nat.not_lt.mpr fits)]
  refine ⟨_, rfl, rfl, fun j below => ?_, fun a outside => if_neg (by omega)⟩
  dsimp only
  rw [if_pos (by omega), Nat.add_sub_cancel_left]

end

end EduOS
