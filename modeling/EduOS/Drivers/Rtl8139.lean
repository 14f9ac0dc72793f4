import EduOS.Library.Run
import EduOS.Library.Word

/-!
# The receive ring of the network card

The receive loop of `rtl8139_interrupt_handler` in `kernel/drivers/rtl8139.c`.  The status word
at the cursor is written by the card.  The cursor goes behind the frame and is never taken back
to the start of the buffer.
-/

namespace EduOS

def rtl8139RxBufSize : ℕ := 8192 + 16 + 1500

/-- A frame: its status word, and if `alloc_skb` has a buffer for it. -/
structure RxFrame where
  rxStatus : BitVec 32
  allocated : Bool

/-- `rx_size` -/
def RxFrame.size (frame : RxFrame) : ℕ := (frame.rxStatus >>> 16).toNat

/-- A good frame is copied without its checksum, which is `rx_size - 4` bytes.  With less than
four bytes in it that wraps around. -/
def RxFrame.Copied (frame : RxFrame) : Prop :=
  frame.rxStatus &&& 1 ≠ 0 → frame.allocated = true → 4 ≤ frame.size

instance RxFrame.decidableCopied (frame : RxFrame) : Decidable frame.Copied :=
  inferInstanceAs (Decidable (_ → _))

/-- One pass of the loop: `cur_rx` after the frame.  A copy of nearly 4 GiB is a fault. -/
def rxPass (curRx : ℕ) (frame : RxFrame) : Option ℕ :=
  if frame.Copied then some (u32 (curRx + frame.size + 4 + 3) &&& sub32 (2 ^ 32 - 1) 3) else none

/-- A frame, with its header and padding. -/
def RxFrame.room (frame : RxFrame) : ℕ := (frame.size + 7) / 4 * 4

/-- The next status word is read inside the buffer. -/
def RxInside (curRx : ℕ) : Prop := curRx % 4 = 0 ∧ curRx < rtl8139RxBufSize

instance (curRx : ℕ) : Decidable (RxInside curRx) := inferInstanceAs (Decidable (_ ∧ _))

theorem rxPass_eq {curRx : ℕ} (inside : RxInside curRx) {frame : RxFrame} (copied : frame.Copied) :
    rxPass curRx frame = some (curRx + frame.room) := by
  obtain ⟨aligned, below⟩ := inside
  have size : frame.size < 2 ^ 16 := by
    rw [RxFrame.size, BitVec.toNat_ushiftRight, Nat.shiftRight_eq_div_pow]
    omega
  have pass : alignUp (curRx + frame.size + 4) (2 ^ 2) = _ :=
    alignUp_of_le (by omega) (by unfold rtl8139RxBufSize at below; omega)
  rw [rxPass, if_pos copied]
  refine congrArg some (pass.trans ?_)
  unfold RxFrame.room
  omega

theorem throughout_rxInside {frames : List RxFrame} {curRx : ℕ} (inside : RxInside curRx) :
    Throughout rxPass RxInside curRx frames ↔ (∀ frame ∈ frames, frame.Copied) ∧
      curRx + (frames.map RxFrame.room).sum < rtl8139RxBufSize := by
  induction frames generalizing curRx with
  | nil => exact ⟨fun _ => ⟨nofun, inside.2⟩, fun _ => inside⟩
  | cons frame rest ih =>
    rw [Throughout, List.map_cons, List.sum_cons, ← Nat.add_assoc, List.forall_mem_cons]
    by_cases copied : frame.Copied
    · rw [rxPass_eq inside copied]
      by_cases fits : curRx + frame.room < rtl8139RxBufSize
      · have next : RxInside (curRx + frame.room) :=
          ⟨by unfold RxInside RxFrame.room at *; omega, fits⟩
        simpa [inside, copied] using ih next
      · refine iff_of_false ?_ (by omega)
        rintro ⟨_, _, ⟨⟩, later⟩
        cases rest with
        | nil => exact fits later.2
        | cons _ _ => exact fits later.1.2
    · simp [rxPass, copied]

/-- **The receive cursor** stays aligned and inside the buffer exactly as long as every good frame
has four bytes, and all the frames since the start fit into the buffer together. -/
theorem rx_cursor_inside_iff (frames : List RxFrame) :
    Throughout rxPass RxInside 0 frames ↔
      (∀ frame ∈ frames, frame.Copied) ∧ (frames.map RxFrame.room).sum < rtl8139RxBufSize := by
  rw [throughout_rxInside (by decide), Nat.zero_add]

/-- Seven frames of full size. -/
theorem rx_cursor_outside : ¬Throughout rxPass RxInside 0
    (List.replicate 7 ⟨BitVec.ofNat 32 (1518 * 2 ^ 16 + 1), true⟩) := by
  decide

end EduOS
