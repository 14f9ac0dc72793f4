import EduOS.Include.Errno
import EduOS.Library.Run
import EduOS.Library.Word

/-!
# Waiting for files

`sys_poll` in `kernel/syscall/sys_select.c` and `is_user_buffer` in `kernel/mm/uaccess.c`.  One
32-bit product is the size of the user's array, of its copy in the kernel and of the transfers
between them; the scan goes over the entries that were asked for.
-/

namespace EduOS

/-- `is_user_buffer` -/
def isUserBuffer (addr size : ℕ) : Bool :=
  addr ≤ u32 (addr + size) && addr < 0xC0000000 && u32 (addr + size) ≤ 0xC0000000

/-- `struct pollfd`, of 8 bytes. -/
structure Pollfd where
  fd : ℤ
  events : BitVec 16
  revents : BitVec 16

/-- `sizeof(struct pollfd) * nfds` -/
def pollBytes (nfds : ℕ) : ℕ := u32 (8 * nfds)

/-- `sys_poll` up to the copy: the address of `kernel_fds`. -/
def sysPollChecks (fdTable : Bool) (kmalloc : ℕ → Option ℕ) (fds nfds : ℕ) : Except ℕ ℕ :=
  if fdTable = false then .error ebadf
  else if fds = 0 ∨ isUserBuffer fds (pollBytes nfds) = false then .error efault
  else
    match kmalloc (pollBytes nfds) with
    | none => .error enomem
    | some kernelFds => .ok kernelFds

/-- The events of an entry.  `mask fd` is what the file's `poll` returns, if the descriptor is
open: `POLLIN | POLLOUT` for a file without one. -/
def pollRevents (mask : ℤ → Option (BitVec 32)) (entry : Pollfd) : BitVec 16 :=
  if entry.fd < 0 then 0
  else
    match mask entry.fd with
    | none => 0x20
    | some mask => mask.setWidth 16 &&& (entry.events ||| 0x08 ||| 0x10)

/-- Entry `i` of `kernel_fds`, and how many entries are ready; `Sum.inr i` if there is no such
entry in the allocation. -/
def pollPass (mask : ℤ → Option (BitVec 32)) (i : ℕ) :
    List Pollfd × ℕ → (List Pollfd × ℕ) ⊕ ℕ
  | (kernelFds, readyCount) =>
    match kernelFds[i]? with
    | none => Sum.inr i
    | some entry =>
      let revents := pollRevents mask entry
      Sum.inl (kernelFds.set i { entry with revents },
        if revents = 0 then readyCount else readyCount + 1)

theorem scan_pollPass (mask : ℤ → Option (BitVec 32)) (i count : ℕ) (kernelFds : List Pollfd)
    (readyCount : ℕ) :
    (∃ r, scan (pollPass mask) i count (kernelFds, readyCount) = Sum.inl r) ↔
      count = 0 ∨ i + count ≤ kernelFds.length := by
  induction count generalizing i kernelFds readyCount with
  | zero => simp [scan]
  | succ count ih =>
    rw [scan_succ, pollPass]
    by_cases below : i < kernelFds.length
    · simp only [List.getElem?_eq_getElem below, ih, List.length_set]
      omega
    · rw [List.getElem?_eq_none (Nat.not_lt.mp below)]
      exact iff_of_false (by simp) (by omega)

/-- **What `sys_poll` scans** lies inside the copy of the array and inside the checked range
exactly if the product of the sizes does not wrap. -/
theorem sys_poll_inside_iff {fdTable : Bool} {kmalloc : ℕ → Option ℕ} {fds nfds address : ℕ}
    (passes : sysPollChecks fdTable kmalloc fds nfds = .ok address)
    (mask : ℤ → Option (BitVec 32)) {kernelFds : List Pollfd}
    (copied : kernelFds.length = pollBytes nfds / 8) :
    ((∃ r, scan (pollPass mask) 0 nfds (kernelFds, 0) = Sum.inl r) ∧
      ∀ i < nfds, 8 * i + 8 ≤ pollBytes nfds ∧
        fds + (8 * i + 8) ≤ u32 (fds + pollBytes nfds)) ↔ nfds < 2 ^ 29 := by
  have user : isUserBuffer fds (pollBytes nfds) = true := by
    by_contra outside
    grind [sysPollChecks]
  simp only [isUserBuffer, Bool.and_eq_true, decide_eq_true_eq] at user
  have whole : fds + pollBytes nfds = u32 (fds + pollBytes nfds) := by
    unfold pollBytes u32 at *
    omega
  rw [scan_pollPass, copied, ← whole]
  unfold pollBytes u32
  constructor
  · rintro ⟨all, _⟩
    omega
  · intro small
    exact ⟨by omega, fun i below => by omega⟩

/-- Three entries, of which one is skipped. -/
theorem sys_poll_inside_three :
    (∃ r, scan (pollPass fun _ => none) 0 3 ([⟨3, 1, 0⟩, ⟨-1, 1, 0⟩, ⟨4, 4, 0⟩], 0) = Sum.inl r) ∧
      ∀ i < 3, 8 * i + 8 ≤ pollBytes 3 ∧ 0x1000 + (8 * i + 8) ≤ u32 (0x1000 + pollBytes 3) := by
  have passes : sysPollChecks true some 0x1000 3 = .ok 24 := rfl
  exact (sys_poll_inside_iff passes _ rfl).mpr (by decide)

/-- An array of `0x20000001` entries is copied as one of 8 bytes. -/
theorem sys_poll_outside : sysPollChecks true some 0x1000 0x20000001 = .ok 8 ∧
    ¬∀ i < 0x20000001, 8 * i + 8 ≤ pollBytes 0x20000001 :=
  ⟨rfl, fun all => absurd (all 1 (by decide)) (by decide)⟩

end EduOS
