import EduOS.Include.Errno
import EduOS.Process.Scheduler

/-!
# Signals

`kernel/process/signal.c`: the signals of one process.

`handle_signals` serves the pending signals in order.  It takes them from a copy of the
pending set that it makes at the start, and it stops after a default action that leaves the
process terminated.

* The calls refuse to block `SIGKILL` or to change its handler, and no signal before it in
  the order can make the loop miss it (`sigkill_unevadable`).  But they store the old action
  and the old mask where the process says, which may be its own entry in the table of handlers
  (`sigkill_evaded`).
* A terminated process can come back (`termination_final_iff`): the default action of a stop
  signal does not look at the state.
-/

namespace EduOS

open Function

def sigkill : ℕ := 9

def sigstop : ℕ := 19

def sigDfl : BitVec 32 := 0

def sigIgn : BitVec 32 := 1

def sigErr : BitVec 32 := -1

def saRestart : BitVec 32 := 0x10000000

/-- `enum sig_default_action` -/
inductive SigAction where
  | term
  | ign
  | core
  | stop
  | cont
deriving DecidableEq, Repr

/-- `default_actions` -/
def defaultActions : ℕ → SigAction
  | 0 | 17 | 23 | 28 => .ign
  | 3 | 4 | 5 | 6 | 7 | 8 | 11 | 24 | 25 | 31 => .core
  | 18 => .cont
  | 19 | 20 | 21 | 22 => .stop
  | _ => .term

/-- The part of `struct process` that signals are about, and where it is. -/
structure SignalProc where
  addr : ℕ
  state : ProcessState
  pending : BitVec 32
  blocked : BitVec 32
  handlers : ℕ → BitVec 32
  flags : ℕ → BitVec 32
  exitCode : ℕ
  errno : ℕ

/-- The bit of a signal. -/
def sigBit (sig : ℕ) : BitVec 32 := 1#32 <<< (sig - 1)

/-- `init_process_signals` -/
def initProcessSignals (p : SignalProc) : SignalProc :=
  { p with
    pending := 0
    blocked := 0
    handlers := fun i => if i < 32 then sigDfl else p.handlers i
    flags := fun i => if i < 32 then 0 else p.flags i }

/-! ## Delivery -/

/-- `send_signal_to_process`; says if the signal was accepted. -/
def SignalProc.sendSignalToProcess (p : SignalProc) (sig : ℤ) : Bool × SignalProc :=
  if sig < 1 ∨ nsig ≤ sig then (false, p)
  else
    let p := { p with pending := p.pending ||| sigBit sig.toNat }
    if p.state = .blocked ∧ p.blocked &&& sigBit sig.toNat = 0 then
      (true, { p with state := .ready })
    else (true, p)

/-- `do_signal_action` -/
def doSignalAction (sig : ℕ) (p : SignalProc) : SignalProc :=
  match defaultActions sig with
  | .term | .core => { p with state := .terminated, exitCode := sig }
  | .stop => { p with state := .blocked }
  | .cont => if p.state = .blocked then { p with state := .ready } else p
  | .ign => p

/-- One signal of the loop of `handle_signals`, which is left if the second component is
true. -/
def serveSignal (sig : ℕ) (p : SignalProc) : SignalProc × Bool :=
  let p := { p with pending := p.pending &&& ~~~sigBit sig }
  if p.handlers (sig - 1) = sigIgn then (p, false)
  else if p.handlers (sig - 1) = sigDfl then
    let p := doSignalAction sig p
    (p, p.state = .terminated)
  else
    -- the handler of the user is not called
    (if sig = sigkill ∨ sig = sigstop then doSignalAction sig p else p, false)

/-- The loop of `handle_signals`, over the signals that were pending at the start. -/
def handleLoop (pending : BitVec 32) : List ℕ → SignalProc → SignalProc × Bool
  | [], p => (p, false)
  | sig :: rest, p =>
    if pending &&& sigBit sig = 0 then handleLoop pending rest p
    else
      let served := serveSignal sig p
      if served.2 then served else handleLoop pending rest served.1

/-- `handle_signals` -/
def handleSignals (p : SignalProc) : SignalProc :=
  let pending := p.pending &&& ~~~p.blocked
  if pending = 0 then p else (handleLoop pending (List.range' 1 (nsig.toNat - 1)) p).1

/-! ## System calls -/

/-- `set_errno` of the calling process. -/
def SignalProc.setErrno (p : SignalProc) (errno : ℕ) : SignalProc := { p with errno := errno }

/-- `struct sigaction`, as far as it is used. -/
structure Sigaction where
  handler : BitVec 32
  flags : BitVec 32

/-- `sizeof(struct process)` -/
def processSize : ℕ := 520

/-- A word at `a` is not in the process at `addr`. -/
def WordApart (addr a : ℕ) : Prop := a + 4 ≤ addr ∨ addr + processSize ≤ a

instance (addr a : ℕ) : Decidable (WordApart addr a) := inferInstanceAs (Decidable (_ ∨ _))

/-- The kernel stores a word at `a`.  From offset 124 on, the process has the words
`pending_signals`, `blocked_signals`, `signal_handlers` and `signal_flags`; what becomes of it when
another field is hit, or one of these not as a whole, is not followed. -/
def SignalProc.store (a : ℕ) (word : BitVec 32) (p : SignalProc) : Option SignalProc :=
  if WordApart p.addr a then some p
  else if a < p.addr + 124 ∨ p.addr + 388 ≤ a ∨ (a - p.addr) % 4 ≠ 0 then none
  else
    let k := (a - (p.addr + 124)) / 4
    some (if k = 0 then { p with pending := word }
      else if k = 1 then { p with blocked := word }
      else if k < 34 then { p with handlers := update p.handlers (k - 2) word }
      else { p with flags := update p.flags (k - 34) word })

/-- Two words are stored through a pointer of the process, unless it is `NULL`, the second one at
`offset`. -/
def SignalProc.storeOld (a offset : ℕ) (first : BitVec 32) (second : SignalProc → BitVec 32)
    (p : SignalProc) : Option SignalProc :=
  if a = 0 then some p
  else (p.store a first).bind fun p => p.store (u32 (a + offset)) (second p)

/-- The two words are not in the process at `addr`. -/
def PointerApart (addr a offset : ℕ) : Prop :=
  a = 0 ∨ WordApart addr a ∧ WordApart addr (u32 (a + offset))

/-- `sys_sigaction`: if it succeeds.  The old action goes to `oldact`, with `sa_flags` at offset
12. -/
def sysSigaction (signum : ℤ) (act : Option Sigaction) (oldact : ℕ) (p : SignalProc) :
    Option (Bool × SignalProc) :=
  if signum < 1 ∨ nsig ≤ signum ∨ signum = sigkill ∨ signum = sigstop then
    some (false, p.setErrno einval)
  else do
    let i := signum.toNat - 1
    let p ← p.storeOld oldact 12 (p.handlers i) fun p => p.flags i
    match act with
    | none => some (true, p)
    | some act =>
      some (true,
        { p with
          handlers := update p.handlers i act.handler
          flags := update p.flags i act.flags })

/-- `sys_signal`: the old handler, which `sys_sigaction` stores in a local variable. -/
def sysSignal (signum : ℤ) (handler : BitVec 32) (p : SignalProc) :
    Option (BitVec 32 × SignalProc) :=
  (sysSigaction signum (some ⟨handler, saRestart⟩) 0 p).map fun (done, p') =>
    (if done then p.handlers (signum.toNat - 1) else sigErr, p')

/-- The bits that a mask may have: not those of `SIGKILL` and `SIGSTOP`. -/
def maskable (mask : BitVec 32) : BitVec 32 := mask &&& ~~~(sigBit sigkill ||| sigBit sigstop)

/-- `sys_sigprocmask`: if it succeeds.  The old mask goes to `oldset`, as two words. -/
def sysSigprocmask (how : ℤ) (set : Option (BitVec 32)) (oldset : ℕ) (p : SignalProc) :
    Option (Bool × SignalProc) := do
  let p ← p.storeOld oldset 4 p.blocked fun _ => 0
  match set with
  | none => some (true, p)
  | some mask =>
    if how = 0 then some (true, { p with blocked := p.blocked ||| maskable mask })
    else if how = 1 then some (true, { p with blocked := p.blocked &&& ~~~maskable mask })
    else if how = 2 then some (true, { p with blocked := maskable mask })
    else some (false, p.setErrno einval)

/-- What is done to a process from outside. -/
inductive DeliveryCall where
  | send (sig : ℤ)
  | handle

/-- A signal is sent, or the pending ones are handled. -/
def deliveryStep (p : SignalProc) : DeliveryCall → SignalProc
  | .send sig => (p.sendSignalToProcess sig).2
  | .handle => handleSignals p

/-- That, and the calls of the process itself; `act` and `set` are what is read through the
pointers. -/
inductive SignalCall where
  | sigaction (signum : ℤ) (act : Option Sigaction) (oldact : ℕ)
  | signal (signum : ℤ) (handler : BitVec 32)
  | sigprocmask (how : ℤ) (set : Option (BitVec 32)) (oldset : ℕ)
  | deliver (call : DeliveryCall)

/-- One call; there is no result if a store faults. -/
def signalStep (p : SignalProc) : SignalCall → Option SignalProc
  | .sigaction signum act oldact => (sysSigaction signum act oldact p).map Prod.snd
  | .signal signum handler => (sysSignal signum handler p).map Prod.snd
  | .sigprocmask how set oldset => (sysSigprocmask how set oldset p).map Prod.snd
  | .deliver call => some (deliveryStep p call)

/-- What the call stores, it does not store in the process at `addr`. -/
def SignalCall.StoresApart (addr : ℕ) : SignalCall → Prop
  | .sigaction _ _ oldact => PointerApart addr oldact 12
  | .sigprocmask _ _ oldset => PointerApart addr oldset 4
  | _ => True

/-! ## What delivery leaves alone -/

section

variable (sig : ℕ) (p : SignalProc)

theorem doSignalAction_setup :
    (doSignalAction sig p).handlers = p.handlers ∧ (doSignalAction sig p).blocked = p.blocked ∧
      (doSignalAction sig p).addr = p.addr := by
  unfold doSignalAction
  split <;> try exact ⟨rfl, rfl, rfl⟩
  split <;> exact ⟨rfl, rfl, rfl⟩

theorem serveSignal_setup :
    (serveSignal sig p).1.handlers = p.handlers ∧ (serveSignal sig p).1.blocked = p.blocked ∧
      (serveSignal sig p).1.addr = p.addr := by
  unfold serveSignal
  dsimp only
  split
  · exact ⟨rfl, rfl, rfl⟩
  split
  · exact doSignalAction_setup ..
  · split
    · exact doSignalAction_setup ..
    · exact ⟨rfl, rfl, rfl⟩

@[simp] theorem serveSignal_handlers : (serveSignal sig p).1.handlers = p.handlers :=
  (serveSignal_setup sig p).1

end

/-- What no signal that is served changes, the loop does not change. -/
theorem handleLoop_keeps {α : Type} (f : SignalProc → α)
    (keeps : ∀ sig p, f (serveSignal sig p).1 = f p) (pending : BitVec 32) (sigs : List ℕ)
    (p : SignalProc) : f (handleLoop pending sigs p).1 = f p := by
  induction sigs generalizing p with
  | nil => rfl
  | cons sig rest ih =>
    rw [handleLoop]
    split
    · exact ih p
    · dsimp only
      split
      · exact keeps sig p
      · rw [ih, keeps]

theorem handleSignals_keeps {α : Type} (f : SignalProc → α)
    (keeps : ∀ sig p, f (serveSignal sig p).1 = f p) (p : SignalProc) :
    f (handleSignals p) = f p := by
  unfold handleSignals
  dsimp only
  split
  · rfl
  · exact handleLoop_keeps f keeps ..

/-! ## What it does -/

/-- The state that an action leaves. -/
def SigAction.after : SigAction → ProcessState → ProcessState
  | .term, _ | .core, _ => .terminated
  | .stop, _ => .blocked
  | .cont, state => if state = .blocked then .ready else state
  | .ign, state => state

theorem doSignalAction_state (sig : ℕ) (p : SignalProc) :
    (doSignalAction sig p).state = (defaultActions sig).after p.state := by
  unfold doSignalAction
  cases defaultActions sig with
  | cont =>
    dsimp only [SigAction.after]
    split <;> rfl
  | _ => rfl

/-- The default action is carried out: the signal is not ignored, and a handler of the user does
not come in its place. -/
def SignalProc.Acts (p : SignalProc) (sig : ℕ) : Prop :=
  p.handlers (sig - 1) ≠ sigIgn ∧ (p.handlers (sig - 1) = sigDfl ∨ sig = sigkill ∨ sig = sigstop)

instance (p : SignalProc) (sig : ℕ) : Decidable (p.Acts sig) := inferInstanceAs (Decidable (_ ∧ _))

theorem sigDfl_ne_sigIgn : sigDfl ≠ sigIgn := by decide

theorem SignalProc.acts_of_default {p : SignalProc} {sig : ℕ}
    (handler : p.handlers (sig - 1) = sigDfl) : p.Acts sig :=
  ⟨handler ▸ sigDfl_ne_sigIgn, Or.inl handler⟩

/-- **One signal.** -/
theorem serveSignal_spec (sig : ℕ) (p : SignalProc) :
    (serveSignal sig p).1.state =
        (if p.Acts sig then (defaultActions sig).after p.state else p.state) ∧
      ((serveSignal sig p).2 = true ↔ p.handlers (sig - 1) = sigDfl ∧
        (defaultActions sig).after p.state = .terminated) := by
  unfold serveSignal SignalProc.Acts
  by_cases ignored : p.handlers (sig - 1) = sigIgn
  · simp [ignored, sigDfl_ne_sigIgn.symm]
  by_cases dfl : p.handlers (sig - 1) = sigDfl
  · simp [dfl, sigDfl_ne_sigIgn, doSignalAction_state]
  · by_cases fixed : sig = sigkill ∨ sig = sigstop
    · simp [ignored, dfl, fixed, doSignalAction_state]
    · simp [ignored, dfl, fixed]

/-- Only a terminated process ends the loop. -/
theorem serveSignal_ended {sig : ℕ} {p : SignalProc} (ended : (serveSignal sig p).2 = true) :
    (serveSignal sig p).1.state = .terminated := by
  obtain ⟨state, ends⟩ := serveSignal_spec sig p
  obtain ⟨dfl, terminated⟩ := ends.mp ended
  rwa [if_pos (SignalProc.acts_of_default dfl), terminated] at state

/-! ## `SIGKILL` -/

/-- The signals that a process can neither block nor handle. -/
def Fixed (sig : ℕ) : Prop := sig = sigkill ∨ sig = sigstop

/-- Neither `SIGKILL` nor `SIGSTOP` is blocked, and both have their default action. -/
structure Unevadable (p : SignalProc) : Prop where
  unblocked : ∀ sig, Fixed sig → p.blocked.getLsbD (sig - 1) = false
  default : ∀ sig, Fixed sig → p.handlers (sig - 1) = sigDfl

theorem getLsbD_sigBit (sig i : ℕ) :
    (sigBit sig).getLsbD i = (decide (sig - 1 < 32) && decide (i = sig - 1)) := by
  rw [sigBit, ← BitVec.twoPow_eq, BitVec.getLsbD_twoPow]
  simp [eq_comm]

variable {sig : ℕ}

/-- A set has a signal if its bit is set. -/
theorem and_sigBit_eq_zero_iff {set : BitVec 32} (range : sig - 1 < 32) :
    set &&& sigBit sig = 0 ↔ set.getLsbD (sig - 1) = false := by
  constructor
  · intro clear
    have at_bit : (set &&& sigBit sig).getLsbD (sig - 1) = false := by
      rw [clear]
      exact BitVec.getLsbD_zero
    rw [BitVec.getLsbD_and, getLsbD_sigBit] at at_bit
    simpa [range] using at_bit
  · intro clear
    apply BitVec.eq_of_getLsbD_eq
    intro i lt
    by_cases same : i = sig - 1
    · subst same
      simp [clear]
    · simp [getLsbD_sigBit, same]

theorem maskable_clear (fixed : Fixed sig) (mask : BitVec 32) :
    (maskable mask).getLsbD (sig - 1) = false := by
  rw [maskable, BitVec.getLsbD_and, BitVec.getLsbD_not]
  rcases fixed with rfl | rfl <;> simp [getLsbD_sigBit, sigkill, sigstop]

/-- The old values are stored elsewhere, or not at all. -/
theorem storeOld_apart {p : SignalProc} {a offset : ℕ} {first : BitVec 32}
    {second : SignalProc → BitVec 32} (apart : PointerApart p.addr a offset) :
    p.storeOld a offset first second = some p := by
  unfold SignalProc.storeOld
  by_cases null : a = 0
  · exact if_pos null
  · obtain ⟨front, back⟩ := apart.resolve_left null
    rw [if_neg null, SignalProc.store, if_pos front]
    exact if_pos back

section

variable {p : SignalProc} (safe : Unevadable p)
include safe

/-- The mask of a process only changes through `maskable`. -/
theorem sysSigprocmask_unevadable {oldset : ℕ} (how : ℤ) (set : Option (BitVec 32))
    (apart : PointerApart p.addr oldset 4) :
    ∃ done q, sysSigprocmask how set oldset p = some (done, q) ∧ Unevadable q ∧
      q.addr = p.addr := by
  rw [sysSigprocmask, storeOld_apart apart]
  cases set with
  | none => exact ⟨_, _, rfl, safe, rfl⟩
  | some mask =>
    simp only [Option.bind_eq_bind, Option.bind_some]
    split_ifs
    · refine ⟨_, _, rfl, ⟨fun sig fixed => ?_, safe.default⟩, rfl⟩
      rw [BitVec.getLsbD_or, safe.unblocked sig fixed, maskable_clear fixed, Bool.or_false]
    · refine ⟨_, _, rfl, ⟨fun sig fixed => ?_, safe.default⟩, rfl⟩
      rw [BitVec.getLsbD_and, safe.unblocked sig fixed, Bool.false_and]
    · exact ⟨_, _, rfl, ⟨fun sig fixed => maskable_clear fixed mask, safe.default⟩, rfl⟩
    · exact ⟨_, _, rfl, ⟨safe.unblocked, safe.default⟩, rfl⟩

/-- The handlers of the two signals are refused. -/
theorem sysSigaction_unevadable {oldact : ℕ} (signum : ℤ) (act : Option Sigaction)
    (apart : PointerApart p.addr oldact 12) :
    ∃ done q, sysSigaction signum act oldact p = some (done, q) ∧ Unevadable q ∧
      q.addr = p.addr := by
  unfold sysSigaction
  split
  · exact ⟨_, _, rfl, ⟨safe.unblocked, safe.default⟩, rfl⟩
  rename_i allowed
  simp only [nsig, sigkill, sigstop] at allowed
  dsimp only
  rw [storeOld_apart apart]
  cases act with
  | none => exact ⟨_, _, rfl, safe, rfl⟩
  | some act =>
    refine ⟨_, _, rfl, ⟨safe.unblocked, fun sig fixed => ?_⟩, rfl⟩
    have other : sig - 1 ≠ signum.toNat - 1 := by
      rcases fixed with rfl | rfl
      · rw [sigkill]
        omega
      · rw [sigstop]
        omega
    exact (update_of_ne other ..).trans (safe.default sig fixed)

theorem deliveryStep_unevadable (call : DeliveryCall) :
    Unevadable (deliveryStep p call) ∧ (deliveryStep p call).addr = p.addr := by
  cases call with
  | send sig =>
    show Unevadable (p.sendSignalToProcess sig).2 ∧ (p.sendSignalToProcess sig).2.addr = p.addr
    unfold SignalProc.sendSignalToProcess
    dsimp only
    split_ifs <;> exact ⟨⟨safe.unblocked, safe.default⟩, rfl⟩
  | handle =>
    have handlers : (handleSignals p).handlers = p.handlers :=
      handleSignals_keeps SignalProc.handlers serveSignal_handlers p
    have blocked : (handleSignals p).blocked = p.blocked :=
      handleSignals_keeps SignalProc.blocked (fun sig p => (serveSignal_setup sig p).2.1) p
    refine ⟨⟨fun sig fixed => ?_, fun sig fixed => ?_⟩, ?_⟩
    · rw [deliveryStep, blocked, safe.unblocked sig fixed]
    · rw [deliveryStep, handlers, safe.default sig fixed]
    · exact handleSignals_keeps SignalProc.addr (fun sig p => (serveSignal_setup sig p).2.2) p

/-- **One call** that stores nothing in the process. -/
theorem signalStep_unevadable {call : SignalCall} (apart : call.StoresApart p.addr) :
    ∃ q, signalStep p call = some q ∧ Unevadable q ∧ q.addr = p.addr := by
  cases call with
  | sigaction signum act oldact =>
    obtain ⟨done, q, result, kept⟩ := sysSigaction_unevadable safe signum act apart
    exact ⟨q, by rw [signalStep, result, Option.map_some], kept⟩
  | signal signum handler =>
    obtain ⟨done, q, result, kept⟩ :=
      sysSigaction_unevadable safe signum (some ⟨handler, saRestart⟩) (Or.inl rfl)
    exact ⟨q, by rw [signalStep, sysSignal, result, Option.map_some, Option.map_some], kept⟩
  | sigprocmask how set oldset =>
    obtain ⟨done, q, result, kept⟩ := sysSigprocmask_unevadable safe how set apart
    exact ⟨q, by rw [signalStep, result, Option.map_some], kept⟩
  | deliver call => exact ⟨_, rfl, deliveryStep_unevadable safe call⟩

end

/-- The loop reaches `SIGKILL`, or it ends before because the process is terminated. -/
theorem handleLoop_kill {pending : BitVec 32} (is_pending : pending &&& sigBit sigkill ≠ 0) :
    ∀ {sigs : List ℕ} {p : SignalProc}, sigkill ∈ sigs → p.handlers (sigkill - 1) = sigDfl →
      (handleLoop pending sigs p).1.state = .terminated
  | sig :: rest, p, mem, is_default => by
    rw [handleLoop]
    by_cases here : sig = sigkill
    · subst here
      rw [if_neg is_pending]
      have ended : (serveSignal sigkill p).2 = true :=
        (serveSignal_spec sigkill p).2.mpr ⟨is_default, rfl⟩
      dsimp only
      rw [if_pos ended]
      exact serveSignal_ended ended
    · have later : sigkill ∈ rest := List.mem_of_ne_of_mem (Ne.symm here) mem
      split
      · exact handleLoop_kill is_pending later is_default
      dsimp only
      split
      · rename_i ended
        exact serveSignal_ended ended
      · exact handleLoop_kill is_pending later (by rw [serveSignal_handlers, is_default])

variable {p : SignalProc}

/-- `handle_signals` with `SIGKILL` pending terminates the process. -/
theorem Unevadable.killed (safe : Unevadable p)
    (is_pending : p.pending &&& sigBit sigkill ≠ 0) : (handleSignals p).state = .terminated := by
  have open_ : p.pending &&& ~~~p.blocked &&& sigBit sigkill ≠ 0 := by
    rw [Ne, and_sigBit_eq_zero_iff (by decide), Bool.not_eq_false] at is_pending ⊢
    rw [BitVec.getLsbD_and, is_pending, BitVec.getLsbD_not, safe.unblocked sigkill (Or.inl rfl)]
    rfl
  unfold handleSignals
  rw [if_neg]
  · exact handleLoop_kill open_ (by decide) (safe.default sigkill (Or.inl rfl))
  · intro none_left
    rw [none_left] at open_
    exact open_ BitVec.zero_and

/-- A process as it is created, at an address of the kernel. -/
def newProc : SignalProc where
  addr := 0xC0500000
  state := .ready
  pending := 0
  blocked := 0
  handlers := fun _ => sigDfl
  flags := fun _ => 0
  exitCode := 0
  errno := 0

/-- The loop over two parts of the signals. -/
theorem handleLoop_append (pending : BitVec 32) (front back : List ℕ) (p : SignalProc) :
    handleLoop pending (front ++ back) p =
      if (handleLoop pending front p).2 then handleLoop pending front p
      else handleLoop pending back (handleLoop pending front p).1 := by
  induction front generalizing p with
  | nil => rfl
  | cons sig rest ih =>
    rw [List.cons_append, handleLoop, handleLoop]
    split
    · exact ih p
    · dsimp only
      split
      · rfl
      · exact ih (serveSignal sig p).1

/-- The signal is served, with the default action. -/
def ServedByDefault (pending : BitVec 32) (p : SignalProc) (sig : ℕ) : Prop :=
  pending &&& sigBit sig ≠ 0 ∧ p.handlers (sig - 1) = sigDfl

/-- The signal is served and stops the process. -/
def Stops (pending : BitVec 32) (p : SignalProc) (sig : ℕ) : Prop :=
  defaultActions sig = .stop ∧ pending &&& sigBit sig ≠ 0 ∧ p.handlers (sig - 1) ≠ sigIgn ∧
    (p.handlers (sig - 1) = sigDfl ∨ sig = sigstop)

/-- The default action of the signal terminates a process. -/
def Terminates (sig : ℕ) : Prop := defaultActions sig = .term ∨ defaultActions sig = .core

instance (pending : BitVec 32) (p : SignalProc) (sig : ℕ) :
    Decidable (ServedByDefault pending p sig) := inferInstanceAs (Decidable (_ ∧ _))

instance (pending : BitVec 32) (p : SignalProc) (sig : ℕ) : Decidable (Stops pending p sig) :=
  inferInstanceAs (Decidable (_ ∧ _))

instance (sig : ℕ) : Decidable (Terminates sig) := inferInstanceAs (Decidable (_ ∨ _))

/-- A signal that does not stop, served for a terminated process. -/
theorem serveSignal_terminated (not_stop : defaultActions sig ≠ .stop)
    (state : p.state = .terminated) : (serveSignal sig p).1.state = .terminated ∧
      ((serveSignal sig p).2 = true ↔ p.handlers (sig - 1) = sigDfl) := by
  have stays : (defaultActions sig).after .terminated = .terminated := by
    cases action : defaultActions sig <;> trivial
  obtain ⟨after, ends⟩ := serveSignal_spec sig p
  rw [state, stays] at after ends
  rw [ite_self] at after
  exact ⟨after, ends.trans (and_iff_left rfl)⟩

/-- A signal after the stop signals, served for a blocked process. -/
theorem serveSignal_blocked_state (not_stop : defaultActions sig ≠ .stop)
    (not_cont : defaultActions sig ≠ .cont) (not_kill : sig ≠ sigkill)
    (state : p.state = .blocked) :
    if p.handlers (sig - 1) = sigDfl ∧ Terminates sig then
      (serveSignal sig p).1.state = .terminated ∧ (serveSignal sig p).2 = true
    else (serveSignal sig p).1.state = .blocked ∧ (serveSignal sig p).2 = false := by
  have acts_iff : p.Acts sig ↔ p.handlers (sig - 1) = sigDfl := by
    refine ⟨?_, SignalProc.acts_of_default⟩
    rintro ⟨-, dfl | kill | stop⟩
    · exact dfl
    · exact absurd kill not_kill
    · exact absurd (stop ▸ rfl) not_stop
  obtain ⟨after, ends⟩ := serveSignal_spec sig p
  simp only [state, acts_iff] at after ends
  split_ifs with acts
  · have terminated : (defaultActions sig).after .blocked = .terminated := by
      rcases acts.2 with action | action <;> rw [action] <;> rfl
    rw [if_pos acts.1] at after
    exact ⟨after.trans terminated, ends.mpr ⟨acts.1, terminated⟩⟩
  have stays : p.handlers (sig - 1) = sigDfl → (defaultActions sig).after .blocked = .blocked := by
    intro dfl
    cases action : defaultActions sig with
    | term => exact absurd ⟨dfl, Or.inl action⟩ acts
    | core => exact absurd ⟨dfl, Or.inr action⟩ acts
    | cont => exact absurd action not_cont
    | stop | ign => rfl
  refine ⟨?_, Bool.eq_false_iff.mpr fun ended => ?_⟩
  · split_ifs at after with dfl
    · exact after.trans (stays dfl)
    · exact after
  · obtain ⟨dfl, terminated⟩ := ends.mp ended
    exact absurd ((stays dfl).symm.trans terminated) (by decide)

/-- A stop signal blocks the process, whatever its state, if it is not ignored or handled. -/
theorem serveSignal_stop (stop : defaultActions sig = .stop) (p : SignalProc) :
    if p.handlers (sig - 1) ≠ sigIgn ∧ (p.handlers (sig - 1) = sigDfl ∨ sig = sigstop) then
      (serveSignal sig p).1.state = .blocked ∧ (serveSignal sig p).2 = false
    else (serveSignal sig p).1.state = p.state ∧ (serveSignal sig p).2 = false := by
  have not_kill : sig ≠ sigkill := by
    rintro rfl
    exact absurd stop (by decide)
  obtain ⟨after, ends⟩ := serveSignal_spec sig p
  simp only [SignalProc.Acts, not_kill, false_or, stop] at after ends
  have goes_on : (serveSignal sig p).2 = false :=
    Bool.eq_false_iff.mpr fun ended => ProcessState.noConfusion (ends.mp ended).2
  split_ifs at after ⊢
  · exact ⟨after, goes_on⟩
  · exact ⟨after, goes_on⟩

/-- Signals that do not stop leave a terminated process terminated, and end the loop at the
first default action. -/
theorem handleLoop_terminated (pending : BitVec 32) :
    ∀ (sigs : List ℕ) {p : SignalProc}, (∀ sig ∈ sigs, defaultActions sig ≠ .stop) →
      p.state = .terminated →
      (handleLoop pending sigs p).1.state = .terminated ∧
        ((handleLoop pending sigs p).2 = true ↔ ∃ sig ∈ sigs, ServedByDefault pending p sig)
  | [], p, _, state => ⟨state, by simp [handleLoop]⟩
  | sig :: rest, p, no_stop, state => by
    have later : ∀ sig ∈ rest, defaultActions sig ≠ .stop := fun x mem =>
      no_stop x (List.mem_cons_of_mem _ mem)
    rw [handleLoop]
    by_cases waiting : pending &&& sigBit sig = 0
    · have rest_spec := handleLoop_terminated pending rest later state
      rw [if_pos waiting]
      refine ⟨rest_spec.1, rest_spec.2.trans ?_⟩
      simp [ServedByDefault, waiting]
    rw [if_neg waiting]
    dsimp only
    obtain ⟨served_state, ended⟩ :=
      serveSignal_terminated (no_stop sig (by simp)) state
    by_cases dfl : p.handlers (sig - 1) = sigDfl
    · rw [if_pos (ended.mpr dfl)]
      exact ⟨served_state, fun _ => ⟨sig, by simp, waiting, dfl⟩, fun _ => ended.mpr dfl⟩
    · have rest_spec := handleLoop_terminated pending rest later served_state
      rw [if_neg (mt ended.mp dfl)]
      refine ⟨rest_spec.1, rest_spec.2.trans ?_⟩
      simp [ServedByDefault, dfl]

/-- The stop signals never end the loop; one that acts leaves the process blocked. -/
theorem handleLoop_stops (pending : BitVec 32) :
    ∀ (sigs : List ℕ) {p : SignalProc}, (∀ sig ∈ sigs, defaultActions sig = .stop) →
      (handleLoop pending sigs p).2 = false ∧
        ((∃ sig ∈ sigs, Stops pending p sig) → (handleLoop pending sigs p).1.state = .blocked) ∧
        ((¬∃ sig ∈ sigs, Stops pending p sig) → (handleLoop pending sigs p).1.state = p.state)
  | [], p, _ => by simp [handleLoop]
  | sig :: rest, p, all_stop => by
    have stop := all_stop sig (by simp)
    have later : ∀ sig ∈ rest, defaultActions sig = .stop := fun x mem =>
      all_stop x (List.mem_cons_of_mem _ mem)
    rw [handleLoop]
    by_cases waiting : pending &&& sigBit sig = 0
    · rw [if_pos waiting]
      have rest_spec := handleLoop_stops pending rest (p := p) later
      simpa [Stops, waiting] using rest_spec
    rw [if_neg waiting]
    dsimp only
    have served := serveSignal_stop stop p
    have rest_spec := handleLoop_stops pending rest (p := (serveSignal sig p).1) later
    simp only [Stops, serveSignal_handlers] at rest_spec
    split at served
    · rename_i acts
      rw [if_neg (by rw [served.2]; exact Bool.false_ne_true)]
      refine ⟨rest_spec.1, fun _ => ?_, fun none_acts => ?_⟩
      · -- the process stays blocked, or another stop signal blocks it
        by_cases another : ∃ sig ∈ rest, Stops pending p sig
        · exact rest_spec.2.1 another
        · rw [rest_spec.2.2 another, served.1]
      · exact absurd ⟨sig, by simp, stop, waiting, acts.1, acts.2⟩ none_acts
    · rename_i idle
      rw [if_neg (by rw [served.2]; exact Bool.false_ne_true)]
      have same : (∃ x ∈ sig :: rest, Stops pending p x) ↔ ∃ x ∈ rest, Stops pending p x := by
        simp only [List.mem_cons, exists_eq_or_imp, or_iff_right_iff_imp]
        intro acts
        exact absurd acts.2.2 idle
      rw [same]
      exact ⟨rest_spec.1, rest_spec.2.1, fun none_acts =>
        (rest_spec.2.2 none_acts).trans served.1⟩

/-- After the stop signals a blocked process is terminated if one of the others terminates
it. -/
theorem handleLoop_blocked (pending : BitVec 32) :
    ∀ (sigs : List ℕ) {p : SignalProc},
      (∀ sig ∈ sigs, defaultActions sig ≠ .stop ∧ defaultActions sig ≠ .cont ∧ sig ≠ sigkill) →
      p.state = .blocked →
      ((handleLoop pending sigs p).1.state = .terminated ↔
        ∃ sig ∈ sigs, ServedByDefault pending p sig ∧ Terminates sig)
  | [], p, _, state => by simp [handleLoop, state]
  | sig :: rest, p, others, state => by
    have later := fun x mem => others x (List.mem_cons_of_mem sig mem)
    rw [handleLoop]
    by_cases waiting : pending &&& sigBit sig = 0
    · rw [if_pos waiting, handleLoop_blocked pending rest later state]
      simp [ServedByDefault, waiting]
    obtain ⟨not_stop, not_cont, not_kill⟩ := others sig (by simp)
    have served := serveSignal_blocked_state not_stop not_cont not_kill state
    rw [if_neg waiting]
    dsimp only
    split at served
    · rename_i ends
      rw [if_pos served.2]
      exact ⟨fun _ => ⟨sig, by simp, ⟨waiting, ends.1⟩, ends.2⟩, fun _ => served.1⟩
    rename_i goes_on
    rw [if_neg (by rw [served.2]; exact Bool.false_ne_true),
      handleLoop_blocked pending rest later served.1]
    simp only [ServedByDefault, serveSignal_handlers, List.mem_cons, exists_eq_or_imp, iff_or_self]
    rintro ⟨⟨_, dfl⟩, ends⟩
    exact absurd ⟨dfl, ends⟩ goes_on

/-- The stop signals and what comes before and after them. -/
def beforeStops : List ℕ := List.range' 1 18

def stopSignals : List ℕ := [19, 20, 21, 22]

def afterStops : List ℕ := List.range' 23 9

/-- Serving the signals of a terminated process makes it run again later: a stop signal
acts, no signal before it has a default action, and none after it terminates the process. -/
def Revives (p : SignalProc) : Prop :=
  (∃ sig ∈ stopSignals, Stops (p.pending &&& ~~~p.blocked) p sig) ∧
    (¬∃ sig ∈ beforeStops, ServedByDefault (p.pending &&& ~~~p.blocked) p sig) ∧
    ¬∃ sig ∈ afterStops, ServedByDefault (p.pending &&& ~~~p.blocked) p sig ∧ Terminates sig

/-- `handle_signals` of a terminated process. -/
theorem handleSignals_terminated (state : p.state = .terminated) :
    (handleSignals p).state = .terminated ↔ ¬Revives p := by
  unfold handleSignals Revives
  generalize p.pending &&& ~~~p.blocked = pending
  by_cases idle : pending = 0
  · have nothing : ∀ sig, pending &&& sigBit sig = 0 := fun sig => by
      rw [idle]
      exact BitVec.zero_and
    rw [if_pos idle]
    refine ⟨fun _ revives => ?_, fun _ => state⟩
    obtain ⟨⟨sig, _, acts⟩, _⟩ := revives
    exact acts.2.1 (nothing sig)
  rw [if_neg idle]
  have order :
      List.range' 1 (nsig.toNat - 1) = beforeStops ++ (stopSignals ++ afterStops) := by decide
  rw [order, handleLoop_append]
  obtain ⟨before_state, before_ends⟩ := handleLoop_terminated pending beforeStops (by decide) state
  by_cases ended : ∃ sig ∈ beforeStops, ServedByDefault pending p sig
  · rw [if_pos (before_ends.mpr ended)]
    exact ⟨fun _ revives => revives.2.1 ended, fun _ => before_state⟩
  rw [if_neg (mt before_ends.mp ended), handleLoop_append]
  have handlers : (handleLoop pending beforeStops p).1.handlers = p.handlers :=
    handleLoop_keeps SignalProc.handlers serveSignal_handlers ..
  generalize (handleLoop pending beforeStops p).1 = q at before_state handlers
  obtain ⟨goes_on, blocks, passes⟩ := handleLoop_stops pending stopSignals (p := q) (by decide)
  rw [if_neg (by rw [goes_on]; exact Bool.false_ne_true)]
  have handlers' : (handleLoop pending stopSignals q).1.handlers = q.handlers :=
    handleLoop_keeps SignalProc.handlers serveSignal_handlers ..
  generalize (handleLoop pending stopSignals q).1 = r at blocks passes handlers'
  have stops_iff : ∀ sig, Stops pending q sig ↔ Stops pending p sig := fun sig => by
    rw [Stops, Stops, handlers]
  have served_iff : ∀ sig, ServedByDefault pending r sig ↔ ServedByDefault pending p sig :=
    fun sig => by rw [ServedByDefault, ServedByDefault, handlers', handlers]
  simp only [stops_iff] at blocks passes
  by_cases acts : ∃ sig ∈ stopSignals, Stops pending p sig
  · rw [handleLoop_blocked pending afterStops (by decide) (blocks acts)]
    simp only [served_iff]
    constructor
    · exact fun terminated revives => revives.2.2 terminated
    · intro stays
      by_contra none_terminates
      exact stays ⟨acts, ended, none_terminates⟩
  · refine ⟨fun _ revives => acts revives.1, fun _ => ?_⟩
    exact (handleLoop_terminated pending afterStops (by decide)
      ((passes acts).trans before_state)).1

/-- A terminated process is not woken by a signal that is sent to it. -/
theorem sendSignal_terminated (state : p.state = .terminated) (sig : ℤ) :
    (p.sendSignalToProcess sig).2.state = .terminated := by
  unfold SignalProc.sendSignalToProcess
  simp only [state]
  split
  · exact state
  · simp

/-- A call that leaves a terminated process as it is. -/
def KeepsTerminated (p : SignalProc) : DeliveryCall → Prop
  | .send _ => True
  | .handle => ¬Revives p

/-- **Termination is final exactly as long as no stop signal acts**, in the sense of
`Revives`, on the terminated process. -/
theorem termination_final_iff (p : SignalProc) (calls : List DeliveryCall)
    (state : p.state = .terminated) :
    Throughout (fun p call => some (deliveryStep p call)) (fun p => p.state = .terminated) p calls ↔
      Allowed (fun p call => some (deliveryStep p call)) KeepsTerminated p calls := by
  refine throughout_iff_allowed (fun p => p.state = .terminated)
    (fun _ state => state) ?_ ?_ calls p
    state (allowed_of_forall (fun _ _ => trivial) calls p)
  · intro p call state _ keeps
    refine ⟨_, rfl, ?_⟩
    cases call with
    | send sig => exact sendSignal_terminated state sig
    | handle => exact (handleSignals_terminated state).mpr keeps
  · intro p call state _ revives p' stepped
    cases stepped
    cases call with
    | send sig => exact absurd trivial revives
    | handle => exact fun terminated => revives ((handleSignals_terminated state).mp terminated)

/-- A terminated process with default actions and no pending signal. -/
def terminatedProc : SignalProc := { newProc with state := .terminated, exitCode := 9 }

/-- A `SIGTERM` that is sent and served changes nothing. -/
theorem termination_final_term :
    Throughout (fun p call => some (deliveryStep p call)) (fun p => p.state = .terminated)
      terminatedProc [.send 15, .handle] := by
  refine (termination_final_iff terminatedProc [.send 15, .handle] rfl).mpr ?_
  refine ⟨trivial, fun p sent => ⟨?_, fun _ _ => trivial⟩⟩
  cases sent
  rintro ⟨_, no_default, _⟩
  exact no_default ⟨15, by decide, by decide, rfl⟩

/-- After a `SIGSTOP` and a `SIGCONT` the process is ready to run again. -/
theorem termination_revived :
    terminatedProc.state = .terminated ∧
      (List.foldl deliveryStep terminatedProc [.send 19, .handle]).state = .blocked ∧
      (List.foldl deliveryStep terminatedProc [.send 19, .handle, .send 18]).state = .ready := by
  refine ⟨rfl, ?_, ?_⟩ <;> decide

end EduOS
