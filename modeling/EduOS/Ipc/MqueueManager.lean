import EduOS.Ipc.Mqueue

/-!
# The message queues of the system

`kernel/ipc/mqueue.c` again, with what `EduOS.Ipc.Mqueue` leaves out: a queue has an
address and a count of the handles that were opened, the manager has totals of the
messages and bytes on all queues, `mq_close` and `mq_unlink`.

Three counters are kept for one fact, and each by another function.  They agree as long as
a queue starts empty and ends empty.  It need not: `mq_open` copies `mq_curmsgs` out of the
caller's structure, and `mq_unlink` frees the messages that are left without taking them
off the totals.  `mq_unlink` also returns 0 when it does nothing because a handle is open,
and finds only the first queue of a name; two queues get one name if it is cut off after
63 bytes.

`mq_accounted_iff` says that nothing else goes wrong.
-/

namespace EduOS

open List Option

/-! ## The source -/

/-- `struct mqueue` where it is in memory, with its `refcount`. -/
structure ManagedQueue where
  address : ℕ
  queue : Mqueue
  refcount : ℕ

/-- `g_mqueue_manager` -/
structure MqSystem where
  queues : List ManagedQueue
  queueCount : ℕ
  totalMessages : ℕ
  totalBytes : ℕ

/-- `mqueue_init` -/
def mqueueInit : MqSystem := ⟨[], 0, 0, 0⟩

/-- The part of the manager that opening looks at. -/
def MqSystem.manager (s : MqSystem) : MqueueManager :=
  ⟨s.queues.map ManagedQueue.queue, s.queueCount⟩

/-- The queue that a handle points to, and its place on the list. -/
def MqSystem.slot (s : MqSystem) (handle : ℕ) : Option (ℕ × ManagedQueue) :=
  (s.queues.findIdx? fun q => q.address = handle).bind fun i =>
    (s.queues[i]?).map fun q => (i, q)

/-- The rest of `mq_open`: the handle and the reference count.  A new queue is at
`address`. -/
def MqSystem.openQueue (address : ℕ) (allocated : Option (Links MqNode × (ℕ → MqMessage)))
    (name : Option (List (BitVec 8))) (oflag : BitVec 32) (attr : Option MqAttr)
    (s : MqSystem) : Option ℕ × MqSystem :=
  match mqOpen allocated name oflag attr s.manager with
  | (none, _) => (none, s)
  | (some i, manager) =>
    match s.queues[i]? with
    | some q =>
      (some q.address,
        { s with queues := s.queues.set i { q with refcount := u32 (q.refcount + 1) } })
    | none =>
      (some address,
        { s with
          queues := s.queues ++ (manager.queues.drop i).map fun queue => ⟨address, queue, 1⟩
          queueCount := manager.queueCount })

/-- `mq_close` -/
def MqSystem.close (handle : ℕ) (s : MqSystem) : Option MqSystem :=
  (s.slot handle).map fun (i, q) =>
    { s with queues := s.queues.set i { q with refcount := q.refcount - 1 } }

/-- One pass of the loop of `mq_unlink`; the next node is read before the message is taken
off the list. -/
def drainPass : Links MqNode × MqNode → Option ((Links MqNode × MqNode) ⊕ Links MqNode)
  | (_, .null) => none
  | (links, .messages) => some (Sum.inr links)
  | (links, .message address) =>
    (listDel .null links (.message address)).map fun links' =>
      Sum.inl (links', links.next (.message address))

/-- The loop of `mq_unlink` that frees the messages. -/
def drainMessages (links : Links MqNode) : Option (Links MqNode) :=
  loop drainPass (2 ^ 32) (links, links.next .messages)

/-- `mq_unlink` -/
def MqSystem.unlink (name : List (BitVec 8)) (s : MqSystem) : Option (Except ℕ Unit × MqSystem) :=
  match mqueueFind name s.manager with
  | none => some (.error enoent, s)
  | some i =>
    (s.queues[i]?).bind fun q =>
      if 0 < q.refcount then some (.ok (), s)
      else
        (drainMessages q.queue.links).map fun _ =>
          (.ok (), { s with queues := s.queues.eraseIdx i, queueCount := sub32 s.queueCount 1 })

/-- `mq_send` with the totals. -/
def MqSystem.send (handle : ℕ) (allocated : Option ℕ) (buffer : Option (List (BitVec 8)))
    (priority : ℕ) (s : MqSystem) : Option (Except ℕ Unit × MqSystem) :=
  (s.slot handle).bind fun (i, q) =>
    (mqSend allocated buffer priority q.queue).map fun
      | (.error e, queue) => (.error e, { s with queues := s.queues.set i { q with queue } })
      | (.ok _, queue) =>
        (.ok (),
          { s with
            queues := s.queues.set i { q with queue }
            totalMessages := u64 (s.totalMessages + 1)
            totalBytes := u64 (s.totalBytes + (buffer.getD []).length) })

/-- `mq_receive` with the totals. -/
def MqSystem.receive (handle : ℕ) (hasBuffer : Bool) (len : ℕ) (s : MqSystem) :
    Option (Except ℕ MqReceived × MqSystem) :=
  (s.slot handle).bind fun (i, q) =>
    (mqReceive hasBuffer len q.queue).map fun
      | (.error e, queue) => (.error e, { s with queues := s.queues.set i { q with queue } })
      | (.ok received, queue) =>
        (.ok received,
          { s with
            queues := s.queues.set i { q with queue }
            totalMessages := sub64 s.totalMessages 1
            totalBytes := sub64 s.totalBytes (min received.length len) })

/-! ## What should hold -/

/-- The messages that a walk along the list meets. -/
def messagesFrom (links : Links MqNode) : ℕ → MqNode → List ℕ
  | 0, _ => []
  | _ + 1, .null => []
  | _ + 1, .messages => []
  | n + 1, .message address => address :: messagesFrom links n (links.next (.message address))

/-- The messages on the list of a queue. -/
def Mqueue.messageList (mq : Mqueue) : List ℕ :=
  messagesFrom mq.links (2 ^ 32) (mq.links.next .messages)

/-- The bytes in the messages of a queue. -/
def Mqueue.bytes (mq : Mqueue) : ℕ :=
  (mq.messageList.map fun address => (mq.memory address).size).sum

/-- The system, and the names that were unlinked and not created since. -/
structure MqRun where
  system : MqSystem
  gone : List (List (BitVec 8))

/-- The counters agree with the lists, and unlinked names are not found. -/
@[mk_iff]
structure MqAccounted (s : MqRun) : Prop where
  curmsgs : ∀ q ∈ s.system.queues, q.queue.attr.curmsgs = q.queue.messageList.length
  messages : s.system.totalMessages = (s.system.queues.map fun q => q.queue.messageList.length).sum
  bytes : s.system.totalBytes = (s.system.queues.map fun q => q.queue.bytes).sum
  unlinked : ∀ name ∈ s.gone, mqueueFind name s.system.manager = none

instance (s : MqRun) : Decidable (MqAccounted s) :=
  decidable_of_iff _ (mqAccounted_iff s).symm

/-- The calls on all queues, which are known by their handles. -/
inductive MqSystemCall where
  | openQueue (address : ℕ) (allocated : Option (Links MqNode × (ℕ → MqMessage)))
      (name : Option (List (BitVec 8))) (oflag : BitVec 32) (attr : Option MqAttr)
  | send (handle : ℕ) (allocated : Option ℕ) (buffer : Option (List (BitVec 8))) (priority : ℕ)
  | receive (handle : ℕ) (hasBuffer : Bool) (len : ℕ)
  | close (handle : ℕ)
  | unlink (name : List (BitVec 8))

/-- One call, and the names that it unlinks or creates again. -/
def mqSystemStep (s : MqRun) : MqSystemCall → Option MqRun
  | .openQueue address allocated name oflag attr =>
    let system := (s.system.openQueue address allocated name oflag attr).2
    some ⟨system, if s.system.queues.length < system.queues.length
      then s.gone.filter fun other => some other ≠ name else s.gone⟩
  | .send handle allocated buffer priority =>
    (s.system.send handle allocated buffer priority).map fun result => ⟨result.2, s.gone⟩
  | .receive handle hasBuffer len =>
    (s.system.receive handle hasBuffer len).map fun result => ⟨result.2, s.gone⟩
  | .close handle => (s.system.close handle).map fun system => ⟨system, s.gone⟩
  | .unlink name =>
    (s.system.unlink name).map fun
      | (.ok _, system) => ⟨system, name :: s.gone⟩
      | (.error _, system) => ⟨system, s.gone⟩

/-- Handles point to queues on the list, and `kmalloc` gives no memory that is in use. -/
def mqSystemLegal (s : MqRun) : MqSystemCall → Prop
  | .openQueue address _ _ _ _ => ∀ q ∈ s.system.queues, q.address ≠ address
  | .send handle allocated _ _ =>
    (∃ q ∈ s.system.queues, q.address = handle) ∧
      ∀ address ∈ allocated, ∀ q ∈ s.system.queues, address ∉ q.queue.messageList
  | .receive handle _ _ | .close handle => ∃ q ∈ s.system.queues, q.address = handle
  | .unlink _ => True

/-- The names of the queues. -/
def MqSystem.names (s : MqSystem) : List (List (BitVec 8)) := s.queues.map fun q => q.queue.name

/-- A queue is created without messages and, if its name is cut off, not under the name of
one that is gone; `mq_unlink` finds nothing, or a queue without handles and messages that
is the only one of its name. -/
def MqGood (s : MqRun) : MqSystemCall → Prop
  | .openQueue _ allocated name oflag attr =>
    ∀ bytes ∈ name, s.system.manager.Creates allocated bytes oflag →
      (∀ a ∈ attr, a.curmsgs = 0) ∧ (bytes.length ≤ 63 ∨ bytes.take 63 ∉ s.gone)
  | .unlink name =>
    ∀ i ∈ mqueueFind name s.system.manager, ∀ q ∈ s.system.queues[i]?,
      q.refcount = 0 ∧ q.queue.messageList = [] ∧ s.system.names.count name = 1
  | .send _ _ _ _ | .receive _ _ _ | .close _ => True

instance MqueueManager.Creates.decidable (manager : MqueueManager)
    (allocated : Option (Links MqNode × (ℕ → MqMessage)))
    (name : List (BitVec 8)) (oflag : BitVec 32) :
    Decidable (manager.Creates allocated name oflag) :=
  decidable_of_iff _ (creates_iff ..).symm

instance (s : MqRun) : (call : MqSystemCall) → Decidable (MqGood s call)
  | .openQueue _ _ _ _ _ | .unlink _ => inferInstanceAs (Decidable (∀ _ ∈ (_ : Option _), _))
  | .send _ _ _ _ | .receive _ _ _ | .close _ => inferInstanceAs (Decidable True)

instance (s : MqRun) : (call : MqSystemCall) → Decidable (mqSystemLegal s call)
  | .openQueue _ _ _ _ _ => inferInstanceAs (Decidable (∀ q ∈ s.system.queues, _))
  | .send _ _ _ _ => inferInstanceAs (Decidable ((∃ q ∈ s.system.queues, _) ∧ _))
  | .receive _ _ _ | .close _ => inferInstanceAs (Decidable (∃ q ∈ s.system.queues, _))
  | .unlink _ => inferInstanceAs (Decidable True)

/-! ## Sums over a list -/

section

variable {α : Type*} {l : List α} {i : ℕ} {a : α}

theorem sum_map_le {f : α → ℕ} {bound : ℕ} (each : ∀ a ∈ l, f a ≤ bound) :
    (l.map f).sum ≤ l.length * bound := by
  have le := sum_le_card_nsmul (l.map f) bound fun n mem => by
    obtain ⟨a, in_l, rfl⟩ := mem_map.mp mem
    exact each a in_l
  rwa [length_map, smul_eq_mul] at le

theorem le_sum_map (f : α → ℕ) (mem : a ∈ l) : f a ≤ (l.map f).sum :=
  single_le_sum (fun _ _ => Nat.zero_le _) _ (mem_map_of_mem mem)

theorem perm_eraseIdx (here : l[i]? = some a) : (a :: l.eraseIdx i).Perm l := by
  obtain ⟨inside, rfl⟩ := List.getElem?_eq_some_iff.mp here
  exact getElem_cons_eraseIdx_perm inside

theorem sum_map_eraseIdx (f : α → ℕ) (here : l[i]? = some a) :
    f a + ((l.eraseIdx i).map f).sum = (l.map f).sum := by
  rw [← ((perm_eraseIdx here).map f).sum_eq, map_cons, sum_cons]

theorem sum_map_set (f : α → ℕ) (here : l[i]? = some a) (b : α) :
    ((l.set i b).map f).sum + f a = (l.map f).sum + f b := by
  obtain ⟨inside, -⟩ := List.getElem?_eq_some_iff.mp here
  have there : (l.set i b)[i]? = some b := by simp [inside]
  have before : f a + ((l.eraseIdx i).map f).sum = (l.map f).sum := sum_map_eraseIdx f here
  have after : f b + (((l.set i b).eraseIdx i).map f).sum = ((l.set i b).map f).sum :=
    sum_map_eraseIdx f there
  rw [eraseIdx_set_eq] at after
  omega

end

/-! ## The list of messages -/

variable {links : Links MqNode} {name : List (BitVec 8)} {oflag : BitVec 32} {attr : Option MqAttr}
    {memory : ℕ → MqMessage} {address : ℕ}

section

variable {mq mq' : Mqueue} {order pending : List MqEntry}

theorem messagesFrom_messages (links : Links MqNode) (n : ℕ) :
    messagesFrom links n .messages = [] := by
  cases n <;> rfl

theorem messagesFrom_ring {front back : List MqEntry}
    (ring : links.Ring .messages ((front ++ back).map MqEntry.node)) {n : ℕ}
    (short : back.length < n) :
    messagesFrom links n ((back.map MqEntry.node).headD .messages) = back.map Prod.fst := by
  induction back generalizing front n with
  | nil => exact messagesFrom_messages links n
  | cons entry back ih =>
    obtain ⟨n, rfl⟩ := Nat.exists_eq_succ_of_ne_zero (Nat.ne_zero_of_lt short)
    have cut : links.Ring .messages
        (front.map MqEntry.node ++ entry.node :: back.map MqEntry.node) := by
      simpa using ring
    have after : links.next (.message entry.1) = (back.map MqEntry.node).headD .messages :=
      cut.next_mem
    show entry.1 :: messagesFrom links n (links.next (.message entry.1)) = _
    have ring' : links.Ring .messages (((front ++ [entry]) ++ back).map MqEntry.node) := by
      simpa using ring
    rw [after, ih ring' (by simpa using short)]
    rfl

namespace Mqueue.Holds

theorem messageList (holds : mq.Holds order pending) : mq.messageList = order.map Prod.fst := by
  have short : order.length < 2 ^ 32 := by
    have := holds.byPriority.length_eq
    have := holds.bounded
    have := holds.limit
    have : mqMaxMessages < 2 ^ 32 := by decide
    omega
  unfold Mqueue.messageList
  rw [holds.ring.next_head]
  have ring : mq.links.Ring .messages (([] ++ order).map MqEntry.node) := holds.ring
  exact messagesFrom_ring ring short

theorem length (holds : mq.Holds order pending) : mq.messageList.length = pending.length := by
  rw [holds.messageList, length_map, holds.byPriority.length_eq]

theorem bytes (holds : mq.Holds order pending) :
    mq.bytes = (pending.map fun entry => entry.2.size).sum := by
  have sizes : (order.map Prod.fst).map (fun address => (mq.memory address).size) =
      order.map fun entry => entry.2.size := by
    rw [List.map_map]
    exact map_congr_left fun entry mem => by rw [Function.comp, holds.stored entry mem]
  rw [Mqueue.bytes, holds.messageList, sizes]
  exact (holds.byPriority.perm.map _).sum_eq

end Mqueue.Holds

/-- The list of a queue is in order, and its messages are not too long. -/
structure Mqueue.Sound (mq : Mqueue) : Prop where
  holds : ∃ order pending, mq.Holds order pending
  msgsize : mq.attr.msgsize ≤ mqMaxMsgSize

theorem mqCreate_messageList (name : List (BitVec 8)) (oflag : BitVec 32) (attr : Option MqAttr)
    (links : Links MqNode) (memory : ℕ → MqMessage) :
    (mqCreate name oflag attr links memory).messageList = [] := by
  have next : (mqCreate name oflag attr links memory).links.next .messages = .messages := by
    simp [mqCreate, initListHead]
  rw [Mqueue.messageList, next, messagesFrom_messages]

theorem mqCreate_sound (empty : ∀ a ∈ attr, a.curmsgs = 0) :
    (mqCreate name oflag attr links memory).Sound where
  holds := ⟨[], [], mqCreate_holds empty⟩
  msgsize := by
    cases attr with
    | none => exact le_rfl
    | some attr =>
      simp only [mqCreate, mqInitialAttr]
      split <;> omega

theorem mqLink_keeps {message : MqMessage} (linked : mqLink address message mq = some mq') :
    mq'.name = mq.name ∧ mq'.attr.msgsize = mq.attr.msgsize := by
  simp only [mqLink, bind_eq_some_iff, map_eq_some_iff] at linked
  obtain ⟨_, _, _, _, rfl⟩ := linked
  exact ⟨rfl, rfl⟩

namespace Mqueue.Sound

theorem counted (sound : mq.Sound) : mq.attr.curmsgs = mq.messageList.length := by
  obtain ⟨order, pending, holds⟩ := sound.holds
  rw [holds.length, holds.counted]

theorem length_le (sound : mq.Sound) : mq.messageList.length ≤ mqMaxMessages := by
  obtain ⟨order, pending, holds⟩ := sound.holds
  rw [holds.length]
  exact holds.bounded.trans holds.limit

theorem bytes_le (sound : mq.Sound) : mq.bytes ≤ mqMaxMessages * mqMaxMsgSize := by
  obtain ⟨order, pending, holds⟩ := sound.holds
  have each : ∀ entry ∈ pending, entry.2.size ≤ mqMaxMsgSize := fun entry mem =>
    (holds.sized entry (holds.byPriority.mem_iff.mpr mem)).2.trans sound.msgsize
  rw [holds.bytes]
  exact (sum_map_le each).trans (Nat.mul_le_mul_right _ (holds.bounded.trans holds.limit))

/-- A message is refused, or there is one more. -/
theorem send (sound : mq.Sound) {allocated : Option ℕ} (buffer : Option (List (BitVec 8)))
    (priority : ℕ) (fresh : ∀ address ∈ allocated, address ∉ mq.messageList) :
    (∃ e, mqSend allocated buffer priority mq = some (.error e, mq)) ∨
      ∃ mq', mqSend allocated buffer priority mq = some (.ok (), mq') ∧ mq'.Sound ∧
        mq'.name = mq.name ∧ mq'.messageList.length = mq.messageList.length + 1 ∧
        mq'.bytes = mq.bytes + (buffer.getD []).length := by
  obtain ⟨order, pending, holds⟩ := sound.holds
  cases buffer with
  | none => exact Or.inl ⟨einval, rfl⟩
  | some bytes =>
    by_cases fits : mq.attr.msgsize < bytes.length
    · exact Or.inl ⟨emsgsize, by simp [mqSend, fits]⟩
    by_cases priority_ok : mqPrioMax ≤ priority
    · exact Or.inl ⟨einval, by simp [mqSend, fits, priority_ok]⟩
    by_cases full : mq.attr.maxmsg ≤ mq.attr.curmsgs
    · exact Or.inl ⟨eagain, by simp [mqSend, fits, priority_ok, full]⟩
    cases allocated with
    | none => exact Or.inl ⟨enomem, by simp [mqSend, fits, priority_ok, full]⟩
    | some address =>
      have apart : ∀ entry ∈ pending, entry.1 ≠ address := by
        rintro entry mem rfl
        refine fresh entry.1 rfl ?_
        rw [holds.messageList]
        exact mem_map_of_mem (holds.byPriority.mem_iff.mpr mem)
      obtain ⟨mq', order', linked, holds'⟩ :=
        holds.link ⟨priority, bytes.length, bytes⟩ apart (Nat.lt_of_not_le full) rfl
          (Nat.le_of_not_lt fits)
      obtain ⟨name, msgsize⟩ := mqLink_keeps linked
      refine Or.inr ⟨mq', by simp [mqSend, fits, priority_ok, full, linked],
        ⟨⟨_, _, holds'⟩, msgsize ▸ sound.msgsize⟩, name, ?_, ?_⟩
      · simp [holds'.length, holds.length]
      · simp [holds'.bytes, holds.bytes]

/-- Nothing is received, or there is one message less. -/
theorem receive (sound : mq.Sound) (hasBuffer : Bool) (len : ℕ) :
    (∃ e, mqReceive hasBuffer len mq = some (.error e, mq)) ∨
      ∃ received mq', mqReceive hasBuffer len mq = some (.ok received, mq') ∧ mq'.Sound ∧
        mq'.name = mq.name ∧ mq'.messageList.length + 1 = mq.messageList.length ∧
        mq'.bytes + min received.length len = mq.bytes := by
  obtain ⟨order, pending, holds⟩ := sound.holds
  cases hasBuffer with
  | false => exact Or.inl ⟨einval, rfl⟩
  | true =>
    by_cases fits : mq.attr.msgsize ≤ len
    swap
    · exact Or.inl ⟨emsgsize, by simp [mqReceive, Nat.lt_of_not_le fits]⟩
    by_cases some_left : pending = []
    · subst some_left
      exact Or.inl ⟨eagain, holds.receive_nil fits⟩
    obtain ⟨earlier, x, later, mq', order', rfl, _, _, taken, holds', name, msgsize⟩ :=
      holds.receive_cons fits some_left
    have sized := holds.sized x (holds.byPriority.mem_iff.mpr (by simp))
    refine Or.inr ⟨x.2.received, mq', taken, ⟨⟨_, _, holds'⟩, msgsize ▸ sound.msgsize⟩, name,
      ?_, ?_⟩
    · simp only [holds'.length, holds.length, length_append, length_cons]
      omega
    -- the whole message is copied
    have whole : min x.2.received.length len = x.2.size := by
      show min x.2.data.length len = _
      rw [← sized.1]
      exact Nat.min_eq_left (sized.2.trans fits)
    simp only [holds'.bytes, holds.bytes, whole, map_append, map_cons, sum_append, sum_cons]
    omega

end Mqueue.Sound

end

/-! ## Freeing the messages -/

/-- The loop of `mq_unlink` gets to the end of the list. -/
theorem drainMessages_returns {order : List MqEntry}
    (ring : links.Ring .messages (order.map MqEntry.node)) (short : order.length < 2 ^ 32) :
    ∃ links', drainMessages links = some links' := by
  -- the rank is the number of messages that are left
  have drained := loop_ranked drainPass
    (fun k s => ∃ rest : List MqEntry, rest.length = k ∧
      s.1.Ring .messages (rest.map MqEntry.node) ∧
      s.2 = (rest.map MqEntry.node).headD .messages)
    (fun _ => True) ?_ (2 ^ 32) order.length (links, links.next .messages)
    ⟨order, rfl, ring, ring.next_head⟩ short
  · obtain ⟨links', left, _⟩ := drained
    exact ⟨links', left⟩
  rintro k ⟨links, node⟩ ⟨rest, rfl, ring, at_first⟩
  cases rest with
  | nil =>
    obtain rfl : node = .messages := at_first
    exact Or.inr ⟨links, rfl, trivial⟩
  | cons entry rest =>
    obtain rfl : node = .message entry.1 := at_first
    have cut : links.Ring .messages ([] ++ MqNode.message entry.1 :: rest.map MqEntry.node) :=
      ring
    obtain ⟨links', taken, ring', _⟩ := listDel_spec cut (null_notMem_nodes rest)
    refine Or.inl ⟨(links', links.next (.message entry.1)), rest.length, ?_, by simp, rest, rfl,
      ring', cut.next_mem⟩
    show (listDel .null links (.message entry.1)).map _ = _
    rw [taken, map_some]

/-! ## The system -/

namespace MqSystem

variable {s : MqSystem} {i : ℕ} {q q' : ManagedQueue}

theorem mqueueFind_eq_none_iff : mqueueFind name s.manager = none ↔ name ∉ s.names := by
  simp [mqueueFind, manager, names]

theorem mqueueFind_eq_some (found : mqueueFind name s.manager = some i) :
    ∃ q, s.queues[i]? = some q ∧ q.queue.name = name := by
  obtain ⟨inside, same, _⟩ := findIdx?_eq_some_iff_getElem.mp found
  have inside : i < s.queues.length := by simpa [manager] using inside
  exact ⟨s.queues[i], getElem?_eq_getElem inside, by simpa [manager] using same⟩

variable {handle : ℕ}

theorem slot_of_live (live : ∃ q ∈ s.queues, q.address = handle) :
    ∃ i q, s.slot handle = some (i, q) ∧ s.queues[i]? = some q := by
  cases found : s.queues.findIdx? fun q => q.address = handle with
  | none =>
    obtain ⟨q, mem, same⟩ := live
    have := findIdx?_eq_none_iff.mp found q mem
    simp [same] at this
  | some i =>
    obtain ⟨inside, _⟩ := findIdx?_eq_some_iff_getElem.mp found
    have here := getElem?_eq_getElem inside
    exact ⟨i, s.queues[i], by rw [slot, found, bind_some, here, map_some], here⟩

/-- An update that keeps the name of its queue keeps the names. -/
theorem names_set (here : s.queues[i]? = some q) (same : q'.queue.name = q.queue.name) :
    (s.queues.set i q').map (fun q => q.queue.name) = s.names := by
  refine ext_getElem? fun j => ?_
  simp only [names, getElem?_map, getElem?_set]
  by_cases at_i : i = j
  · subst at_i
    obtain ⟨inside, rfl⟩ := List.getElem?_eq_some_iff.mp here
    simp [inside, same]
  · rw [if_neg at_i]

/-- What the calls keep: every queue is in order, and the totals are right. -/
structure Sound (s : MqSystem) : Prop where
  queues : ∀ q ∈ s.queues, q.queue.Sound
  counted : s.queueCount = s.queues.length
  few : s.queues.length ≤ mqMaxQueues
  messages : s.totalMessages = (s.queues.map fun q => q.queue.messageList.length).sum
  bytes : s.totalBytes = (s.queues.map fun q => q.queue.bytes).sum

namespace Sound

theorem init : mqueueInit.Sound where
  queues := by simp [mqueueInit]
  counted := rfl
  few := Nat.zero_le _
  messages := rfl
  bytes := rfl

section

variable (sound : s.Sound)
include sound

theorem totalMessages_le : s.totalMessages ≤ mqMaxQueues * mqMaxMessages := by
  rw [sound.messages]
  exact (sum_map_le fun q mem => (sound.queues q mem).length_le).trans
    (Nat.mul_le_mul_right _ sound.few)

theorem totalBytes_le : s.totalBytes ≤ mqMaxQueues * (mqMaxMessages * mqMaxMsgSize) := by
  rw [sound.bytes]
  exact (sum_map_le fun q mem => (sound.queues q mem).bytes_le).trans
    (Nat.mul_le_mul_right _ sound.few)

/-- One queue changes, and the totals with it. -/
theorem set (here : s.queues[i]? = some q) (sound' : q'.queue.Sound) {m b : ℕ}
    (messages : m + q.queue.messageList.length = s.totalMessages + q'.queue.messageList.length)
    (bytes : b + q.queue.bytes = s.totalBytes + q'.queue.bytes) :
    Sound ⟨s.queues.set i q', s.queueCount, m, b⟩ where
  queues := by
    intro other mem
    rcases mem_or_eq_of_mem_set mem with before | rfl
    · exact sound.queues other before
    · exact sound'
  counted := by rw [length_set, sound.counted]
  few := by rw [length_set]; exact sound.few
  messages := by
    have change := sum_map_set (fun q => q.queue.messageList.length) here q'
    have := sound.messages
    dsimp only at *
    omega
  bytes := by
    have change := sum_map_set (fun q => q.queue.bytes) here q'
    have := sound.bytes
    dsimp only at *
    omega

/-- A change that is not to the messages. -/
theorem set_same (here : s.queues[i]? = some q) (same : q'.queue = q.queue) :
    Sound { s with queues := s.queues.set i q' } := by
  refine sound.set here ?_ (by rw [same]) (by rw [same])
  rw [same]
  exact sound.queues q (mem_of_getElem? here)

theorem send {allocated : Option ℕ} (buffer : Option (List (BitVec 8)))
    (priority : ℕ) (live : ∃ q ∈ s.queues, q.address = handle)
    (fresh : ∀ address ∈ allocated, ∀ q ∈ s.queues, address ∉ q.queue.messageList) :
    ∃ result s', s.send handle allocated buffer priority = some (result, s') ∧ s'.Sound ∧
      s'.names = s.names := by
  obtain ⟨i, q, slot, here⟩ := slot_of_live live
  have mem := mem_of_getElem? here
  rcases (sound.queues q mem).send buffer priority
      (fun address given => fresh address given q mem) with
    ⟨e, sent⟩ | ⟨queue, sent, sound', name, length, bytes⟩
  · refine ⟨.error e, { s with queues := s.queues.set i q }, ?_, sound.set_same here rfl,
      names_set here rfl⟩
    simp [MqSystem.send, slot, sent]
  have messages_small := sound.totalMessages_le
  have bytes_small := sound.totalBytes_le
  have queue_small := sound'.bytes_le
  simp only [mqMaxQueues, mqMaxMessages, mqMaxMsgSize] at messages_small bytes_small queue_small
  refine ⟨.ok (), ⟨s.queues.set i { q with queue }, s.queueCount, s.totalMessages + 1,
    s.totalBytes + (buffer.getD []).length⟩, ?_,
    sound.set here sound' (by dsimp only; omega) (by dsimp only; omega), names_set here name⟩
  simp only [MqSystem.send, slot, bind_some, sent, map_some]
  rw [u64_of_lt (by omega), u64_of_lt (by omega)]

theorem receive (hasBuffer : Bool) (len : ℕ) (live : ∃ q ∈ s.queues, q.address = handle) :
    ∃ result s', s.receive handle hasBuffer len = some (result, s') ∧ s'.Sound ∧
      s'.names = s.names := by
  obtain ⟨i, q, slot, here⟩ := slot_of_live live
  have mem := mem_of_getElem? here
  rcases (sound.queues q mem).receive hasBuffer len with
    ⟨e, taken⟩ | ⟨received, queue, taken, sound', name, length, bytes⟩
  · refine ⟨.error e, { s with queues := s.queues.set i q }, ?_, sound.set_same here rfl,
      names_set here rfl⟩
    simp [MqSystem.receive, slot, taken]
  have messages_small := sound.totalMessages_le
  have bytes_small := sound.totalBytes_le
  simp only [mqMaxQueues, mqMaxMessages, mqMaxMsgSize] at messages_small bytes_small
  -- the totals include this queue
  have messages_ge : q.queue.messageList.length ≤ s.totalMessages := by
    rw [sound.messages]
    exact le_sum_map (fun q : ManagedQueue => q.queue.messageList.length) mem
  have bytes_ge : q.queue.bytes ≤ s.totalBytes := by
    rw [sound.bytes]
    exact le_sum_map (fun q : ManagedQueue => q.queue.bytes) mem
  refine ⟨.ok received, ⟨s.queues.set i { q with queue }, s.queueCount, s.totalMessages - 1,
    s.totalBytes - min received.length len⟩, ?_,
    sound.set here sound' (by dsimp only; omega) (by dsimp only; omega), names_set here name⟩
  simp only [MqSystem.receive, slot, bind_some, taken, map_some]
  rw [sub64_of_le (by omega) (by omega), sub64_of_le (by omega) (by omega)]

theorem close (live : ∃ q ∈ s.queues, q.address = handle) :
    ∃ s', s.close handle = some s' ∧ s'.Sound ∧ s'.names = s.names := by
  obtain ⟨i, q, slot, here⟩ := slot_of_live live
  refine ⟨{ s with queues := s.queues.set i { q with refcount := q.refcount - 1 } }, ?_,
    sound.set_same here rfl, names_set here rfl⟩
  rw [MqSystem.close, slot, map_some]

/-- A queue without messages is added. -/
theorem create (empty : ∀ a ∈ attr, a.curmsgs = 0) (room : s.queueCount < mqMaxQueues) :
    Sound
      { s with
        queues := s.queues ++ [⟨address, mqCreate name oflag attr links memory, 1⟩]
        queueCount := u32 (s.queueCount + 1) } where
  queues := by
    exact forall_mem_append.mpr ⟨sound.queues, forall_mem_singleton.mpr (mqCreate_sound empty)⟩
  counted := by
    have : mqMaxQueues < 2 ^ 32 := by decide
    rw [u32_of_lt (by omega), sound.counted, length_append, length_singleton]
  few := by
    have := sound.counted
    rw [length_append, length_singleton]
    omega
  messages := by simp [sound.messages, mqCreate_messageList]
  bytes := by simp [sound.bytes, Mqueue.bytes, mqCreate_messageList]

/-- A queue without messages is removed. -/
theorem remove (here : s.queues[i]? = some q) (empty : q.queue.messageList = []) :
    Sound { s with queues := s.queues.eraseIdx i, queueCount := sub32 s.queueCount 1 } where
  queues := fun other mem => sound.queues other (mem_of_mem_eraseIdx mem)
  counted := by
    obtain ⟨inside, -⟩ := List.getElem?_eq_some_iff.mp here
    have few := sound.few
    have : mqMaxQueues < 2 ^ 32 := by decide
    rw [sound.counted, sub32_of_le (by omega) (by omega), length_eraseIdx_of_lt inside]
  few := (eraseIdx_sublist ..).length_le.trans sound.few
  messages := by
    have change := sum_map_eraseIdx (fun q => q.queue.messageList.length) here
    rw [empty, length_nil, Nat.zero_add] at change
    exact sound.messages.trans change.symm
  bytes := by
    have change := sum_map_eraseIdx (fun q => q.queue.bytes) here
    have none_left : q.queue.bytes = 0 := by simp [Mqueue.bytes, empty]
    rw [none_left, Nat.zero_add] at change
    exact sound.bytes.trans change.symm

end

end Sound

/-- `mq_open` changes no more than a reference count, or creates a queue. -/
theorem openQueue_cases (address : ℕ) (allocated : Option (Links MqNode × (ℕ → MqMessage)))
    (name : Option (List (BitVec 8))) (oflag : BitVec 32) (attr : Option MqAttr) (s : MqSystem) :
    (s.openQueue address allocated name oflag attr).2 = s ∨
      (∃ i q, s.queues[i]? = some q ∧ (s.openQueue address allocated name oflag attr).2 =
        { s with queues := s.queues.set i { q with refcount := u32 (q.refcount + 1) } }) ∨
      ∃ bytes links memory, name = some bytes ∧ allocated = some (links, memory) ∧
        s.manager.Creates allocated bytes oflag := by
  rcases mqOpen_cases allocated name oflag attr s.manager with
    nothing | ⟨i, inside, found⟩ | creates
  · exact Or.inl (by simp [openQueue, nothing])
  · have inside : i < s.queues.length := by simpa [manager] using inside
    have here := getElem?_eq_getElem inside
    exact Or.inr (Or.inl ⟨i, s.queues[i], here, by simp [openQueue, found, here]⟩)
  · exact Or.inr (Or.inr creates)

theorem openQueue_of_creates (creates : s.manager.Creates (some (links, memory)) name oflag) :
    (s.openQueue address (some (links, memory)) (some name) oflag attr).2 =
      { s with
        queues := s.queues ++ [⟨address, mqCreate name oflag attr links memory, 1⟩]
        queueCount := u32 (s.queueCount + 1) } := by
  have length : s.manager.queues.length = s.queues.length := length_map ..
  have nothing : s.queues[s.queues.length]? = none := by simp
  simp only [openQueue, mqOpen_of_creates creates, length, nothing]
  rw [← length, drop_left]
  rfl

/-- The names left when a queue is removed. -/
theorem names_eraseIdx (here : s.queues[i]? = some q) :
    (q.queue.name :: (s.queues.eraseIdx i).map fun q => q.queue.name).Perm s.names :=
  (perm_eraseIdx here).map fun q : ManagedQueue => q.queue.name

end MqSystem

/-! ## Runs -/

/-- The invariant of good runs. -/
structure MqInv (s : MqRun) : Prop where
  sound : s.system.Sound
  unlinked : ∀ name ∈ s.gone, name ∉ s.system.names

theorem MqInv.accounted {s : MqRun} (inv : MqInv s) : MqAccounted s where
  curmsgs := fun q mem => (inv.sound.queues q mem).counted
  messages := inv.sound.messages
  bytes := inv.sound.bytes
  unlinked := fun name mem => MqSystem.mqueueFind_eq_none_iff.mpr (inv.unlinked name mem)

/-- Where the queues and their names stay, so do the names that are gone. -/
theorem MqInv.same_names {s : MqRun} (inv : MqInv s) {system : MqSystem} (sound : system.Sound)
    (names : system.names = s.system.names) : MqInv ⟨system, s.gone⟩ where
  sound := sound
  unlinked := by rw [names]; exact inv.unlinked

/-- The state after a queue is created. -/
theorem mqSystemStep_create {s : MqRun}
    (creates : s.system.manager.Creates (some (links, memory)) name oflag) :
    mqSystemStep s (.openQueue address (some (links, memory)) (some name) oflag attr) =
      some
        ⟨{ s.system with
            queues := s.system.queues ++ [⟨address, mqCreate name oflag attr links memory, 1⟩]
            queueCount := u32 (s.system.queueCount + 1) },
          s.gone.filter fun other => some other ≠ some name⟩ := by
  simp [mqSystemStep, MqSystem.openQueue_of_creates creates]

/-- The state after a queue without handles is removed. -/
theorem mqSystemStep_remove {s : MqRun} (inv : MqInv s) {i : ℕ} {q : ManagedQueue}
    (found : mqueueFind name s.system.manager = some i) (here : s.system.queues[i]? = some q)
    (closed : q.refcount = 0) :
    mqSystemStep s (.unlink name) =
      some
        ⟨{ s.system with
            queues := s.system.queues.eraseIdx i
            queueCount := sub32 s.system.queueCount 1 },
          name :: s.gone⟩ := by
  obtain ⟨order, pending, holds⟩ := (inv.sound.queues q (mem_of_getElem? here)).holds
  have short : order.length < 2 ^ 32 := by
    have := holds.byPriority.length_eq
    have := holds.bounded.trans holds.limit
    have : mqMaxMessages < 2 ^ 32 := by decide
    omega
  obtain ⟨links, drained⟩ := drainMessages_returns holds.ring short
  simp [mqSystemStep, MqSystem.unlink, found, here, closed, drained]

/-- Good calls return and keep the invariant. -/
theorem mqSystemStep_keeps (s : MqRun) (call : MqSystemCall) (inv : MqInv s)
    (legal : mqSystemLegal s call) (good : MqGood s call) :
    ∃ s', mqSystemStep s call = some s' ∧ MqInv s' := by
  cases call with
  | openQueue address allocated name oflag attr =>
    rcases s.system.openQueue_cases address allocated name oflag attr with
      same | ⟨i, q, here, opened⟩ | ⟨bytes, links, memory, rfl, rfl, creates⟩
    · refine ⟨s, ?_, inv⟩
      simp [mqSystemStep, same]
    · have counted : ({ q with refcount := u32 (q.refcount + 1) } : ManagedQueue).queue = q.queue :=
        rfl
      refine ⟨⟨_, s.gone⟩, ?_, inv.same_names (inv.sound.set_same here counted)
        (MqSystem.names_set here rfl)⟩
      simp [mqSystemStep, opened, length_set]
    · obtain ⟨empty, distinct⟩ := good bytes rfl creates
      refine ⟨_, mqSystemStep_create creates, inv.sound.create empty creates.few, ?_⟩
      intro other mem
      obtain ⟨gone, apart⟩ := mem_filter.mp mem
      have apart : other ≠ bytes := by simpa using apart
      have new : other ≠ bytes.take 63 := by
        rintro rfl
        rcases distinct with short | fresh
        · exact apart (take_of_length_le short)
        · exact fresh gone
      simpa [MqSystem.names, mqCreate, new] using inv.unlinked other gone
  | send handle allocated buffer priority =>
    obtain ⟨result, system, sent, sound, names⟩ := inv.sound.send buffer priority legal.1 legal.2
    exact ⟨_, by simp [mqSystemStep, sent], inv.same_names sound names⟩
  | receive handle hasBuffer len =>
    obtain ⟨result, system, taken, sound, names⟩ := inv.sound.receive hasBuffer len legal
    exact ⟨_, by simp [mqSystemStep, taken], inv.same_names sound names⟩
  | close handle =>
    obtain ⟨system, closed, sound, names⟩ := inv.sound.close legal
    exact ⟨_, by simp [mqSystemStep, closed], inv.same_names sound names⟩
  | unlink name =>
    cases found : mqueueFind name s.system.manager with
    | none =>
      refine ⟨s, ?_, inv⟩
      simp [mqSystemStep, MqSystem.unlink, found]
    | some i =>
      obtain ⟨q, here, rfl⟩ := MqSystem.mqueueFind_eq_some found
      obtain ⟨closed, empty, alone⟩ := good i found q here
      refine ⟨_, mqSystemStep_remove inv found here closed, inv.sound.remove here empty, ?_⟩
      have names := MqSystem.names_eraseIdx here
      intro other mem
      rcases mem_cons.mp mem with rfl | before
      · rw [← names.count_eq, count_cons_self, Nat.add_eq_right] at alone
        exact count_eq_zero.mp alone
      · exact fun left => inv.unlinked other before (names.mem_iff.mp (mem_cons_of_mem _ left))

/-- A call that is not good leaves a counter that is wrong, or a name that is found. -/
theorem mqSystemStep_breaks (s : MqRun) (call : MqSystemCall) (inv : MqInv s)
    (_legal : mqSystemLegal s call) (bad : ¬MqGood s call) (s' : MqRun)
    (stepped : mqSystemStep s call = some s') : ¬MqAccounted s' := by
  intro accounted
  apply bad
  cases call with
  | send handle allocated buffer priority => trivial
  | receive handle hasBuffer len => trivial
  | close handle => trivial
  | openQueue address allocated name oflag attr =>
    intro bytes given creates
    obtain rfl : name = some bytes := given
    obtain ⟨⟨links, memory⟩, rfl⟩ := isSome_iff_exists.mp creates.memory
    obtain rfl := Option.some.inj ((mqSystemStep_create creates).symm.trans stepped)
    constructor
    · intro a given
      obtain rfl : attr = some a := given
      have counted := accounted.curmsgs _ (mem_append_right _ mem_cons_self)
      rwa [mqCreate_messageList] at counted
    by_contra long
    obtain ⟨long, gone⟩ := not_or.mp long
    have kept : bytes.take 63 ∈ s.gone.filter fun other => some other ≠ some bytes := by
      refine mem_filter.mpr ⟨not_not.mp gone, ?_⟩
      have cut : bytes.take 63 ≠ bytes := fun same => long (by
        rw [← same, length_take]
        exact Nat.min_le_left _ _)
      simpa using cut
    have absent := MqSystem.mqueueFind_eq_none_iff.mp (accounted.unlinked _ kept)
    simp [MqSystem.names, mqCreate] at absent
  | unlink name =>
    intro i found q here
    obtain ⟨q', here', rfl⟩ := MqSystem.mqueueFind_eq_some found
    obtain rfl : q' = q := mem_unique here' here
    have found : mqueueFind q'.queue.name s.system.manager = some i := found
    have closed : q'.refcount = 0 := by
      by_contra open_
      have result : mqSystemStep s (.unlink q'.queue.name) =
          some ⟨s.system, q'.queue.name :: s.gone⟩ := by
        simp [mqSystemStep, MqSystem.unlink, found, here', Nat.pos_of_ne_zero open_]
      obtain rfl := mem_unique result stepped
      have absent := accounted.unlinked _ mem_cons_self
      rw [found] at absent
      exact absurd absent (by simp)
    obtain rfl := Option.some.inj ((mqSystemStep_remove inv found here' closed).symm.trans stepped)
    refine ⟨closed, ?_, ?_⟩
    · have change := sum_map_eraseIdx (fun q => q.queue.messageList.length) here'
      have before := inv.sound.messages
      have after := accounted.messages
      dsimp only at change before after
      exact length_eq_zero_iff.mp (by omega)
    · have absent : q'.queue.name ∉ (s.system.queues.eraseIdx i).map fun q => q.queue.name :=
        MqSystem.mqueueFind_eq_none_iff.mp (accounted.unlinked _ mem_cons_self)
      rw [← (MqSystem.names_eraseIdx here').count_eq, count_cons_self, count_eq_zero.mpr absent]

/-- **Message queue accounting and unlink.**  After `mqueue_init`, a sequence of calls on
queues that are on the list keeps all counters right, and unlinked names absent, after
every call exactly if no queue is created with a message count that is not 0 or, with its
name cut off, under the name of one that is gone, and `mq_unlink` is called only on names
that are not there or whose only queue has neither handles nor messages. -/
theorem mq_accounted_iff (calls : List MqSystemCall)
    (legal : Allowed mqSystemStep mqSystemLegal ⟨mqueueInit, []⟩ calls) :
    Throughout mqSystemStep MqAccounted ⟨mqueueInit, []⟩ calls ↔
      Allowed mqSystemStep MqGood ⟨mqueueInit, []⟩ calls :=
  throughout_iff_allowed MqInv (fun _ inv => inv.accounted) mqSystemStep_keeps mqSystemStep_breaks
    calls _ ⟨MqSystem.Sound.init, by simp⟩ legal

/-! ### One queue -/

/-- Cleared memory for a new queue. -/
def mqCleared : Option (Links MqNode × (ℕ → MqMessage)) :=
  some (⟨fun _ => .null, fun _ => .null⟩, fun _ => ⟨0, 0, []⟩)

/-- A queue is created, used, closed and unlinked. -/
theorem mq_accounted_round :
    Throughout mqSystemStep MqAccounted ⟨mqueueInit, []⟩
      [.openQueue 1 mqCleared (some [0x2F]) oCreat none, .send 1 (some 2) (some [7, 8]) 0,
        .receive 1 true 8192, .close 1, .unlink [0x2F]] :=
  (mq_accounted_iff _ (by decide +kernel)).mpr (by decide +kernel)

/-- A count of five messages in the attributes is taken over; a name with an open handle is
unlinked and still found; a message is left when its queue is unlinked, and the total still
counts it. -/
theorem mq_miscounted :
    (Allowed mqSystemStep mqSystemLegal ⟨mqueueInit, []⟩
        [.openQueue 1 mqCleared (some [0x2F]) oCreat (some ⟨0, 10, 100, 5⟩)] ∧
      ¬Throughout mqSystemStep MqAccounted ⟨mqueueInit, []⟩
        [.openQueue 1 mqCleared (some [0x2F]) oCreat (some ⟨0, 10, 100, 5⟩)]) ∧
    (Allowed mqSystemStep mqSystemLegal ⟨mqueueInit, []⟩
        [.openQueue 1 mqCleared (some [0x2F]) oCreat none, .unlink [0x2F]] ∧
      ¬Throughout mqSystemStep MqAccounted ⟨mqueueInit, []⟩
        [.openQueue 1 mqCleared (some [0x2F]) oCreat none, .unlink [0x2F]]) ∧
    (Allowed mqSystemStep mqSystemLegal ⟨mqueueInit, []⟩
        [.openQueue 1 mqCleared (some [0x2F]) oCreat none, .send 1 (some 2) (some [7]) 0, .close 1,
          .unlink [0x2F]] ∧
      ¬Throughout mqSystemStep MqAccounted ⟨mqueueInit, []⟩
        [.openQueue 1 mqCleared (some [0x2F]) oCreat none, .send 1 (some 2) (some [7]) 0, .close 1,
          .unlink [0x2F]]) := by
  decide +kernel

end EduOS
