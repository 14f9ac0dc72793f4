import EduOS.Include.Errno
import EduOS.Include.List
import EduOS.Library.Run
import EduOS.Library.StableOrder
import EduOS.Library.Word
import EduOS.Include.Fcntl

/-!
# Message queues

`kernel/ipc/mqueue.c`: a queue keeps its messages on a kernel list.  `mq_send` walks the
list up to the first message of a lower priority and links the new one before it;
`mq_receive` takes the first message.  Neither waits.

A message is known by the address that `kmalloc` gave it, and a list node is the list head
of the queue or the node in a message.  An access that the code makes through anything else
is a fault (`none`).

`mq_priority_fifo` is about any sequence of calls on a queue that `mq_open` created: the
message received is the earliest one sent among those of the highest priority.
-/

namespace EduOS

open Function List

def mqMaxQueues : ℕ := 64

def mqMaxMessages : ℕ := 32

def mqMaxMsgSize : ℕ := 8192

def mqPrioMax : ℕ := 32768

def mqFlagNonblock : BitVec 32 := 0x01

/-- The list nodes of one queue: the head `messages` and the node in a message. -/
inductive MqNode where
  | null
  | messages
  | message (address : ℕ)
deriving DecidableEq

/-- `struct mq_attr` -/
structure MqAttr where
  flags : BitVec 32
  maxmsg : ℕ
  msgsize : ℕ
  curmsgs : ℕ
deriving DecidableEq

/-- `struct mq_message` without its list node. -/
structure MqMessage where
  priority : ℕ
  size : ℕ
  data : List (BitVec 8)
deriving DecidableEq

/-- `struct mqueue`, with the messages in memory. -/
structure Mqueue where
  name : List (BitVec 8)
  flags : BitVec 32
  attr : MqAttr
  links : Links MqNode
  memory : ℕ → MqMessage

/-- `struct mqueue_manager`: the queues in the order of its list. -/
structure MqueueManager where
  queues : List Mqueue
  queueCount : ℕ

/-! ## Opening a queue -/

/-- `mqueue_find` -/
def mqueueFind (name : List (BitVec 8)) (manager : MqueueManager) : Option ℕ :=
  manager.queues.findIdx? fun mq => mq.name = name

/-- The attributes of a new queue. -/
def mqInitialAttr (flags : BitVec 32) : Option MqAttr → MqAttr
  | some attr =>
    { attr with
      maxmsg := if attr.maxmsg = 0 ∨ mqMaxMessages < attr.maxmsg then mqMaxMessages else attr.maxmsg
      msgsize :=
        if attr.msgsize = 0 ∨ mqMaxMsgSize < attr.msgsize then mqMaxMsgSize else attr.msgsize }
  | none =>
    { flags := flags, maxmsg := mqMaxMessages, msgsize := mqMaxMsgSize, curmsgs := 0 }

/-- The queue that `mq_open` sets up, in memory where the links are `links` and the
messages are `memory`. -/
def mqCreate (name : List (BitVec 8)) (oflag : BitVec 32) (attr : Option MqAttr)
    (links : Links MqNode) (memory : ℕ → MqMessage) : Mqueue :=
  let flags := if hasFlag oflag oNonblock then mqFlagNonblock else 0
  { name := name.take 63
    flags := flags
    attr := mqInitialAttr flags attr
    links := initListHead links .messages
    memory := memory }

/-- `mq_open`: the place of the queue on the list of the manager.  `allocated` is what
`kmalloc` gives, if it succeeds. -/
def mqOpen (allocated : Option (Links MqNode × (ℕ → MqMessage))) (name : Option (List (BitVec 8)))
    (oflag : BitVec 32) (attr : Option MqAttr) (manager : MqueueManager) :
    Option ℕ × MqueueManager :=
  match name with
  | none => (none, manager)
  | some name =>
    if name.head? ≠ some 0x2F then (none, manager)
    else
      match mqueueFind name manager with
      | some i =>
        if hasFlag oflag oCreat && hasFlag oflag oExcl then (none, manager)
        else (some i, manager)
      | none =>
        if !hasFlag oflag oCreat then (none, manager)
        else if mqMaxQueues ≤ manager.queueCount then (none, manager)
        else
          match allocated with
          | none => (none, manager)
          | some (links, memory) =>
            (some manager.queues.length,
              { queues := manager.queues ++ [mqCreate name oflag attr links memory]
                queueCount := u32 (manager.queueCount + 1) })

/-! ## Sending and receiving -/

/-- One pass of the loop of `mq_send` over the list. -/
def insertPass (priority : ℕ) (mq : Mqueue) : MqNode → Option (MqNode ⊕ MqNode)
  | .null => none
  | .messages => some (Sum.inr .messages)
  | .message address =>
    if (mq.memory address).priority < priority then some (Sum.inr (.message address))
    else some (Sum.inl (mq.links.next (.message address)))

/-- The node that the new message is linked before. -/
def insertPosition (priority : ℕ) (mq : Mqueue) : Option MqNode :=
  loop (insertPass priority mq) (2 ^ 32) (mq.links.next .messages)

/-- The part of `mq_send` after the checks, for a message at `address`. -/
def mqLink (address : ℕ) (message : MqMessage) (mq : Mqueue) : Option Mqueue :=
  let mq :=
    { mq with
      memory := update mq.memory address message
      links := initListHead mq.links (.message address) }
  (insertPosition message.priority mq).bind fun pos =>
    (listAddTail .null mq.links (.message address) pos).map fun links =>
      { mq with
        links := links
        attr := { mq.attr with curmsgs := u32 (mq.attr.curmsgs + 1) } }

/-- `mq_send` of the bytes in a buffer; `allocated` is the address that `kmalloc` returns.
A full queue is refused in both modes. -/
def mqSend (allocated : Option ℕ) (buffer : Option (List (BitVec 8))) (priority : ℕ)
    (mq : Mqueue) : Option (Except ℕ Unit × Mqueue) :=
  match buffer with
  | none => some (.error einval, mq)
  | some bytes =>
    if mq.attr.msgsize < bytes.length then some (.error emsgsize, mq)
    else if mqPrioMax ≤ priority then some (.error einval, mq)
    else if mq.attr.maxmsg ≤ mq.attr.curmsgs then some (.error eagain, mq)
    else
      match allocated with
      | none => some (.error enomem, mq)
      | some address =>
        (mqLink address ⟨priority, bytes.length, bytes⟩ mq).map fun mq => (.ok (), mq)

/-- What `mq_receive` gives: the bytes in the buffer, the priority and the length it
returns. -/
structure MqReceived where
  bytes : List (BitVec 8)
  priority : ℕ
  length : ℕ
deriving DecidableEq

/-- `mq_receive` into a buffer of `len` bytes. -/
def mqReceive (hasBuffer : Bool) (len : ℕ) (mq : Mqueue) : Option (Except ℕ MqReceived × Mqueue) :=
  if !hasBuffer then some (.error einval, mq)
  else if len < mq.attr.msgsize then some (.error emsgsize, mq)
  else if mq.attr.curmsgs = 0 then some (.error eagain, mq)
  else
    match mq.links.next .messages with
    | .message address =>
      let message := mq.memory address
      (listDel .null mq.links (.message address)).map fun links =>
        (.ok ⟨message.data.take (min message.size len), message.priority, message.size⟩,
          { mq with
            links := links
            attr := { mq.attr with curmsgs := sub32 mq.attr.curmsgs 1 } })
    | _ => none

/-! ## The messages on the list -/

/-- A message and where it is. -/
abbrev MqEntry := ℕ × MqMessage

/-- The list node of an entry. -/
def MqEntry.node (entry : MqEntry) : MqNode := .message entry.1

/-- The priority of an entry. -/
def MqEntry.key (entry : MqEntry) : ℕ := entry.2.priority

/-- The messages of the queue are those of `pending`, which are in the order they were
sent; its list has them in the order of service, the next one first. -/
structure Mqueue.Holds (mq : Mqueue) (order pending : List MqEntry) : Prop where
  ring : mq.links.Ring .messages (order.map MqEntry.node)
  stored : ∀ entry ∈ order, mq.memory entry.1 = entry.2
  sized : ∀ entry ∈ order, entry.2.size = entry.2.data.length ∧ entry.2.size ≤ mq.attr.msgsize
  byPriority : ByPriority MqEntry.key order pending
  counted : mq.attr.curmsgs = pending.length
  bounded : pending.length ≤ mq.attr.maxmsg
  limit : mq.attr.maxmsg ≤ mqMaxMessages

variable {mq : Mqueue} {order pending : List MqEntry}

theorem null_notMem_nodes (order : List MqEntry) :
    MqNode.null ∉ MqNode.messages :: order.map MqEntry.node := by
  simp [MqEntry.node]

theorem mqInitialAttr_maxmsg_le (flags : BitVec 32) (attr : Option MqAttr) :
    (mqInitialAttr flags attr).maxmsg ≤ mqMaxMessages := by
  cases attr with
  | none => exact le_rfl
  | some attr =>
    simp only [mqInitialAttr]
    split <;> omega

variable {oflag : BitVec 32} {attr : Option MqAttr} {links : Links MqNode} {memory : ℕ → MqMessage}
    {len : ℕ}

/-- A new queue is empty, unless the caller says otherwise. -/
theorem mqCreate_holds {name : List (BitVec 8)} (empty : ∀ a ∈ attr, a.curmsgs = 0) :
    (mqCreate name oflag attr links memory).Holds [] [] where
  ring := initListHead_ring links .messages
  stored := by simp
  sized := by simp
  byPriority := ByPriority.nil
  counted := by
    cases attr with
    | none => rfl
    | some a => exact empty a rfl
  bounded := Nat.zero_le _
  limit := mqInitialAttr_maxmsg_le _ attr

/-- `mq_open` has a queue to create. -/
@[mk_iff]
structure MqueueManager.Creates (manager : MqueueManager)
    (allocated : Option (Links MqNode × (ℕ → MqMessage))) (name : List (BitVec 8))
    (oflag : BitVec 32) : Prop where
  slash : name.head? = some 0x2F
  absent : mqueueFind name manager = none
  creat : hasFlag oflag oCreat = true
  few : manager.queueCount < mqMaxQueues
  memory : allocated.isSome = true

theorem mqOpen_of_creates {name : List (BitVec 8)} {manager : MqueueManager}
    (creates : manager.Creates (some (links, memory)) name oflag) :
    mqOpen (some (links, memory)) (some name) oflag attr manager =
      (some manager.queues.length,
        ⟨manager.queues ++ [mqCreate name oflag attr links memory],
          u32 (manager.queueCount + 1)⟩) := by
  simp [mqOpen, creates.slash, creates.absent, creates.creat, Nat.not_le.mpr creates.few]

/-- `mq_open` gives nothing, a queue that is there, or a new one at the end of the list. -/
theorem mqOpen_cases (allocated : Option (Links MqNode × (ℕ → MqMessage)))
    (name : Option (List (BitVec 8))) (oflag : BitVec 32) (attr : Option MqAttr)
    (manager : MqueueManager) :
    mqOpen allocated name oflag attr manager = (none, manager) ∨
      (∃ i, i < manager.queues.length ∧
        mqOpen allocated name oflag attr manager = (some i, manager)) ∨
      ∃ bytes links memory, name = some bytes ∧ allocated = some (links, memory) ∧
        manager.Creates allocated bytes oflag := by
  cases name with
  | none => exact Or.inl rfl
  | some bytes =>
    by_cases slash : bytes.head? = some 0x2F
    swap
    · exact Or.inl (by simp only [mqOpen, ne_eq, slash, not_false_eq_true, if_true])
    cases found : mqueueFind bytes manager with
    | some i =>
      obtain ⟨inside, _⟩ := findIdx?_eq_some_iff_getElem.mp found
      by_cases exclusive : (hasFlag oflag oCreat && hasFlag oflag oExcl) = true
      · refine Or.inl ?_
        simp only [mqOpen, slash, ne_eq, not_true_eq_false, if_false, found, if_pos exclusive]
      · refine Or.inr (Or.inl ⟨i, inside, ?_⟩)
        simp only [mqOpen, slash, ne_eq, not_true_eq_false, if_false, found, if_neg exclusive]
    | none =>
      by_cases creat : hasFlag oflag oCreat = true
      swap
      · exact Or.inl (by simp [mqOpen, slash, found, creat])
      by_cases few : manager.queueCount < mqMaxQueues
      swap
      · exact Or.inl (by simp [mqOpen, slash, found, creat, Nat.le_of_not_lt few])
      cases allocated with
      | none => exact Or.inl (by simp [mqOpen, slash, found, creat, Nat.not_le.mpr few])
      | some block => exact Or.inr (Or.inr ⟨bytes, block.1, block.2, rfl, rfl, slash, found,
          creat, few, rfl⟩)

/-- A queue that `mq_open` adds to the list is a new one. -/
theorem mqOpen_created {name : Option (List (BitVec 8))} {manager manager' : MqueueManager}
    (opened : mqOpen (some (links, memory)) name oflag attr manager =
      (some manager.queues.length, manager'))
    (created : manager'.queues[manager.queues.length]? = some mq) :
    ∃ name, mq = mqCreate name oflag attr links memory := by
  rcases mqOpen_cases (some (links, memory)) name oflag attr manager with
    nothing | ⟨i, inside, found⟩ | ⟨bytes, _, _, rfl, same, creates⟩
  · rw [nothing] at opened
    simp at opened
  · -- a queue that was found has a place on the old list
    rw [found] at opened
    obtain ⟨rfl, _⟩ : i = manager.queues.length ∧ manager = manager' := by simpa using opened
    exact absurd inside (lt_irrefl _)
  · rw [mqOpen_of_creates creates] at opened
    cases opened
    exact ⟨bytes, by simpa using created.symm⟩

/-- The walk of `mq_send` stops before the first message of a lower priority. -/
theorem insertPosition_spec (priority : ℕ) (ring : mq.links.Ring .messages (order.map MqEntry.node))
    (stored : ∀ entry ∈ order, mq.memory entry.1 = entry.2) (short : order.length < 2 ^ 32) :
    ∃ front back, order = front ++ back ∧ (∀ y ∈ front, priority ≤ y.key) ∧
      (∀ y ∈ back.head?, y.key < priority) ∧
      insertPosition priority mq = some ((back.map MqEntry.node).headD .messages) := by
  -- the rank is the number of messages that the walk has before it
  have walk := loop_ranked (insertPass priority mq)
    (fun k pos => ∃ front back, order = front ++ back ∧ back.length = k ∧
      (∀ y ∈ front, priority ≤ MqEntry.key y) ∧ pos = (back.map MqEntry.node).headD .messages)
    (fun pos => ∃ front back, order = front ++ back ∧ (∀ y ∈ front, priority ≤ MqEntry.key y) ∧
      (∀ y ∈ back.head?, MqEntry.key y < priority) ∧
      pos = (back.map MqEntry.node).headD .messages)
    ?_ (2 ^ 32) order.length (mq.links.next .messages)
    ⟨[], order, rfl, rfl, by simp, ring.next_head⟩ short
  · obtain ⟨pos, left, front, back, split, above, lower, rfl⟩ := walk
    exact ⟨front, back, split, above, lower, left⟩
  rintro k pos ⟨front, back, split, rfl, above, rfl⟩
  cases back with
  | nil => exact Or.inr ⟨.messages, rfl, front, [], split, above, by simp, rfl⟩
  | cons y back =>
    have here : mq.memory y.1 = y.2 := stored y (by simp [split])
    by_cases lower : y.2.priority < priority
    · refine Or.inr ⟨y.node, ?_, front, y :: back, split, above, ?_, rfl⟩
      · show insertPass priority mq (.message y.1) = _
        rw [insertPass, here, if_pos lower]
        rfl
      · intro z first
        obtain rfl : y = z := by simpa using first
        exact lower
    · refine Or.inl ⟨(back.map MqEntry.node).headD .messages, back.length, ?_, by simp,
        front ++ [y], back, by simp [split], rfl, ?_, rfl⟩
      · have after : mq.links.next y.node = (back.map MqEntry.node).headD .messages := by
          have cut : mq.links.Ring .messages
              (front.map MqEntry.node ++ y.node :: back.map MqEntry.node) := by
            simpa [split] using ring
          exact cut.next_mem
        show insertPass priority mq (.message y.1) = _
        rw [insertPass, here, if_neg lower]
        exact congrArg (fun node => some (Sum.inl node)) after
      · exact forall_mem_append.mpr ⟨above, forall_mem_singleton.mpr (Nat.le_of_not_lt lower)⟩

/-- Linking a message in keeps the list in the order of service. -/
theorem Mqueue.Holds.link {address : ℕ} (message : MqMessage) (holds : mq.Holds order pending)
    (fresh : ∀ entry ∈ pending, entry.1 ≠ address) (room : mq.attr.curmsgs < mq.attr.maxmsg)
    (size_eq : message.size = message.data.length) (size_le : message.size ≤ mq.attr.msgsize) :
    ∃ mq' order', mqLink address message mq = some mq' ∧
      mq'.Holds order' (pending ++ [(address, message)]) := by
  obtain ⟨ring, stored, sized, byPriority, counted, bounded, limit⟩ := holds
  have fresh : ∀ entry ∈ order, entry.1 ≠ address := fun entry mem =>
    fresh entry (byPriority.mem_iff.mp mem)
  have absent : MqNode.message address ∉ MqNode.messages :: order.map MqEntry.node := by
    intro mem
    rcases mem_cons.mp mem with bad | mem
    · cases bad
    · obtain ⟨entry, entry_mem, same⟩ := mem_map.mp mem
      exact fresh entry entry_mem (MqNode.message.inj same)
  have short : order.length < 2 ^ 32 := by
    have := byPriority.length_eq
    have : mqMaxMessages < 2 ^ 32 := by decide
    omega
  let mq₁ : Mqueue :=
    { mq with
      memory := update mq.memory address message
      links := initListHead mq.links (.message address) }
  have ring₁ : mq₁.links.Ring .messages (order.map MqEntry.node) :=
    ring.of_sameLinks fun x mem => initListHead_sameLinks (by
      rintro rfl
      exact absent mem)
  have stored₁ : ∀ entry ∈ order, mq₁.memory entry.1 = entry.2 := by
    intro entry mem
    show update mq.memory address message entry.1 = entry.2
    rw [update_of_ne (fresh entry mem), stored entry mem]
  obtain ⟨front, back, rfl, above, lower, position⟩ :=
    insertPosition_spec message.priority ring₁ stored₁ short
  have below : ∀ y ∈ back, y.key < message.priority := by
    cases back with
    | nil => simp
    | cons z back =>
      have first : z.key < message.priority := lower z rfl
      have sorted := (pairwise_append.mp byPriority.sorted).2.1
      exact forall_mem_cons.mpr ⟨first, fun y mem =>
        lt_of_le_of_lt ((pairwise_cons.mp sorted).1 y mem) first⟩
  rw [map_append] at ring₁ absent
  have nonnull := null_notMem_nodes (front ++ back)
  rw [map_append] at nonnull
  obtain ⟨links, added, ring', _⟩ := listAddTail_spec ring₁ nonnull absent
  have few : pending.length + 1 ≤ mq.attr.maxmsg := by omega
  refine ⟨{ mq₁ with
    links := links, attr := { mq.attr with curmsgs := u32 (mq.attr.curmsgs + 1) } },
    front ++ (address, message) :: back, ?_, ?_⟩
  · show (insertPosition message.priority mq₁).bind _ = _
    rw [position, Option.bind_some, added]
    rfl
  refine ⟨?_, ?_, ?_, byPriority.insert above below, ?_, by simpa using few, limit⟩
  · rw [map_append, map_cons]
    exact ring'
  · obtain ⟨ahead, behind⟩ := forall_mem_append.mp stored₁
    exact forall_mem_append.mpr ⟨ahead, forall_mem_cons.mpr ⟨update_self .., behind⟩⟩
  · obtain ⟨ahead, behind⟩ := forall_mem_append.mp sized
    exact forall_mem_append.mpr ⟨ahead, forall_mem_cons.mpr ⟨⟨size_eq, size_le⟩, behind⟩⟩
  · have : mqMaxMessages < 2 ^ 32 := by decide
    show u32 (mq.attr.curmsgs + 1) = (pending ++ [(address, message)]).length
    rw [u32_of_lt (by omega), counted, length_append, length_singleton]

/-- With no message on the list there is nothing to receive. -/
theorem Mqueue.Holds.receive_nil (holds : mq.Holds order []) (fits : mq.attr.msgsize ≤ len) :
    mqReceive true len mq = some (.error eagain, mq) := by
  have none_left : mq.attr.curmsgs = 0 := holds.counted
  simp [mqReceive, Nat.not_lt.mpr fits, none_left]

/-- What `mq_receive` gives of a message. -/
def MqMessage.received (message : MqMessage) : MqReceived :=
  ⟨message.data, message.priority, message.data.length⟩

/-- The message received is the earliest one of the highest priority. -/
theorem Mqueue.Holds.receive_cons (holds : mq.Holds order pending) (fits : mq.attr.msgsize ≤ len)
    (some_left : pending ≠ []) :
    ∃ earlier x later mq' order', pending = earlier ++ x :: later ∧
      (∀ y ∈ earlier, y.key < x.key) ∧ (∀ y ∈ later, y.key ≤ x.key) ∧
      mqReceive true len mq = some (.ok x.2.received, mq') ∧
      mq'.Holds order' (earlier ++ later) ∧ mq'.name = mq.name ∧
      mq'.attr.msgsize = mq.attr.msgsize := by
  obtain ⟨ring, stored, sized, byPriority, counted, bounded, limit⟩ := holds
  cases order with
  | nil =>
    have length := byPriority.length_eq
    exact absurd (length_eq_zero_iff.mp length.symm) some_left
  | cons x order =>
    obtain ⟨earlier, later, rfl, before, after, rest⟩ := byPriority.first
    have counted : mq.attr.curmsgs = (earlier ++ later).length + 1 := by
      rw [counted]
      simp only [length_append, length_cons]
      omega
    have first : mq.links.next .messages = .message x.1 := ring.next_head
    have nonnull := null_notMem_nodes order
    have cut : mq.links.Ring .messages ([] ++ MqNode.message x.1 :: order.map MqEntry.node) := ring
    obtain ⟨links, taken, ring', _⟩ := listDel_spec cut nonnull
    have here : mq.memory x.1 = x.2 := stored x mem_cons_self
    obtain ⟨size_eq, size_le⟩ := sized x mem_cons_self
    have room : (earlier ++ later).length + 1 ≤ mq.attr.maxmsg := by
      omega
    have fewer : sub32 mq.attr.curmsgs 1 = (earlier ++ later).length := by
      have : mqMaxMessages < 2 ^ 32 := by decide
      rw [counted, sub32_of_le (by omega) (by omega), Nat.add_sub_cancel]
    refine ⟨earlier, x, later,
      { mq with links := links, attr := { mq.attr with curmsgs := (earlier ++ later).length } },
      order, rfl, before, after, ?_, ?_, rfl, rfl⟩
    · have whole : x.2.data.take (min x.2.size len) = x.2.data := by
        rw [Nat.min_eq_left (size_le.trans fits), size_eq, take_length]
      have some_counted : mq.attr.curmsgs ≠ 0 := by omega
      rw [mqReceive, if_neg (by decide), if_neg (Nat.not_lt.mpr fits), if_neg some_counted, fewer]
      simp only [first, taken, here, whole, Option.map_some, MqMessage.received]
      rw [size_eq]
    · exact ⟨ring', fun entry mem => stored entry (mem_cons_of_mem _ mem),
        fun entry mem => sized entry (mem_cons_of_mem _ mem), rest, rfl,
        Nat.le_of_succ_le room, limit⟩

/-! ## Sequences of calls -/

/-- A call on the queue.  A send comes with the address that `kmalloc` gives it. -/
inductive MqCall where
  | send (address : ℕ) (bytes : List (BitVec 8)) (priority : ℕ)
  | receive (len : ℕ)

/-- A queue, and the messages sent and not yet received, in the order they were sent. -/
structure MqLog where
  queue : Mqueue
  pending : List MqEntry

/-- The place of the message to be received next: the first one that no other exceeds. -/
def nextPending (pending : List MqEntry) : ℕ :=
  pending.findIdx fun x => pending.all fun y => y.key ≤ x.key

/-- A call that succeeds adds to the pending messages, or takes the next one. -/
def mqStep (s : MqLog) : MqCall → Option MqLog
  | .send address bytes priority =>
    (mqSend (some address) (some bytes) priority s.queue).map fun
      | (.ok _, queue) => ⟨queue, s.pending ++ [(address, ⟨priority, bytes.length, bytes⟩)]⟩
      | (.error _, queue) => ⟨queue, s.pending⟩
  | .receive len =>
    (mqReceive true len s.queue).map fun
      | (.ok _, queue) => ⟨queue, s.pending.eraseIdx (nextPending s.pending)⟩
      | (.error _, queue) => ⟨queue, s.pending⟩

/-- `kmalloc` gives no memory that is in use, and a buffer is large enough for any message
of the queue. -/
def mqLegal (s : MqLog) : MqCall → Prop
  | .send address _ _ => ∀ entry ∈ s.pending, entry.1 ≠ address
  | .receive len => s.queue.attr.msgsize ≤ len

instance (s : MqLog) : (call : MqCall) → Decidable (mqLegal s call)
  | .send address _ _ => inferInstanceAs (Decidable (∀ entry ∈ s.pending, entry.1 ≠ address))
  | .receive _ => inferInstanceAs (Decidable (_ ≤ _))

theorem eraseIdx_nextPending {earlier later : List MqEntry} {x : MqEntry}
    (before : ∀ y ∈ earlier, y.key < x.key) (after : ∀ y ∈ later, y.key ≤ x.key) :
    (earlier ++ x :: later).eraseIdx (nextPending (earlier ++ x :: later)) = earlier ++ later := by
  have place : nextPending (earlier ++ x :: later) = earlier.length := by
    have passed : ∀ z ∈ earlier,
        ((earlier ++ x :: later).all fun y => decide (y.key ≤ z.key)) = false := by
      intro z mem
      refine all_eq_false.mpr ⟨x, by simp, ?_⟩
      simpa using before z mem
    have found : ((earlier ++ x :: later).all fun y => decide (y.key ≤ x.key)) = true := by
      refine all_eq_true.mpr fun y mem => decide_eq_true ?_
      rcases mem_append.mp mem with mem | mem
      · exact Nat.le_of_lt (before y mem)
      · rcases mem_cons.mp mem with rfl | mem
        · exact le_rfl
        · exact after y mem
    have none_before : earlier.findIdx
        (fun z => (earlier ++ x :: later).all fun y => decide (y.key ≤ z.key)) = earlier.length :=
      findIdx_eq_length.mpr passed
    rw [nextPending, findIdx_append, none_before, if_neg (lt_irrefl _), findIdx_cons, found]
    simp
  rw [place, eraseIdx_append_of_length_le le_rfl, Nat.sub_self, eraseIdx_cons_zero]

/-- A message that fits is taken by a queue with room. -/
theorem mqStep_send {s : MqLog} {order : List MqEntry} {address priority : ℕ}
    {bytes : List (BitVec 8)} (holds : s.queue.Holds order s.pending)
    (fresh : ∀ entry ∈ s.pending, entry.1 ≠ address)
    (fits : ¬s.queue.attr.msgsize < bytes.length) (priority_ok : ¬mqPrioMax ≤ priority)
    (room : ¬s.queue.attr.maxmsg ≤ s.queue.attr.curmsgs) :
    ∃ queue order', mqStep s (.send address bytes priority) =
        some ⟨queue, s.pending ++ [(address, ⟨priority, bytes.length, bytes⟩)]⟩ ∧
      queue.Holds order' (s.pending ++ [(address, ⟨priority, bytes.length, bytes⟩)]) := by
  obtain ⟨queue, order', linked, holds'⟩ := holds.link ⟨priority, bytes.length, bytes⟩ fresh
    (Nat.lt_of_not_le room) rfl (Nat.le_of_not_lt fits)
  exact ⟨queue, order', by simp [mqStep, mqSend, fits, priority_ok, room, linked], holds'⟩

theorem mqStep_receive {s : MqLog} {order : List MqEntry} (holds : s.queue.Holds order s.pending)
    (fits : s.queue.attr.msgsize ≤ len) (some_left : s.pending ≠ []) :
    ∃ earlier x later queue order', s.pending = earlier ++ x :: later ∧
      (∀ y ∈ earlier, y.key < x.key) ∧ (∀ y ∈ later, y.key ≤ x.key) ∧
      mqReceive true len s.queue = some (.ok x.2.received, queue) ∧
      mqStep s (.receive len) = some ⟨queue, earlier ++ later⟩ ∧
      queue.Holds order' (earlier ++ later) := by
  obtain ⟨earlier, x, later, queue, order', split, before, after, received, holds', _⟩ :=
    holds.receive_cons fits some_left
  refine ⟨earlier, x, later, queue, order', split, before, after, received, ?_, holds'⟩
  rw [mqStep, received, Option.map_some, split, eraseIdx_nextPending before after]

/-- One call keeps the order of service. -/
theorem mqStep_holds (s : MqLog) (call : MqCall)
    (inv : ∃ order, s.queue.Holds order s.pending) (legal : mqLegal s call) :
    ∃ s', mqStep s call = some s' ∧ ∃ order, s'.queue.Holds order s'.pending := by
  obtain ⟨order, holds⟩ := inv
  cases call with
  | send address bytes priority =>
    by_cases fits : s.queue.attr.msgsize < bytes.length
    · exact ⟨s, by simp [mqStep, mqSend, fits], order, holds⟩
    by_cases priority_ok : mqPrioMax ≤ priority
    · exact ⟨s, by simp [mqStep, mqSend, fits, priority_ok], order, holds⟩
    by_cases full : s.queue.attr.maxmsg ≤ s.queue.attr.curmsgs
    · exact ⟨s, by simp [mqStep, mqSend, fits, priority_ok, full], order, holds⟩
    obtain ⟨queue, order', stepped, holds'⟩ := mqStep_send holds legal fits priority_ok full
    exact ⟨_, stepped, order', holds'⟩
  | receive len =>
    by_cases none_left : s.pending = []
    · have refused := Mqueue.Holds.receive_nil (none_left ▸ holds) legal
      exact ⟨s, by rw [mqStep, refused, Option.map_some], order, holds⟩
    · obtain ⟨_, _, _, queue, order', _, _, _, _, stepped, holds'⟩ :=
        mqStep_receive holds legal none_left
      exact ⟨_, stepped, order', holds'⟩

/-- **Messages are received by priority, and in the order sent within a priority.**  After
any calls on a queue that `mq_open` created empty, `mq_receive` fails with `EAGAIN` if all
the messages sent have been received, and otherwise gives the earliest one sent among those
of the highest priority, which is then no longer pending.  `mq_curmsgs` counts the pending
messages. -/
theorem mq_priority_fifo (links : Links MqNode) (memory : ℕ → MqMessage)
    (name : Option (List (BitVec 8))) (oflag : BitVec 32) (attr : Option MqAttr)
    (manager manager' : MqueueManager) (queue : Mqueue) (calls : List MqCall)
    (opened : mqOpen (some (links, memory)) name oflag attr manager =
      (some manager.queues.length, manager'))
    (created : manager'.queues[manager.queues.length]? = some queue)
    (empty : ∀ a ∈ attr, a.curmsgs = 0) (allowed : Allowed mqStep mqLegal ⟨queue, []⟩ calls) :
    ∃ s, exec mqStep ⟨queue, []⟩ calls = some s ∧
      s.queue.attr.curmsgs = s.pending.length ∧ s.queue.attr.curmsgs ≤ s.queue.attr.maxmsg ∧
      ∀ len, s.queue.attr.msgsize ≤ len →
        (s.pending = [] → mqReceive true len s.queue = some (.error eagain, s.queue)) ∧
        (s.pending ≠ [] → ∃ earlier x later queue', s.pending = earlier ++ x :: later ∧
          (∀ y ∈ earlier, y.2.priority < x.2.priority) ∧
          (∀ y ∈ later, y.2.priority ≤ x.2.priority) ∧
          mqReceive true len s.queue =
            some (.ok ⟨x.2.data, x.2.priority, x.2.data.length⟩, queue') ∧
          mqStep s (.receive len) = some ⟨queue', earlier ++ later⟩) := by
  have start : ∃ order, queue.Holds order [] := by
    obtain ⟨name, rfl⟩ := mqOpen_created opened created
    exact ⟨[], mqCreate_holds empty⟩
  obtain ⟨s, ran, order, holds⟩ :=
    exec_total (fun s : MqLog => ∃ order, s.queue.Holds order s.pending)
    mqStep_holds calls ⟨queue, []⟩ start allowed
  refine ⟨s, ran, holds.counted, holds.counted.trans_le holds.bounded, ?_⟩
  intro len fits
  constructor
  · intro none_left
    exact Mqueue.Holds.receive_nil (none_left ▸ holds) fits
  · intro some_left
    obtain ⟨earlier, x, later, queue', _, split, before, after, received, stepped, _⟩ :=
      mqStep_receive holds fits some_left
    exact ⟨earlier, x, later, queue', split, before, after, received, stepped⟩

/-- A new queue with the name `/`, in cleared memory. -/
def rootQueue : Mqueue :=
  mqCreate [0x2F] oCreat none ⟨fun _ => .null, fun _ => .null⟩ fun _ => ⟨0, 0, []⟩

/-- Two messages, of which the second one is urgent and received first. -/
theorem mq_priority_fifo_two :
    ∃ s queue', exec mqStep ⟨rootQueue, []⟩ [.send 1 [7] 0, .send 2 [8, 9] 5] = some s ∧
      s.pending = [(1, ⟨0, 1, [7]⟩), (2, ⟨5, 2, [8, 9]⟩)] ∧
      mqReceive true 8192 s.queue = some (.ok ⟨[8, 9], 5, 2⟩, queue') := by
  obtain ⟨s, ran, -, -, receives⟩ := mq_priority_fifo _ _ (some [0x2F]) oCreat none ⟨[], 0⟩
    ⟨[rootQueue], 1⟩ rootQueue [.send 1 [7] 0, .send 2 [8, 9] 5] rfl rfl (by simp)
    (by decide +kernel)
  have pending : s.pending = [(1, ⟨0, 1, [7]⟩), (2, ⟨5, 2, [8, 9]⟩)] := by
    cases ran
    rfl
  obtain ⟨earlier, x, later, queue', split, -, after, received, -⟩ :=
    (receives 8192 (by cases ran; decide)).2 (by simp [pending])
  refine ⟨s, queue', ran, pending, ?_⟩
  rw [pending] at split
  rcases earlier with _ | ⟨_, _ | ⟨_, _⟩⟩
  · cases split
    exact absurd (after _ mem_cons_self) (by decide)
  · cases split
    exact received
  · simp at split

end EduOS
