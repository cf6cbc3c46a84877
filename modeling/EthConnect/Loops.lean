import EthConnect.SetComplete

/-!
# The goroutines of a Kafka bridge

`ConsumerMessagesLoop`, `ProducerSuccessLoop` and `ProducerErrorLoop` share the bridge
under the lock of `inFlightCond`; the processor replies to the contexts it is handed;
the broker delivers messages and the producer acknowledges or fails the replies.  A
`System` holds the bridge, where the consumer loop is, the replies not yet answered,
and what the outside sees: every reply enqueued, every `MarkOffset` and `OnMessage`
call.  An `Action` is one atomic step.  The capacity wait of the consumer loop is the
guard of its `addInflight` step: while the map is full the loop stays at `received`,
with the lock released, so the producer loops can run.
-/

namespace EthConnect

/-- `msgContext.Reply`: stamp the reply with a fresh ID and the request's context, ID
and `reqOffset`, keep it as the context's `replyBytes`, and build the message for
`producer.Input()`, keyed by the context's key with its `reqOffset` as metadata. -/
def reply (k : KafkaBridge) (p : Nat) (replyMessage : ReplyWithHeaders) (uuid : String) :
    KafkaBridge × ProducerMessage :=
  let c := k.heap p
  let stamped := { replyMessage with headers := { replyMessage.headers with
    id := uuid, context := c.requestCommon.headers.context,
    reqID := c.requestCommon.headers.id, reqOffset := c.reqOffset } }
  (k.modify p (fun c => { c with replyBytes := some stamped }) fun _ => rfl,
    { topic := k.conf.kafka.topicOut, key := c.key, metadata := c.reqOffset, value := p })

section Reply

variable (k : KafkaBridge) (p : Nat) (replyMessage : ReplyWithHeaders) (uuid : String)

@[simp] theorem reply_conf : (reply k p replyMessage uuid).1.conf = k.conf :=
  rfl

@[simp] theorem reply_inFlight : (reply k p replyMessage uuid).1.inFlight = k.inFlight :=
  rfl

@[simp] theorem reply_pointers : (reply k p replyMessage uuid).1.pointers = k.pointers :=
  rfl

@[simp] theorem reply_allocated : (reply k p replyMessage uuid).1.allocated = k.allocated :=
  rfl

theorem reply_snd : (reply k p replyMessage uuid).2 =
    { topic := k.conf.kafka.topicOut, key := (k.heap p).key,
      metadata := (k.heap p).reqOffset, value := p } :=
  rfl

theorem reply_heap (q : Nat) : (reply k p replyMessage uuid).1.heap q =
    { k.heap q with replyBytes := ((reply k p replyMessage uuid).1.heap q).replyBytes } := by
  simp only [reply, KafkaBridge.modify_heap]
  split_ifs with same <;> simp [same]

theorem reply_heap_of_ne {q : Nat} (other : q ≠ p) :
    (reply k p replyMessage uuid).1.heap q = k.heap q := by
  simp [reply, KafkaBridge.modify_heap, other]

theorem reply_replyBytes_body :
    ((reply k p replyMessage uuid).1.heap p).replyBytes.map ReplyWithHeaders.body =
      some replyMessage.body := by
  simp [reply, KafkaBridge.modify_heap]

@[simp] theorem reply_complete (q : Nat) :
    ((reply k p replyMessage uuid).1.heap q).complete = (k.heap q).complete := by
  rw [reply_heap]

@[simp] theorem reply_saramaMsg (q : Nat) :
    ((reply k p replyMessage uuid).1.heap q).saramaMsg = (k.heap q).saramaMsg := by
  rw [reply_heap]

@[simp] theorem reply_reqOffset (q : Nat) :
    ((reply k p replyMessage uuid).1.heap q).reqOffset = (k.heap q).reqOffset := by
  rw [reply_heap]

@[simp] theorem reply_partitionOf (q : Nat) :
    (reply k p replyMessage uuid).1.partitionOf q = k.partitionOf q := by
  simp [KafkaBridge.partitionOf]

@[simp] theorem reply_offsetOf (q : Nat) :
    (reply k p replyMessage uuid).1.offsetOf q = k.offsetOf q := by
  simp [KafkaBridge.offsetOf]

end Reply

/-- Where `ConsumerMessagesLoop` is: ranging over `consumer.Messages()`, holding a
message before the lock and the capacity wait, or past `addInflightMsg`, with the
`msgCtx, err` it returned and the lock released. -/
inductive ConsumerLoop
  | receiving
  | received (msg : ConsumerMessage)
  | dispatching (msg : ConsumerMessage) (msgCtx : Option Nat) (err : Option String)
  deriving DecidableEq

/-- The two `panic`s that end the process: `ProducerErrorLoop`'s when the producer
failed to send a reply, and `ProducerSuccessLoop`'s on a confirmation for a message not
in the in-flight map. -/
inductive Panic
  | producerError (failed : ProducerMessage)
  | notInFlight (err : String)
  deriving DecidableEq

/-- A running bridge with its environment. -/
structure System where
  bridge : KafkaBridge
  consumer : ConsumerLoop
  pending : List ProducerMessage
  sent : List ProducerMessage
  marked : List ConsumerMessage
  dispatched : List Nat
  panicked : Option Panic

/-- One atomic step of the bridge or of its environment: the broker delivers a message;
the consumer loop calls `addInflightMsg` under the lock, with room in the map, and then,
unlocked, hands the context on or replies with an error; the processor calls `Reply` on
a context it was handed; the producer acknowledges a reply, which the success loop
handles iterating the map in `order`, or reports that sending it failed. -/
inductive Action
  | receive (msg : ConsumerMessage)
  | addInflight (uuid : String)
  | dispatch (uuid : String)
  | processorReply (ctx : Nat) (replyMessage : ReplyWithHeaders) (uuid : String)
  | success (pm : ProducerMessage) (order : List (Σ _ : String, Nat))
  | error (pm : ProducerMessage)

namespace System

/-- A fresh bridge whose consumer loop waits for the first message. -/
def init (conf : KafkaBridgeConf) : System where
  bridge := KafkaBridge.new conf
  consumer := .receiving
  pending := []
  sent := []
  marked := []
  dispatched := []
  panicked := none

/-- Write a reply to `producer.Input()`. -/
def enqueue (s : System) (replied : KafkaBridge × ProducerMessage) : System :=
  { s with bridge := replied.1, pending := s.pending ++ [replied.2],
           sent := s.sent ++ [replied.2] }

@[simp] theorem enqueue_bridge (s : System) (replied : KafkaBridge × ProducerMessage) :
    (s.enqueue replied).bridge = replied.1 :=
  rfl

@[simp] theorem enqueue_pending (s : System) (replied : KafkaBridge × ProducerMessage) :
    (s.enqueue replied).pending = s.pending ++ [replied.2] :=
  rfl

@[simp] theorem enqueue_sent (s : System) (replied : KafkaBridge × ProducerMessage) :
    (s.enqueue replied).sent = s.sent ++ [replied.2] :=
  rfl

@[simp] theorem enqueue_dispatched (s : System) (replied : KafkaBridge × ProducerMessage) :
    (s.enqueue replied).dispatched = s.dispatched :=
  rfl

@[simp] theorem enqueue_marked (s : System) (replied : KafkaBridge × ProducerMessage) :
    (s.enqueue replied).marked = s.marked :=
  rfl

/-- The broker delivers a message of the inbound topic, the only one the consumer
reads. -/
def receive (s : System) (msg : ConsumerMessage) : Option System :=
  match s.consumer with
  | .receiving =>
      if msg.topic = s.bridge.conf.kafka.topicIn then
        some { s with consumer := .received msg }
      else none
  | _ => none

/-- `for len(k.inFlight) >= k.conf.MaxInFlight { Wait() }`, then `addInflightMsg`. -/
def addInflight (s : System) (uuid : String) : Option System :=
  match s.consumer with
  | .received msg =>
      if (s.bridge.inFlight.entries.length : Int) < s.bridge.conf.maxInFlight then
        let added := addInflightMsg s.bridge msg uuid
        some { s with bridge := added.1, consumer := .dispatching msg added.2.1 added.2.2 }
      else none
  | _ => none

/-- A duplicate is dropped, a parsed context goes to `processor.OnMessage`, and a
context whose headers failed to decode gets a generic error reply. -/
def dispatch (s : System) (uuid : String) : Option System :=
  match s.consumer with
  | .dispatching _ none _ => some { s with consumer := .receiving }
  | .dispatching _ (some p) none =>
      some { s with consumer := .receiving, dispatched := s.dispatched ++ [p] }
  | .dispatching msg (some p) (some err) =>
      some { s.enqueue (reply s.bridge p (newErrorReply err msg.value) uuid) with
        consumer := .receiving }
  | _ => none

/-- The processor replies to a context it was handed, as often as it likes. -/
def processorReply (s : System) (p : Nat) (replyMessage : ReplyWithHeaders)
    (uuid : String) : Option System :=
  if p ∈ s.dispatched then some (s.enqueue (reply s.bridge p replyMessage uuid)) else none

/-- The error of `ProducerSuccessLoop` for metadata missing from the map. -/
def notInFlightError (reqOffset : String) : String :=
  "Received confirmation for message not in in-flight map: " ++ reqOffset

/-- `ProducerSuccessLoop` handles the acknowledgement of `pm`. -/
def success (s : System) (pm : ProducerMessage) (order : List (Σ _ : String, Nat)) :
    Option System :=
  if pm ∈ s.pending then
    match s.bridge.inFlight.lookup pm.metadata with
    | none =>
        some { s with pending := s.pending.erase pm,
                      panicked := some (.notInFlight (notInFlightError pm.metadata)) }
    | some p =>
        if order.Perm s.bridge.inFlight.entries then
          let completed := setInFlightComplete s.bridge p order
          some { s with bridge := completed.1, pending := s.pending.erase pm,
                        marked := s.marked ++ completed.2.toList }
        else none
  else none

/-- `ProducerErrorLoop` handles the failure of `pm`. -/
def error (s : System) (pm : ProducerMessage) : Option System :=
  if pm ∈ s.pending then
    some { s with pending := s.pending.erase pm, panicked := some (.producerError pm) }
  else none

/-- One step; nothing runs after a panic. -/
def step (s : System) (a : Action) : Option System :=
  if s.panicked.isSome then none else
    match a with
    | .receive msg => s.receive msg
    | .addInflight uuid => s.addInflight uuid
    | .dispatch uuid => s.dispatch uuid
    | .processorReply p replyMessage uuid => s.processorReply p replyMessage uuid
    | .success pm order => s.success pm order
    | .error pm => s.error pm

/-- Run a list of steps in order, each one only if `check` allows it. -/
def run (check : System → Action → Bool) : System → List Action → Option System
  | s, [] => some s
  | s, a :: rest => if check s a then (s.step a).bind (run check · rest) else none

/-! ## What each step can do -/

section Steps

variable {s s' : System}

theorem step_panicked {a : Action} (stepped : s.step a = some s') : s.panicked = none := by
  unfold step at stepped
  split_ifs at stepped with dead
  simpa using dead

theorem receive_eq_some {msg : ConsumerMessage} (stepped : s.receive msg = some s') :
    s.consumer = .receiving ∧ msg.topic = s.bridge.conf.kafka.topicIn ∧
      s' = { s with consumer := .received msg } := by
  unfold receive at stepped
  split at stepped
  · split_ifs at stepped with topic
    exact ⟨‹_›, topic, (Option.some.inj stepped).symm⟩
  · cases stepped

theorem addInflight_eq_some {uuid : String} (stepped : s.addInflight uuid = some s') :
    ∃ msg, s.consumer = .received msg ∧
      (s.bridge.inFlight.entries.length : Int) < s.bridge.conf.maxInFlight ∧
      s' = { s with bridge := (addInflightMsg s.bridge msg uuid).1,
                    consumer := .dispatching msg (addInflightMsg s.bridge msg uuid).2.1
                      (addInflightMsg s.bridge msg uuid).2.2 } := by
  unfold addInflight at stepped
  split at stepped
  · split_ifs at stepped with room
    exact ⟨_, ‹_›, room, (Option.some.inj stepped).symm⟩
  · cases stepped

theorem dispatch_eq_some {uuid : String} (stepped : s.dispatch uuid = some s') :
    (∃ msg err, s.consumer = .dispatching msg none err ∧
      s' = { s with consumer := .receiving }) ∨
    (∃ msg p, s.consumer = .dispatching msg (some p) none ∧
      s' = { s with consumer := .receiving, dispatched := s.dispatched ++ [p] }) ∨
    (∃ msg p err, s.consumer = .dispatching msg (some p) (some err) ∧
      s' = { s.enqueue (reply s.bridge p (newErrorReply err msg.value) uuid) with
        consumer := .receiving }) := by
  unfold dispatch at stepped
  split at stepped
  · exact .inl ⟨_, _, ‹_›, (Option.some.inj stepped).symm⟩
  · exact .inr (.inl ⟨_, _, ‹_›, (Option.some.inj stepped).symm⟩)
  · exact .inr (.inr ⟨_, _, _, ‹_›, (Option.some.inj stepped).symm⟩)
  · cases stepped

theorem processorReply_eq_some {p : Nat} {replyMessage : ReplyWithHeaders} {uuid : String}
    (stepped : s.processorReply p replyMessage uuid = some s') :
    p ∈ s.dispatched ∧ s' = s.enqueue (reply s.bridge p replyMessage uuid) := by
  unfold processorReply at stepped
  split_ifs at stepped with handed
  exact ⟨handed, (Option.some.inj stepped).symm⟩

theorem success_eq_some {pm : ProducerMessage} {order : List (Σ _ : String, Nat)}
    (stepped : s.success pm order = some s') :
    pm ∈ s.pending ∧
    ((s.bridge.inFlight.lookup pm.metadata = none ∧
      s' = { s with pending := s.pending.erase pm,
                    panicked := some (.notInFlight (notInFlightError pm.metadata)) }) ∨
     (∃ p, s.bridge.inFlight.lookup pm.metadata = some p ∧
      order.Perm s.bridge.inFlight.entries ∧
      s' = { s with bridge := (setInFlightComplete s.bridge p order).1,
                    pending := s.pending.erase pm,
                    marked := s.marked ++ (setInFlightComplete s.bridge p order).2.toList })) := by
  unfold success at stepped
  by_cases waiting : pm ∈ s.pending
  · rw [if_pos waiting] at stepped
    refine ⟨waiting, ?_⟩
    split at stepped
    · exact .inl ⟨‹_›, (Option.some.inj stepped).symm⟩
    · by_cases iteration : order.Perm s.bridge.inFlight.entries
      · rw [if_pos iteration] at stepped
        exact .inr ⟨_, ‹_›, iteration, (Option.some.inj stepped).symm⟩
      · rw [if_neg iteration] at stepped
        cases stepped
  · rw [if_neg waiting] at stepped
    cases stepped

theorem error_eq_some {pm : ProducerMessage} (stepped : s.error pm = some s') :
    pm ∈ s.pending ∧
      s' = { s with pending := s.pending.erase pm, panicked := some (.producerError pm) } := by
  unfold error at stepped
  split_ifs at stepped with waiting
  exact ⟨waiting, (Option.some.inj stepped).symm⟩

/-- A step that leaves the map, the configuration, the allocation, every context's
message and flag, and the marks as they were. -/
structure Frame (s s' : System) : Prop where
  inFlight : s'.bridge.inFlight = s.bridge.inFlight
  conf : s'.bridge.conf = s.bridge.conf
  allocated : s'.bridge.allocated = s.bridge.allocated
  saramaMsg : ∀ q, (s'.bridge.heap q).saramaMsg = (s.bridge.heap q).saramaMsg
  complete : ∀ q, (s'.bridge.heap q).complete = (s.bridge.heap q).complete
  marked : s'.marked = s.marked

theorem Frame.of_bridge (bridge : s'.bridge = s.bridge) (marked : s'.marked = s.marked) :
    Frame s s' :=
  ⟨by rw [bridge], by rw [bridge], by rw [bridge], fun _ => by rw [bridge],
    fun _ => by rw [bridge], marked⟩

theorem Frame.of_reply {p : Nat} {replyMessage : ReplyWithHeaders} {uuid : String}
    (bridge : s'.bridge = (reply s.bridge p replyMessage uuid).1)
    (marked : s'.marked = s.marked) : Frame s s' :=
  ⟨by rw [bridge]; rfl, by rw [bridge]; rfl, by rw [bridge]; rfl,
    fun _ => by rw [bridge, reply_saramaMsg], fun _ => by rw [bridge, reply_complete], marked⟩

/-- What a step can do to the bridge and to the marks: leave them alone, admit a new
context, or complete one. -/
theorem step_cases {a : Action} (stepped : s.step a = some s') :
    Frame s s' ∨
    (∃ msg uuid, a = .addInflight uuid ∧ s.consumer = .received msg ∧
      (s.bridge.inFlight.entries.length : Int) < s.bridge.conf.maxInFlight ∧
      ¬ s.bridge.HoldsCoordinate msg ∧
      s'.bridge = s.bridge.insertContext (admittedContext msg uuid) ∧ s'.marked = s.marked) ∨
    (∃ pm order p, a = .success pm order ∧ s.bridge.inFlight.lookup pm.metadata = some p ∧
      order.Perm s.bridge.inFlight.entries ∧
      s'.bridge = (setInFlightComplete s.bridge p order).1 ∧
      s'.marked = s.marked ++ (setInFlightComplete s.bridge p order).2.toList) := by
  unfold step at stepped
  split_ifs at stepped
  cases a with
  | receive _ =>
      obtain ⟨_, _, rfl⟩ := receive_eq_some stepped
      exact .inl (.of_bridge rfl rfl)
  | addInflight uuid =>
      obtain ⟨msg, held, room, rfl⟩ := addInflight_eq_some stepped
      by_cases dup : s.bridge.HoldsCoordinate msg
      · exact .inl (.of_bridge (by simp [addInflightMsg_of_holds uuid dup]) rfl)
      · exact .inr (.inl ⟨msg, uuid, rfl, held, room, dup,
          by simp [addInflightMsg_of_not_holds uuid dup], rfl⟩)
  | dispatch _ =>
      rcases dispatch_eq_some stepped with ⟨_, _, _, rfl⟩ | ⟨_, _, _, rfl⟩ |
        ⟨_, _, _, _, rfl⟩
      · exact .inl (.of_bridge rfl rfl)
      · exact .inl (.of_bridge rfl rfl)
      · exact .inl (.of_reply rfl rfl)
  | processorReply _ _ _ =>
      obtain ⟨_, rfl⟩ := processorReply_eq_some stepped
      exact .inl (.of_reply rfl rfl)
  | success pm order =>
      obtain ⟨_, ⟨_, rfl⟩ | ⟨p, found, iteration, rfl⟩⟩ := success_eq_some stepped
      · exact .inl (.of_bridge rfl rfl)
      · exact .inr (.inr ⟨pm, order, p, rfl, found, iteration, rfl, rfl⟩)
  | error _ =>
      obtain ⟨_, rfl⟩ := error_eq_some stepped
      exact .inl (.of_bridge rfl rfl)

end Steps

end System

/-- The states reached from `init conf` by steps each allowed by `allowed` in the
state it leaves. -/
inductive Reaches (conf : KafkaBridgeConf) (allowed : System → Action → Prop) :
    System → Prop
  | init : Reaches conf allowed (System.init conf)
  | step {s s' : System} {a : Action} :
      Reaches conf allowed s → allowed s a → s.step a = some s' → Reaches conf allowed s'

/-- The states of every run of a bridge with configuration `conf`. -/
def Reachable (conf : KafkaBridgeConf) : System → Prop :=
  Reaches conf fun _ _ => True

theorem Reaches.run {conf : KafkaBridgeConf} {allowed : System → Action → Prop}
    {check : System → Action → Bool} (sound : ∀ s a, check s a = true → allowed s a) :
    ∀ {s s' : System} {actions : List Action}, Reaches conf allowed s →
      s.run check actions = some s' → Reaches conf allowed s'
  | _, _, [], reaches, ran => by
      simp only [System.run, Option.some.injEq] at ran
      exact ran ▸ reaches
  | s, _, a :: rest, reaches, ran => by
      simp only [System.run] at ran
      split_ifs at ran with checked
      obtain ⟨_, stepped, ran⟩ := Option.bind_eq_some.mp ran
      exact Reaches.run sound (reaches.step (sound s a checked) stepped) ran

/-! ## Worked runs -/

/-- The state a run from `init sampleConf` reaches, its steps allowed by `check`. -/
def sampleRun (check : System → Action → Bool) (actions : List Action) : System :=
  ((System.init sampleConf).run check actions).getD (System.init sampleConf)

theorem sampleRun_reaches {allowed : System → Action → Prop} {check : System → Action → Bool}
    (sound : ∀ s a, check s a = true → allowed s a) {actions : List Action}
    (ran : ((System.init sampleConf).run check actions).isSome) :
    Reaches sampleConf allowed (sampleRun check actions) := by
  obtain ⟨s, ran⟩ := Option.isSome_iff_exists.mp ran
  rw [sampleRun, ran]
  exact Reaches.run sound Reaches.init ran

/-- The reply to `sampleRequest offset`, from its context `p`. -/
def sampleReplyTo (offset : Int) (p : Nat) : ProducerMessage :=
  { topic := "out", key := "0xabc", metadata := reqOffsetOf (sampleRequest offset), value := p }

/-- Requests at offsets 10, 11 and 12 of one partition are admitted and replied to, and
their successes arrive for 11, 12 and then 10. -/
def outOfOrderActions : List Action :=
  [.receive (sampleRequest 10), .addInflight "a", .dispatch "b",
   .receive (sampleRequest 11), .addInflight "c", .dispatch "d",
   .receive (sampleRequest 12), .addInflight "e", .dispatch "f",
   .processorReply 0 sampleReply "g", .processorReply 1 sampleReply "h",
   .processorReply 2 sampleReply "i",
   .success (sampleReplyTo 11 1) sampleOrder, .success (sampleReplyTo 12 2) sampleOrder,
   .success (sampleReplyTo 10 0) sampleOrder]

/-- The state after the first `n` steps of `outOfOrderActions`. -/
def outOfOrderState (n : Nat) : System :=
  sampleRun (fun _ _ => true) (outOfOrderActions.take n)

theorem outOfOrderState_reachable {n : Nat}
    (ran : ((System.init sampleConf).run (fun _ _ => true) (outOfOrderActions.take n)).isSome) :
    Reachable sampleConf (outOfOrderState n) :=
  sampleRun_reaches (fun _ _ _ => trivial) ran

end EthConnect
