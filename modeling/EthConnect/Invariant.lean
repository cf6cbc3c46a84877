import EthConnect.Loops

/-!
# The invariant of every run

`System.Wf` collects what holds in every reachable state.  Every context holds a
message of the inbound topic; a context leaves the map only once complete; below every
in-flight context, on its partition, some context is still incomplete; and the
pointers the consumer loop, the processor and the producer hold are allocated, each
reply carrying its context's `reqOffset`.  Since the keys of the map are the contexts'
coordinates, no two in-flight contexts share a partition and an offset
(`Wf.distinctOffsets`), which `setInFlightComplete`'s specification needs.
`Reaches.wf` proves the invariant of every state reached, whatever the steps allowed.
-/

namespace EthConnect

namespace KafkaBridge

theorem lt_allocated {k : KafkaBridge} {p : Nat} (inFlight : p ∈ k.pointers) :
    p < k.allocated := by
  obtain ⟨e, member, rfl⟩ := List.mem_map.mp inFlight
  exact k.allocated_gt e member

/-- Every in-flight context has an incomplete context at or below it on its partition. -/
def IncompleteBelow (k : KafkaBridge) : Prop :=
  ∀ q ∈ k.pointers, ∃ p ∈ k.pointers, k.partitionOf p = k.partitionOf q ∧
    k.offsetOf p ≤ k.offsetOf q ∧ (k.heap p).complete = false

theorem IncompleteBelow.insertContext {k : KafkaBridge} {msg : ConsumerMessage}
    {uuid : String} (fresh : ¬ k.HoldsCoordinate msg) (below : k.IncompleteBelow) :
    (k.insertContext (admittedContext msg uuid)).IncompleteBelow := by
  intro q member
  have old : ∀ p < k.allocated, (k.insertContext (admittedContext msg uuid)).heap p =
      k.heap p := fun p lt => by
    rw [insertContext_heap, if_neg lt.ne]
  rcases (mem_insertContext_pointers uuid fresh).mp member with rfl | inFlight
  · exact ⟨k.allocated, member, rfl, le_rfl, by simp [insertContext_heap]⟩
  · obtain ⟨p, pIn, partition, offset, incomplete⟩ := below q inFlight
    refine ⟨p, (mem_insertContext_pointers uuid fresh).mpr (.inr pIn), ?_, ?_, ?_⟩
    all_goals
      simp only [partitionOf, offsetOf, old p (lt_allocated pIn),
        old q (lt_allocated inFlight)]
    exacts [partition, offset, incomplete]

theorem IncompleteBelow.setInFlightComplete {k : KafkaBridge} {ptr : Nat}
    {order : List (Σ _ : String, Nat)} (iteration : order.Perm k.inFlight.entries)
    (distinct : k.DistinctOffsets) (below : k.IncompleteBelow) :
    (EthConnect.setInFlightComplete k ptr order).1.IncompleteBelow := by
  intro q member
  obtain ⟨inFlight, kept⟩ := (mem_setInFlightComplete_pointers iteration distinct).mp member
  simp only [setInFlightComplete_partitionOf, setInFlightComplete_offsetOf,
    setInFlightComplete_heap]
  by_cases samePartition : k.partitionOf q = k.partitionOf ptr
  · simp only [Ackable, not_and, not_forall, Bool.not_eq_true] at kept
    obtain ⟨p, pIn, partition, offset, incomplete⟩ := kept inFlight samePartition
    exact ⟨p, (mem_setInFlightComplete_pointers iteration distinct).mpr
      ⟨pIn, fun ackable => by simp [ackable.complete] at incomplete⟩,
      partition.trans samePartition.symm, offset, incomplete⟩
  · obtain ⟨p, pIn, partition, offset, incomplete⟩ := below q inFlight
    have other : p ≠ ptr := fun same => samePartition (same ▸ partition).symm
    exact ⟨p, (mem_setInFlightComplete_pointers iteration distinct).mpr
      ⟨pIn, fun ackable => samePartition (partition ▸ ackable.2.1)⟩, partition, offset,
      by simp [setComplete_complete, other, incomplete]⟩

end KafkaBridge

namespace System

/-- The consumer loop holds a message of the inbound topic, and is about to dispatch an
allocated context. -/
def ConsumerOk (s : System) : Prop :=
  match s.consumer with
  | .receiving => True
  | .received msg => msg.topic = s.bridge.conf.kafka.topicIn
  | .dispatching _ msgCtx _ => ∀ p ∈ msgCtx, p < s.bridge.allocated

theorem ConsumerOk.of_bridge {s s' : System} (ok : s.ConsumerOk)
    (consumer : s'.consumer = s.consumer) (conf : s'.bridge.conf = s.bridge.conf)
    (grown : s.bridge.allocated ≤ s'.bridge.allocated) : s'.ConsumerOk := by
  unfold ConsumerOk at ok ⊢
  rw [consumer, conf]
  split at ok
  all_goals first
    | trivial
    | exact ok
    | exact fun p member => lt_of_lt_of_le (ok p member) grown

/-- What every reachable state satisfies. -/
structure Wf (s : System) : Prop where
  topicIn : ∀ p < s.bridge.allocated,
    (s.bridge.heap p).saramaMsg.topic = s.bridge.conf.kafka.topicIn
  settled : ∀ p < s.bridge.allocated, (s.bridge.heap p).complete = true ∨ p ∈ s.bridge.pointers
  incompleteBelow : s.bridge.IncompleteBelow
  consumer : s.ConsumerOk
  dispatched : ∀ p ∈ s.dispatched, p < s.bridge.allocated
  pending : ∀ pm ∈ s.pending,
    pm.value < s.bridge.allocated ∧ pm.metadata = (s.bridge.heap pm.value).reqOffset

variable {s s' : System}

theorem Wf.distinctOffsets (wf : s.Wf) : s.bridge.DistinctOffsets := by
  intro p pIn q qIn partition offset
  apply KafkaBridge.pointer_eq_of_reqOffset_eq pIn qIn
  rw [(s.bridge.heap p).reqOffset_eq, (s.bridge.heap q).reqOffset_eq, reqOffsetOf_eq_iff]
  exact ⟨(wf.topicIn p (KafkaBridge.lt_allocated pIn)).trans
    (wf.topicIn q (KafkaBridge.lt_allocated qIn)).symm, partition, offset⟩

theorem Wf.init (conf : KafkaBridgeConf) : (System.init conf).Wf where
  topicIn := fun _ below => absurd below (Nat.not_lt_zero _)
  settled := fun _ below => absurd below (Nat.not_lt_zero _)
  incompleteBelow := fun _ member => by
    simp [KafkaBridge.pointers, System.init, KafkaBridge.new] at member
  consumer := trivial
  dispatched := fun _ member => by simp [System.init] at member
  pending := fun _ member => by simp [System.init] at member

theorem Wf.enqueue (wf : s.Wf) {p : Nat} (allocated : p < s.bridge.allocated)
    (replyMessage : ReplyWithHeaders) (uuid : String) (consumer : ConsumerLoop)
    (ok : ({ s.enqueue (reply s.bridge p replyMessage uuid) with consumer } : System).ConsumerOk) :
    ({ s.enqueue (reply s.bridge p replyMessage uuid) with consumer } : System).Wf where
  topicIn := by simpa using wf.topicIn
  settled := by simpa using wf.settled
  incompleteBelow := by simpa [KafkaBridge.IncompleteBelow] using wf.incompleteBelow
  consumer := ok
  dispatched := by simpa using wf.dispatched
  pending := fun pm member => by
    simp only [enqueue_pending, List.mem_append, List.mem_singleton] at member
    rcases member with old | rfl
    · simpa using wf.pending pm old
    · simpa [reply_snd] using allocated

theorem Wf.receive (wf : s.Wf) {msg : ConsumerMessage} (stepped : s.receive msg = some s') :
    s'.Wf := by
  obtain ⟨_, topic, rfl⟩ := receive_eq_some stepped
  exact ⟨wf.topicIn, wf.settled, wf.incompleteBelow, topic, wf.dispatched, wf.pending⟩

theorem Wf.addInflight (wf : s.Wf) {uuid : String} (stepped : s.addInflight uuid = some s') :
    s'.Wf := by
  obtain ⟨msg, held, _, rfl⟩ := addInflight_eq_some stepped
  have topic : msg.topic = s.bridge.conf.kafka.topicIn := by
    simpa [ConsumerOk, held] using wf.consumer
  by_cases dup : s.bridge.HoldsCoordinate msg
  · rw [addInflightMsg_of_holds uuid dup]
    exact ⟨wf.topicIn, wf.settled, wf.incompleteBelow, by simp [ConsumerOk], wf.dispatched,
      wf.pending⟩
  · rw [addInflightMsg_of_not_holds uuid dup]
    have old : ∀ p < s.bridge.allocated,
        (s.bridge.insertContext (admittedContext msg uuid)).heap p = s.bridge.heap p :=
      fun p lt => by rw [insertContext_heap, if_neg lt.ne]
    refine ⟨fun p below => ?_, fun p below => ?_,
      KafkaBridge.IncompleteBelow.insertContext dup wf.incompleteBelow,
      by simp [ConsumerOk], fun p member => Nat.lt_succ_of_lt (wf.dispatched p member),
      fun pm member => ?_⟩
    · simp only [KafkaBridge.insertContext_allocated] at below
      rcases Nat.lt_succ_iff_lt_or_eq.mp below with lt | rfl
      · simpa [old p lt] using wf.topicIn p lt
      · simpa [insertContext_heap] using topic
    · simp only [KafkaBridge.insertContext_allocated] at below
      rw [mem_insertContext_pointers uuid dup]
      rcases Nat.lt_succ_iff_lt_or_eq.mp below with lt | rfl
      · rw [old p lt]
        exact (wf.settled p lt).imp_right .inr
      · exact .inr (.inl rfl)
    · obtain ⟨lt, metadata⟩ := wf.pending pm member
      exact ⟨Nat.lt_succ_of_lt lt, by rw [old _ lt, metadata]⟩

theorem Wf.dispatch (wf : s.Wf) {uuid : String} (stepped : s.dispatch uuid = some s') :
    s'.Wf := by
  rcases dispatch_eq_some stepped with
    ⟨_, _, _, rfl⟩ | ⟨_, p, holding, rfl⟩ | ⟨msg, p, err, holding, rfl⟩
  · exact ⟨wf.topicIn, wf.settled, wf.incompleteBelow, trivial, wf.dispatched, wf.pending⟩
  · have allocated : p < s.bridge.allocated := by
      simpa [ConsumerOk, holding] using wf.consumer
    refine ⟨wf.topicIn, wf.settled, wf.incompleteBelow, trivial, fun q member => ?_, wf.pending⟩
    simp only [List.mem_append, List.mem_singleton] at member
    rcases member with old | rfl
    exacts [wf.dispatched q old, allocated]
  · have allocated : p < s.bridge.allocated := by
      simpa [ConsumerOk, holding] using wf.consumer
    exact wf.enqueue allocated _ uuid .receiving trivial

theorem Wf.processorReply (wf : s.Wf) {p : Nat} {replyMessage : ReplyWithHeaders}
    {uuid : String} (stepped : s.processorReply p replyMessage uuid = some s') : s'.Wf := by
  obtain ⟨handed, rfl⟩ := processorReply_eq_some stepped
  exact wf.enqueue (wf.dispatched p handed) replyMessage uuid s.consumer
    (wf.consumer.of_bridge rfl rfl le_rfl)

theorem Wf.success (wf : s.Wf) {pm : ProducerMessage} {order : List (Σ _ : String, Nat)}
    (stepped : s.success pm order = some s') : s'.Wf := by
  obtain ⟨_, ⟨_, rfl⟩ | ⟨p, found, iteration, rfl⟩⟩ := success_eq_some stepped
  · exact ⟨wf.topicIn, wf.settled, wf.incompleteBelow, wf.consumer, wf.dispatched,
      fun pm' member => wf.pending pm' (List.mem_of_mem_erase member)⟩
  · have distinct := wf.distinctOffsets
    refine ⟨fun q below => ?_, fun q below => ?_,
      wf.incompleteBelow.setInFlightComplete iteration distinct,
      wf.consumer.of_bridge rfl setInFlightComplete_conf setInFlightComplete_allocated.ge,
      fun q member => ?_, fun pm' member => ?_⟩
    · simp only [setInFlightComplete_allocated] at below
      simpa [setInFlightComplete_heap, setInFlightComplete_conf] using wf.topicIn q below
    · simp only [setInFlightComplete_allocated] at below
      rw [mem_setInFlightComplete_pointers iteration distinct, setInFlightComplete_heap]
      by_cases ackable : s.bridge.Ackable p q
      · exact .inl ackable.complete
      · rcases wf.settled q below with complete | inFlight
        · exact .inl ((KafkaBridge.setComplete_complete_eq_true _ _ _).mpr (.inr complete))
        · exact .inr ⟨inFlight, ackable⟩
    · simpa [setInFlightComplete_allocated] using wf.dispatched q member
    · simpa [setInFlightComplete_allocated, setInFlightComplete_heap] using
        wf.pending pm' (List.mem_of_mem_erase member)

theorem Wf.error (wf : s.Wf) {pm : ProducerMessage} (stepped : s.error pm = some s') :
    s'.Wf := by
  obtain ⟨_, rfl⟩ := error_eq_some stepped
  exact ⟨wf.topicIn, wf.settled, wf.incompleteBelow, wf.consumer, wf.dispatched,
    fun pm' member => wf.pending pm' (List.mem_of_mem_erase member)⟩

theorem Wf.step (wf : s.Wf) {a : Action} (stepped : s.step a = some s') : s'.Wf := by
  unfold System.step at stepped
  split_ifs at stepped
  cases a with
  | receive _ => exact wf.receive stepped
  | addInflight _ => exact wf.addInflight stepped
  | dispatch _ => exact wf.dispatch stepped
  | processorReply _ _ _ => exact wf.processorReply stepped
  | success _ _ => exact wf.success stepped
  | error _ => exact wf.error stepped

end System

theorem Reaches.wf {conf : KafkaBridgeConf} {allowed : System → Action → Prop} {s : System}
    (reaches : Reaches conf allowed s) : s.Wf := by
  induction reaches with
  | init => exact System.Wf.init conf
  | step _ _ stepped wf => exact wf.step stepped

theorem Reaches.conf_eq {conf : KafkaBridgeConf} {allowed : System → Action → Prop}
    {s : System} (reaches : Reaches conf allowed s) : s.bridge.conf = conf := by
  induction reaches with
  | init => rfl
  | step _ _ stepped ih =>
      rw [← ih]
      rcases System.step_cases stepped with frame | ⟨_, _, -, -, -, -, bridge, -⟩ |
        ⟨_, _, _, -, -, -, bridge, -⟩
      · exact frame.conf
      · rw [bridge]
        rfl
      · rw [bridge, setInFlightComplete_conf]

end EthConnect
