import EthConnect.Invariant

/-!
# A producer success always finds the context that replied

`Reply` sends its context's `reqOffset` as the metadata of the producer message, and
`ProducerSuccessLoop` looks the metadata up in the in-flight map.  As long as every
context replies at most once (the processor's obligation; the consumer loop replies
once, only to a context whose headers failed to decode) and the producer answers each
message once, the lookup finds the very context that sent the reply, still incomplete,
even across redeliveries that re-admit a coordinate.  The invariant `Joined` says this
of every pending reply, and that a complete context has had a reply acknowledged, which
keeps a second reply from finding a complete context.
-/

namespace EthConnect

namespace System

/-- The replies of context `p` in a list of producer messages. -/
def repliesOf (p : Nat) (messages : List ProducerMessage) : Nat :=
  messages.countP fun pm => pm.value = p

/-- Every context has written at most one reply to `producer.Input()`. -/
def RepliedAtMostOnce (s : System) : Prop :=
  ∀ p, repliesOf p s.sent ≤ 1

/-- Every pending reply joins its sender, still incomplete, through the map; a complete
context has had a reply acknowledged; pending replies were all sent. -/
structure Joined (s : System) : Prop where
  found : ∀ pm ∈ s.pending, s.bridge.inFlight.lookup pm.metadata = some pm.value ∧
    (s.bridge.heap pm.value).complete = false
  confirmed : ∀ p, (s.bridge.heap p).complete = true →
    repliesOf p s.pending < repliesOf p s.sent
  sent : ∀ p, repliesOf p s.pending ≤ repliesOf p s.sent

variable {s s' : System}

theorem repliesOf_erase {p : Nat} {pm : ProducerMessage} {messages : List ProducerMessage}
    (member : pm ∈ messages) :
    repliesOf p (messages.erase pm) + (if pm.value = p then 1 else 0) = repliesOf p messages := by
  rw [repliesOf, repliesOf, (List.perm_cons_erase member).countP_eq, List.countP_cons]
  simp

theorem repliesOf_erase_le {p : Nat} (pm : ProducerMessage) (messages : List ProducerMessage) :
    repliesOf p (messages.erase pm) ≤ repliesOf p messages :=
  (List.erase_sublist pm messages).countP_le _

theorem repliesOf_append_singleton (p : Nat) (pm : ProducerMessage)
    (messages : List ProducerMessage) :
    repliesOf p (messages ++ [pm]) = repliesOf p messages + if pm.value = p then 1 else 0 := by
  simp [repliesOf, List.countP_append, List.countP_singleton]

theorem sent_grows {a : Action} (stepped : s.step a = some s') : s.sent <+: s'.sent := by
  unfold step at stepped
  split_ifs at stepped
  cases a with
  | receive _ => obtain ⟨_, _, rfl⟩ := receive_eq_some stepped; exact List.prefix_refl _
  | addInflight _ => obtain ⟨_, _, _, rfl⟩ := addInflight_eq_some stepped; exact List.prefix_refl _
  | dispatch _ =>
      rcases dispatch_eq_some stepped with ⟨_, _, _, rfl⟩ | ⟨_, _, _, rfl⟩ |
        ⟨_, _, _, _, rfl⟩
      · exact List.prefix_refl _
      · exact List.prefix_refl _
      · exact List.prefix_append _ _
  | processorReply _ _ _ =>
      obtain ⟨_, rfl⟩ := processorReply_eq_some stepped
      exact List.prefix_append _ _
  | success _ _ =>
      obtain ⟨_, ⟨_, rfl⟩ | ⟨_, _, _, rfl⟩⟩ := success_eq_some stepped <;> exact List.prefix_refl _
  | error _ => obtain ⟨_, rfl⟩ := error_eq_some stepped; exact List.prefix_refl _

theorem RepliedAtMostOnce.of_step (once : RepliedAtMostOnce s') {a : Action}
    (stepped : s.step a = some s') : RepliedAtMostOnce s :=
  fun p => ((sent_grows stepped).sublist.countP_le _).trans (once p)

theorem Joined.of_pending (joined : s.Joined) (bridge : s'.bridge = s.bridge)
    (sent : s'.sent = s.sent) (pending : s'.pending.Sublist s.pending) : s'.Joined where
  found := fun pm member => by rw [bridge]; exact joined.found pm (pending.subset member)
  confirmed := fun p complete => by
    rw [bridge] at complete
    rw [sent]
    exact lt_of_le_of_lt (pending.countP_le _) (joined.confirmed p complete)
  sent := fun p => by rw [sent]; exact (pending.countP_le _).trans (joined.sent p)

theorem Joined.unreplied (joined : s.Joined) (wf : s.Wf) {p : Nat}
    (allocated : p < s.bridge.allocated) (fresh : repliesOf p s.sent = 0) :
    s.bridge.inFlight.lookup (s.bridge.heap p).reqOffset = some p ∧
      (s.bridge.heap p).complete = false := by
  have incomplete : (s.bridge.heap p).complete = false := by
    by_contra complete
    have := joined.confirmed p (by simpa using complete)
    omega
  have inFlight := (wf.settled p allocated).resolve_left (by simp [incomplete])
  exact ⟨KafkaBridge.lookup_reqOffset inFlight, incomplete⟩

theorem Joined.enqueue (joined : s.Joined) (wf : s.Wf) {p : Nat}
    (allocated : p < s.bridge.allocated) (replyMessage : ReplyWithHeaders) (uuid : String)
    (consumer : ConsumerLoop)
    (once : RepliedAtMostOnce { s.enqueue (reply s.bridge p replyMessage uuid) with consumer }) :
    ({ s.enqueue (reply s.bridge p replyMessage uuid) with consumer } : System).Joined := by
  have fresh : repliesOf p s.sent = 0 := by
    have := once p
    simp only [enqueue_sent, repliesOf_append_singleton, reply_snd, if_true] at this
    omega
  obtain ⟨found, incomplete⟩ := joined.unreplied wf allocated fresh
  refine ⟨fun pm member => ?_, fun q complete => ?_, fun q => ?_⟩
  · simp only [enqueue_pending, List.mem_append, List.mem_singleton] at member
    rcases member with old | rfl
    · simpa using joined.found pm old
    · simpa [reply_snd] using ⟨found, incomplete⟩
  · simp only [enqueue_bridge, reply_complete] at complete
    have differs : p ≠ q := by
      rintro rfl
      simp [incomplete] at complete
    simpa [repliesOf_append_singleton, reply_snd, differs] using joined.confirmed q complete
  · simpa [repliesOf_append_singleton] using joined.sent q

theorem Joined.addInflight (joined : s.Joined) (wf : s.Wf) {uuid : String}
    (stepped : s.addInflight uuid = some s') : s'.Joined := by
  obtain ⟨msg, _, _, rfl⟩ := addInflight_eq_some stepped
  by_cases dup : s.bridge.HoldsCoordinate msg
  · rw [addInflightMsg_of_holds uuid dup]
    exact ⟨joined.found, joined.confirmed, joined.sent⟩
  · rw [addInflightMsg_of_not_holds uuid dup]
    have missing : s.bridge.inFlight.lookup (reqOffsetOf msg) = none := by
      simpa [← KafkaBridge.lookup_isSome_iff] using dup
    refine ⟨fun pm member => ?_, fun q complete => ?_, joined.sent⟩
    · obtain ⟨found, incomplete⟩ := joined.found pm member
      have differs : pm.metadata ≠ reqOffsetOf msg := fun same => by
        rw [same, missing] at found
        cases found
      have old := (wf.pending pm member).1.ne
      simpa [KafkaBridge.insertContext, AList.lookup_insert_ne differs, insertContext_heap,
        old] using ⟨found, incomplete⟩
    · rw [insertContext_heap] at complete
      split_ifs at complete
      · simp at complete
      · exact joined.confirmed q complete

theorem Joined.success (joined : s.Joined) (wf : s.Wf) (once : RepliedAtMostOnce s)
    {pm : ProducerMessage} {order : List (Σ _ : String, Nat)}
    (stepped : s.success pm order = some s') : s'.Joined := by
  obtain ⟨waiting, ⟨_, rfl⟩ | ⟨p, found, iteration, rfl⟩⟩ := success_eq_some stepped
  · exact joined.of_pending rfl rfl (List.erase_sublist _ _)
  obtain ⟨joins, incomplete⟩ := joined.found pm waiting
  obtain rfl : p = pm.value := Option.some.inj (found.symm.trans joins)
  have distinct := wf.distinctOffsets
  have removed := repliesOf_erase (p := pm.value) waiting
  simp only [if_true] at removed
  have single : ∀ pm' ∈ s.pending.erase pm, pm'.value ≠ pm.value := by
    intro pm' member same
    have other : 0 < repliesOf pm.value (s.pending.erase pm) :=
      List.countP_pos_iff.mpr ⟨pm', member, by simp [same]⟩
    have := joined.sent pm.value
    have := once pm.value
    omega
  refine ⟨fun pm' member => ?_, fun q complete => ?_,
    fun q => (repliesOf_erase_le pm _).trans (joined.sent q)⟩
  · obtain ⟨joins', incomplete'⟩ := joined.found pm' (List.mem_of_mem_erase member)
    have differs := single pm' member
    obtain ⟨inFlight, key⟩ := KafkaBridge.lookup_eq_some joins'
    have stays : pm'.value ∈ (setInFlightComplete s.bridge pm.value order).1.pointers :=
      (mem_setInFlightComplete_pointers iteration distinct).mpr ⟨inFlight, fun ackable => by
        simpa [differs, incomplete'] using ackable.complete⟩
    have lookup := KafkaBridge.lookup_reqOffset stays
    rw [setInFlightComplete_heap, KafkaBridge.setComplete_reqOffset] at lookup
    rw [key]
    exact ⟨lookup, by
      simp [setInFlightComplete_heap, KafkaBridge.setComplete_complete, differs, incomplete']⟩
  · rw [setInFlightComplete_heap, KafkaBridge.setComplete_complete_eq_true] at complete
    by_cases same : q = pm.value
    · subst same
      have := joined.sent pm.value
      show repliesOf pm.value (s.pending.erase pm) < repliesOf pm.value s.sent
      omega
    · exact lt_of_le_of_lt (repliesOf_erase_le pm _)
        (joined.confirmed q (complete.resolve_left same))

theorem Joined.step (joined : s.Joined) (wf : s.Wf) (once : RepliedAtMostOnce s')
    {a : Action} (stepped : s.step a = some s') : s'.Joined := by
  have before := once.of_step stepped
  unfold System.step at stepped
  split_ifs at stepped
  cases a with
  | receive _ =>
      obtain ⟨_, _, rfl⟩ := receive_eq_some stepped
      exact ⟨joined.found, joined.confirmed, joined.sent⟩
  | addInflight _ => exact joined.addInflight wf stepped
  | dispatch _ =>
      rcases dispatch_eq_some stepped with ⟨_, _, _, rfl⟩ | ⟨_, _, _, rfl⟩ |
        ⟨_, p, _, holding, rfl⟩
      · exact ⟨joined.found, joined.confirmed, joined.sent⟩
      · exact ⟨joined.found, joined.confirmed, joined.sent⟩
      · have allocated : p < s.bridge.allocated := by
          simpa [ConsumerOk, holding] using wf.consumer
        exact joined.enqueue wf allocated _ _ _ once
  | processorReply _ _ _ =>
      obtain ⟨handed, rfl⟩ := processorReply_eq_some stepped
      exact joined.enqueue wf (wf.dispatched _ handed) _ _ s.consumer once
  | success _ _ => exact joined.success wf before stepped
  | error _ =>
      obtain ⟨_, rfl⟩ := error_eq_some stepped
      exact joined.of_pending rfl rfl (List.erase_sublist _ _)

end System

theorem Reaches.joined {conf : KafkaBridgeConf} {allowed : System → Action → Prop}
    {s : System} (reaches : Reaches conf allowed s) (once : s.RepliedAtMostOnce) :
    s.Joined := by
  induction reaches with
  | init => exact ⟨fun _ member => by simp [System.init] at member,
      fun _ complete => by simp [System.init, KafkaBridge.new] at complete,
      fun _ => le_rfl⟩
  | step reached _ stepped ih =>
      exact (ih (once.of_step stepped)).step (Reaches.wf reached) once stepped

/-- In every run where each context replies at most once, the metadata of each reply
the producer may acknowledge looks up the very context that sent it, still incomplete:
handling the success never reaches the "not in in-flight map" panic, and applies
`setInFlightComplete` to that context. -/
theorem producer_success_joins_replier {conf : KafkaBridgeConf} {s : System}
    (reachable : Reachable conf s) (once : s.RepliedAtMostOnce) {pm : ProducerMessage}
    (waiting : pm ∈ s.pending) :
    s.bridge.inFlight.lookup pm.metadata = some pm.value ∧
    (s.bridge.heap pm.value).complete = false ∧
    ∀ order s', s.step (.success pm order) = some s' →
      s'.panicked = none ∧ s'.bridge = (setInFlightComplete s.bridge pm.value order).1 := by
  obtain ⟨found, incomplete⟩ := (Reaches.joined reachable once).found pm waiting
  refine ⟨found, incomplete, fun order s' stepped => ?_⟩
  have alive := System.step_panicked stepped
  simp only [System.step, alive, Option.isSome_none, Bool.false_eq_true, if_false] at stepped
  obtain ⟨_, ⟨missing, _⟩ | ⟨p, found', _, rfl⟩⟩ := System.success_eq_some stepped
  · simp [found] at missing
  · obtain rfl : p = pm.value := Option.some.inj (found'.symm.trans found)
    exact ⟨alive, rfl⟩

/-- With the three replies of the out-of-order run pending, that of 11 finds its
context. -/
theorem outOfOrder_reply_finds_eleven :
    Reachable sampleConf (outOfOrderState 12) ∧ (outOfOrderState 12).RepliedAtMostOnce ∧
    sampleReplyTo 11 1 ∈ (outOfOrderState 12).pending ∧
    (outOfOrderState 12).bridge.inFlight.lookup (sampleReplyTo 11 1).metadata = some 1 :=
  have reachable : Reachable sampleConf (outOfOrderState 12) :=
    outOfOrderState_reachable (by decide)
  have once : (outOfOrderState 12).RepliedAtMostOnce := fun p => by
    have sent : (outOfOrderState 12).sent =
        [sampleReplyTo 10 0, sampleReplyTo 11 1, sampleReplyTo 12 2] := by decide
    rw [sent]
    simp only [System.repliesOf, sampleReplyTo, List.countP_cons, List.countP_nil,
      decide_eq_true_eq]
    split_ifs <;> omega
  have waiting : sampleReplyTo 11 1 ∈ (outOfOrderState 12).pending := by decide
  ⟨reachable, once, waiting, (producer_success_joins_replier reachable once waiting).1⟩

end EthConnect
