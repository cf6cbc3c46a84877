import EthConnect.Join

/-!
# Requests whose headers do not decode

`addInflightMsg` admits a message even when `json.Unmarshal` of its headers fails, and
returns the error with the new context.  The consumer loop then does not call
`processor.OnMessage`: after dropping the lock it replies itself, with
`NewErrorReply(err, msg.Value)`.  So over every run the processor is handed only
contexts whose headers decoded, and each context whose headers did not decode is
answered exactly once, by the consumer loop, with the generic error reply quoting the
request (`undecodable_requests_answered_by_loop`).  Nothing is assumed of the
processor: it can only reply to contexts it was handed.
-/

namespace EthConnect

namespace System

variable {s s' : System}

/-- How the consumer loop splits contexts by their decode error.  The context it holds
after `addInflightMsg` has the loop's message and decode error, no reply and was not
handed on; the processor holds only contexts that decoded; a context that did not decode
is held by the loop, or has its one reply, the error reply; replies are written for
allocated contexts only. -/
structure DecodeSplit (s : System) : Prop where
  held : ∀ msg p err, s.consumer = .dispatching msg (some p) err →
    (s.bridge.heap p).saramaMsg = msg ∧ err = msg.value.unmarshalError ∧
      repliesOf p s.sent = 0 ∧ p ∉ s.dispatched
  dispatched : ∀ p ∈ s.dispatched, (s.bridge.heap p).saramaMsg.value.unmarshalError = none
  answered : ∀ p < s.bridge.allocated, ∀ err,
    (s.bridge.heap p).saramaMsg.value.unmarshalError = some err →
      (∃ msg, s.consumer = .dispatching msg (some p) (some err)) ∨
      (repliesOf p s.sent = 1 ∧ (s.bridge.heap p).replyBytes.map ReplyWithHeaders.body =
        some (.errorReply err (s.bridge.heap p).saramaMsg.value ""))
  sent : ∀ pm ∈ s.sent, pm.value < s.bridge.allocated

theorem DecodeSplit.replied (split : s.DecodeSplit) {p : Nat} (below : p < s.bridge.allocated)
    {err : String} (failed : (s.bridge.heap p).saramaMsg.value.unmarshalError = some err)
    (free : ∀ msg, s.consumer ≠ .dispatching msg (some p) (some err)) :
    repliesOf p s.sent = 1 ∧ (s.bridge.heap p).replyBytes.map ReplyWithHeaders.body =
      some (.errorReply err (s.bridge.heap p).saramaMsg.value "") :=
  (split.answered p below err failed).resolve_left fun ⟨msg, holding⟩ => free msg holding

theorem DecodeSplit.of_frame (split : s.DecodeSplit)
    (allocated : s'.bridge.allocated = s.bridge.allocated)
    (saramaMsg : ∀ q, (s'.bridge.heap q).saramaMsg = (s.bridge.heap q).saramaMsg)
    (replyBytes : ∀ q, (s'.bridge.heap q).replyBytes = (s.bridge.heap q).replyBytes)
    (sent : s'.sent = s.sent) (dispatched : s'.dispatched = s.dispatched)
    (held : ∀ msg p err, s'.consumer = .dispatching msg (some p) err ↔
      s.consumer = .dispatching msg (some p) err) : s'.DecodeSplit where
  held msg p err holding := by
    rw [saramaMsg, sent, dispatched]
    exact split.held msg p err ((held msg p err).mp holding)
  dispatched p member := by
    rw [saramaMsg]
    exact split.dispatched p (dispatched ▸ member)
  answered p below err failed := by
    rw [allocated] at below
    rw [saramaMsg] at failed
    rw [saramaMsg, replyBytes, sent]
    exact (split.answered p below err failed).imp_left fun ⟨msg, holding⟩ =>
      ⟨msg, (held msg p err).mpr holding⟩
  sent pm member := allocated ▸ split.sent pm (sent ▸ member)

theorem DecodeSplit.init (conf : KafkaBridgeConf) : (System.init conf).DecodeSplit where
  held _ _ _ holding := by cases holding
  dispatched _ member := by simp [System.init] at member
  answered _ below := absurd below (Nat.not_lt_zero _)
  sent _ member := by simp [System.init] at member

theorem DecodeSplit.insert (split : s.DecodeSplit) (wf : s.Wf) {msg : ConsumerMessage}
    (holding : s.consumer = .received msg) (uuid : String) :
    ({ s with bridge := s.bridge.insertContext (admittedContext msg uuid),
              consumer := .dispatching msg (some s.bridge.allocated) msg.value.unmarshalError } :
      System).DecodeSplit := by
  have old : ∀ q < s.bridge.allocated,
      (s.bridge.insertContext (admittedContext msg uuid)).heap q = s.bridge.heap q :=
    fun q lt => by rw [insertContext_heap, if_neg lt.ne]
  have unreplied : repliesOf s.bridge.allocated s.sent = 0 :=
    List.countP_eq_zero.mpr fun pm member same =>
      (split.sent pm member).ne (of_decide_eq_true same)
  refine ⟨fun msg' p err held => ?_, fun p member => ?_, fun p below err failed => ?_,
    fun pm member => Nat.lt_succ_of_lt (split.sent pm member)⟩
  · obtain ⟨rfl, same, rfl⟩ := ConsumerLoop.dispatching.inj held
    obtain rfl := Option.some.inj same
    exact ⟨by simp [insertContext_heap], rfl, unreplied,
      fun handed => (wf.dispatched _ handed).false⟩
  · rw [old p (wf.dispatched p member)]
    exact split.dispatched p member
  · simp only [KafkaBridge.insertContext_allocated] at below
    rcases Nat.lt_succ_iff_lt_or_eq.mp below with lt | rfl
    · rw [old p lt] at failed ⊢
      exact .inr (split.replied lt failed fun _ held => by simp [holding] at held)
    · simp only [insertContext_heap, if_true, admittedContext_saramaMsg] at failed
      exact .inl ⟨msg, by rw [failed]⟩

theorem DecodeSplit.onMessage (split : s.DecodeSplit) {msg : ConsumerMessage} {p : Nat}
    (holding : s.consumer = .dispatching msg (some p) none) :
    ({ s with consumer := .receiving, dispatched := s.dispatched ++ [p] } :
      System).DecodeSplit := by
  obtain ⟨message, decoded, -, -⟩ := split.held msg p none holding
  refine ⟨fun _ _ _ held => (by cases held), fun q member => ?_,
    fun q below err failed => .inr (split.replied below failed fun _ held => ?_), split.sent⟩
  · rcases List.mem_append.mp member with old | new
    · exact split.dispatched q old
    · rw [List.mem_singleton.mp new, message, decoded]
  · rw [holding] at held
    cases (ConsumerLoop.dispatching.inj held).2.2

theorem DecodeSplit.errorReply (split : s.DecodeSplit) (wf : s.Wf) {msg : ConsumerMessage}
    {p : Nat} {err : String} (holding : s.consumer = .dispatching msg (some p) (some err))
    (uuid : String) :
    ({ s.enqueue (reply s.bridge p (newErrorReply err msg.value) uuid) with
        consumer := .receiving } : System).DecodeSplit := by
  obtain ⟨message, decoded, unreplied, kept⟩ := split.held msg p (some err) holding
  have allocated : p < s.bridge.allocated := by
    simpa [ConsumerOk, holding] using wf.consumer
  refine ⟨fun _ _ _ held => (by cases held), fun q member => ?_, fun q below err' failed => ?_,
    fun pm member => ?_⟩
  · simpa using split.dispatched q member
  · simp only [enqueue_bridge, reply_allocated] at below
    simp only [enqueue_bridge, reply_saramaMsg] at failed
    simp only [enqueue_bridge, enqueue_sent, repliesOf_append_singleton, reply_snd,
      reply_saramaMsg]
    by_cases same : p = q
    · subst same
      rw [message, ← decoded] at failed
      obtain rfl := Option.some.inj failed
      refine .inr ⟨by simp [unreplied], ?_⟩
      rw [reply_replyBytes_body, message]
      rfl
    · obtain ⟨once, body⟩ := split.replied below failed fun _ held => by
        rw [holding] at held
        exact same (Option.some.inj (ConsumerLoop.dispatching.inj held).2.1)
      exact .inr ⟨by simpa [same] using once, by rwa [reply_heap_of_ne _ _ _ _ (Ne.symm same)]⟩
  · simp only [enqueue_sent, List.mem_append, List.mem_singleton] at member
    rcases member with old | rfl
    · exact split.sent pm old
    · simpa [reply_snd] using allocated

theorem DecodeSplit.processorReply (split : s.DecodeSplit) (wf : s.Wf) {p : Nat}
    (handed : p ∈ s.dispatched) (replyMessage : ReplyWithHeaders) (uuid : String) :
    (s.enqueue (reply s.bridge p replyMessage uuid)).DecodeSplit := by
  have other : ∀ q err, (s.bridge.heap q).saramaMsg.value.unmarshalError = some err → p ≠ q :=
    fun q err failed same => by simp [← same, split.dispatched p handed] at failed
  refine ⟨fun msg q err held => ?_, fun q member => ?_, fun q below err failed => ?_,
    fun pm member => ?_⟩
  · have loopHeld := split.held msg q err held
    have differs : p ≠ q := fun same => loopHeld.2.2.2 (same ▸ handed)
    simpa [repliesOf_append_singleton, reply_snd, differs] using loopHeld
  · simpa using split.dispatched q member
  · simp only [enqueue_bridge, reply_allocated, reply_saramaMsg] at below failed
    have differs := other q err failed
    rw [enqueue_bridge, reply_heap_of_ne _ _ _ _ (Ne.symm differs), enqueue_sent,
      repliesOf_append_singleton, reply_snd]
    simpa [differs] using split.answered q below err failed
  · simp only [enqueue_sent, List.mem_append, List.mem_singleton] at member
    rcases member with old | rfl
    · exact split.sent pm old
    · simpa [reply_snd] using wf.dispatched p handed

theorem DecodeSplit.step (split : s.DecodeSplit) (wf : s.Wf) {a : Action}
    (stepped : s.step a = some s') : s'.DecodeSplit := by
  unfold System.step at stepped
  split_ifs at stepped
  cases a with
  | receive _ =>
      obtain ⟨receiving, -, rfl⟩ := receive_eq_some stepped
      exact split.of_frame rfl (fun _ => rfl) (fun _ => rfl) rfl rfl (by simp [receiving])
  | addInflight uuid =>
      obtain ⟨msg, holding, -, rfl⟩ := addInflight_eq_some stepped
      by_cases dup : s.bridge.HoldsCoordinate msg
      · rw [addInflightMsg_of_holds uuid dup]
        exact split.of_frame rfl (fun _ => rfl) (fun _ => rfl) rfl rfl (by simp [holding])
      · rw [addInflightMsg_of_not_holds uuid dup]
        exact split.insert wf holding uuid
  | dispatch uuid =>
      rcases dispatch_eq_some stepped with ⟨_, _, holding, rfl⟩ | ⟨msg, p, holding, rfl⟩ |
        ⟨msg, p, err, holding, rfl⟩
      · exact split.of_frame rfl (fun _ => rfl) (fun _ => rfl) rfl rfl (by simp [holding])
      · exact split.onMessage holding
      · exact split.errorReply wf holding uuid
  | processorReply p replyMessage uuid =>
      obtain ⟨handed, rfl⟩ := processorReply_eq_some stepped
      exact split.processorReply wf handed replyMessage uuid
  | success _ _ =>
      obtain ⟨-, ⟨-, rfl⟩ | ⟨_, -, -, rfl⟩⟩ := success_eq_some stepped
      · exact split.of_frame rfl (fun _ => rfl) (fun _ => rfl) rfl rfl fun _ _ _ => .rfl
      · exact split.of_frame setInFlightComplete_allocated
          (fun _ => by simp [setInFlightComplete_heap])
          (fun _ => by simp [setInFlightComplete_heap]) rfl rfl fun _ _ _ => .rfl
  | error _ =>
      obtain ⟨-, rfl⟩ := error_eq_some stepped
      exact split.of_frame rfl (fun _ => rfl) (fun _ => rfl) rfl rfl fun _ _ _ => .rfl

end System

variable {conf : KafkaBridgeConf} {s : System}

theorem Reaches.decodeSplit {allowed : System → Action → Prop}
    (reaches : Reaches conf allowed s) : s.DecodeSplit := by
  induction reaches with
  | init => exact System.DecodeSplit.init conf
  | step reached _ stepped ih => exact ih.step (Reaches.wf reached) stepped

/-- In every run, `processor.OnMessage` is handed only contexts whose headers decoded,
and each context whose headers did not decode is, once the consumer loop has moved on,
answered exactly once, with the generic error reply `NewErrorReply(err, msg.Value)`
quoting its request. -/
theorem undecodable_requests_answered_by_loop (reachable : Reachable conf s) :
    ∀ p < s.bridge.allocated,
      (p ∈ s.dispatched → (s.bridge.heap p).saramaMsg.value.unmarshalError = none) ∧
      ∀ err, (s.bridge.heap p).saramaMsg.value.unmarshalError = some err →
        (∃ msg, s.consumer = .dispatching msg (some p) (some err)) ∨
        (System.repliesOf p s.sent = 1 ∧
          (s.bridge.heap p).replyBytes.map ReplyWithHeaders.body =
            some (.errorReply err (s.bridge.heap p).saramaMsg.value "")) :=
  fun p below => ⟨reachable.decodeSplit.dispatched p, reachable.decodeSplit.answered p below⟩

/-- A request on partition 0 of `in` whose headers fail to decode. -/
def garbledRequest (offset : Int) : ConsumerMessage :=
  { sampleRequest offset with
    value := { decoded := default, unmarshalError := some "invalid character" } }

/-- The consumer loop answers the garbled request at 10 itself, once, and the processor
is handed only the request at 11. -/
def garbledActions : List Action :=
  [.receive (garbledRequest 10), .addInflight "a", .dispatch "b",
   .receive (sampleRequest 11), .addInflight "c", .dispatch "d"]

theorem garbled_request_answered_by_loop :
    Reachable sampleConf (sampleRun (fun _ _ => true) garbledActions) ∧
    (sampleRun (fun _ _ => true) garbledActions).dispatched = [1] ∧
    System.repliesOf 0 (sampleRun (fun _ _ => true) garbledActions).sent = 1 ∧
    ((sampleRun (fun _ _ => true) garbledActions).bridge.heap 0).replyBytes.map
      ReplyWithHeaders.body =
      some (.errorReply "invalid character" (garbledRequest 10).value "") :=
  have reachable : Reachable sampleConf (sampleRun (fun _ _ => true) garbledActions) :=
    sampleRun_reaches (fun _ _ _ => trivial) (by decide)
  have failed :
      ((sampleRun (fun _ _ => true) garbledActions).bridge.heap 0).saramaMsg.value.unmarshalError =
        some "invalid character" := by
    decide
  have receiving : (sampleRun (fun _ _ => true) garbledActions).consumer = .receiving := by
    decide
  have answered := ((undecodable_requests_answered_by_loop reachable 0 (by decide)).2 _
    failed).resolve_left fun ⟨_, held⟩ => by rw [receiving] at held; cases held
  ⟨reachable, by decide, answered.1, answered.2⟩

end EthConnect
