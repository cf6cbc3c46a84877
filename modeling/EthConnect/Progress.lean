import EthConnect.Handoff
import EthConnect.Capacity
import EthConnect.Wait

/-!
# The capacity wait can always end

The consumer loop's capacity wait ends only when `ProducerSuccessLoop` removes contexts,
which leave the map once the processor has replied to them and the producer has
acknowledged the replies.  The bridge itself never stands in the way: from any state of
a run in which the processor replies at most once and nothing has panicked, replies and
acknowledgements alone, each paying part of what is `owed`, empty the map, and a loop
waiting under a positive limit can then admit its message (`consumer_wait_can_end`).
Under a limit that is not positive the wait never ends
(`negative_maxInFlight_waits_forever`).
-/

namespace EthConnect

/-- A step of the processor replying, or of the producer acknowledging a reply. -/
def Action.Answers : Action → Prop
  | .processorReply _ _ _ => True
  | .success _ _ => True
  | _ => False

namespace System

/-- The contexts handed to `processor.OnMessage` that it has not replied to yet. -/
def unanswered (s : System) : List Nat :=
  s.dispatched.filter fun p => repliesOf p s.sent = 0

/-- What the processor and the producer still owe: a reply and its acknowledgement for
each unanswered context, and an acknowledgement for each outstanding reply. -/
def owed (s : System) : Nat :=
  2 * s.unanswered.length + s.pending.length

variable {s : System}

theorem owed_eq_zero :
    s.owed = 0 ↔ s.pending = [] ∧ ∀ p ∈ s.dispatched, 0 < repliesOf p s.sent := by
  simp [owed, unanswered, List.filter_eq_nil_iff, Nat.pos_iff_ne_zero, and_comm]

theorem success_drains (joined : s.Joined) (alive : s.panicked = none) {pm : ProducerMessage}
    (waiting : pm ∈ s.pending) :
    ∃ s', s.step (.success pm s.bridge.inFlight.entries) = some s' ∧ s'.panicked = none ∧
      s'.consumer = s.consumer ∧ s'.owed < s.owed := by
  have found := (joined.found pm waiting).1
  have erased := List.length_erase_of_mem waiting
  have nonempty := List.length_pos_of_mem waiting
  refine ⟨{ s with
      bridge := (setInFlightComplete s.bridge pm.value s.bridge.inFlight.entries).1
      pending := s.pending.erase pm
      marked := s.marked ++
        (setInFlightComplete s.bridge pm.value s.bridge.inFlight.entries).2.toList },
    by simp [System.step, alive, System.success, waiting, found], alive, rfl, ?_⟩
  simp only [owed, unanswered, erased]
  omega

theorem processorReply_drains (alive : s.panicked = none) {p : Nat} (owing : p ∈ s.unanswered)
    (replyMessage : ReplyWithHeaders) (uuid : String) :
    ProcessorRepliesOnce s (.processorReply p replyMessage uuid) ∧
    ∃ s', s.step (.processorReply p replyMessage uuid) = some s' ∧ s'.panicked = none ∧
      s'.consumer = s.consumer ∧ s'.owed < s.owed := by
  obtain ⟨handed, fresh⟩ : p ∈ s.dispatched ∧ repliesOf p s.sent = 0 := by
    simpa [unanswered] using owing
  have remaining : (s.enqueue (reply s.bridge p replyMessage uuid)).unanswered =
      s.unanswered.filter fun q => q ≠ p := by
    simp only [unanswered, enqueue_dispatched, enqueue_sent, List.filter_filter]
    refine List.filter_congr fun q _ => ?_
    by_cases same : q = p
    · simp [same, repliesOf_append_singleton, reply_snd, fresh]
    · simp [same, repliesOf_append_singleton, reply_snd, Ne.symm same]
  have fewer : (s.unanswered.filter fun q => q ≠ p).length < s.unanswered.length :=
    lt_of_le_of_ne (List.length_filter_le _ _) fun same => by
      simpa using List.filter_length_eq_length.mp same p owing
  refine ⟨fresh, s.enqueue (reply s.bridge p replyMessage uuid),
    by simp [System.step, alive, System.processorReply, handed], alive, rfl, ?_⟩
  simp only [owed, remaining, enqueue_pending, List.length_append, List.length_singleton]
  omega

end System

variable {conf : KafkaBridgeConf} {s : System}

theorem Reaches.exists_drained (replyMessage : ReplyWithHeaders) (uuid : String) :
    ∀ n {s : System}, Reaches conf System.ProcessorRepliesOnce s → s.panicked = none →
      s.owed ≤ n → ∃ actions s', (∀ a ∈ actions, a.Answers) ∧
        s.run (fun s a => decide (System.ProcessorRepliesOnce s a)) actions = some s' ∧
        Reaches conf System.ProcessorRepliesOnce s' ∧ s'.panicked = none ∧
        s'.consumer = s.consumer ∧ s'.owed = 0
  | 0, s, reaches, alive, bound => ⟨[], s, by simp, rfl, reaches, alive, rfl, by omega⟩
  | n + 1, s, reaches, alive, bound => by
      by_cases paid : s.owed = 0
      · exact ⟨[], s, by simp, rfl, reaches, alive, rfl, paid⟩
      have step : ∃ a s₁, a.Answers ∧ System.ProcessorRepliesOnce s a ∧ s.step a = some s₁ ∧
          s₁.panicked = none ∧ s₁.consumer = s.consumer ∧ s₁.owed < s.owed := by
        cases waiting : s.pending with
        | cons pm _ =>
            have joined := Reaches.joined reaches reaches.repliesFresh.once
            obtain ⟨s₁, stepped, rest⟩ :=
              System.success_drains joined alive (waiting ▸ List.mem_cons_self pm _)
            exact ⟨.success pm s.bridge.inFlight.entries, s₁, trivial, trivial, stepped, rest⟩
        | nil =>
            obtain ⟨p, owing⟩ := List.exists_mem_of_ne_nil s.unanswered fun none => paid (by
              simp [System.owed, none, waiting])
            obtain ⟨allowed, s₁, stepped, rest⟩ :=
              System.processorReply_drains alive owing replyMessage uuid
            exact ⟨.processorReply p replyMessage uuid, s₁, trivial, allowed, stepped, rest⟩
      obtain ⟨a, s₁, answers, allowed, stepped, alive₁, consumer₁, fewer⟩ := step
      obtain ⟨actions, s', answer, ran, reaches', alive', consumer', drained⟩ :=
        Reaches.exists_drained replyMessage uuid n (reaches.step allowed stepped) alive₁
          (by omega)
      refine ⟨a :: actions, s', ?_, ?_, reaches', alive', consumer'.trans consumer₁, drained⟩
      · exact List.forall_mem_cons.mpr ⟨answers, answer⟩
      · simp only [System.run, decide_eq_true allowed, if_true, stepped, Option.some_bind, ran]

/-- The consumer loop's capacity wait can always end.  Take any state of a run in which the
processor replies at most once to each context and nothing has panicked, with a positive
limit, and a consumer loop holding a message.  The processor replying to every context it
was handed and the producer acknowledging every reply, with no step of the consumer loop,
reach a state in which the map is empty and the loop can admit its message. -/
theorem consumer_wait_can_end (reaches : Reaches conf System.ProcessorRepliesOnce s)
    (alive : s.panicked = none) (positive : 0 < conf.maxInFlight) {msg : ConsumerMessage}
    (holding : s.consumer = .received msg) (replyMessage : ReplyWithHeaders) (uuid : String) :
    ∃ actions s', (∀ a ∈ actions, a.Answers) ∧
      s.run (fun s a => decide (System.ProcessorRepliesOnce s a)) actions = some s' ∧
      s'.consumer = .received msg ∧ s'.bridge.inFlight.entries = [] ∧
      ∀ uuid', ∃ s'', s'.step (.addInflight uuid') = some s'' := by
  obtain ⟨actions, s', answers, ran, reaches', alive', consumer', drained⟩ :=
    Reaches.exists_drained replyMessage uuid s.owed reaches alive le_rfl
  obtain ⟨acknowledged, answered⟩ := System.owed_eq_zero.mp drained
  have holding' : s'.consumer = .received msg := consumer'.trans holding
  have empty := reaches'.entries_nil_of_drained alive' acknowledged answered
    fun _ _ _ held => ConsumerLoop.noConfusion (holding'.symm.trans held)
  have positive' : 0 < s'.bridge.conf.maxInFlight := (Reaches.conf_eq reaches') ▸ positive
  exact ⟨actions, s', answers, ran, holding', empty,
    addInflight_enabled_of_empty positive' holding' empty alive'⟩

/-- The request at 10 is admitted and handed on, and the consumer loop then holds the
request at 11 before a full map. -/
def singleSlotState : System :=
  ((System.init singleSlotConf).run (fun s a => decide (System.ProcessorRepliesOnce s a))
    [.receive (sampleRequest 10), .addInflight "a", .dispatch "b",
     .receive (sampleRequest 11)]).getD (System.init singleSlotConf)

/-- The loop holding 11 cannot admit it, and the processor's reply to 10 and its
acknowledgement let it. -/
theorem singleSlot_wait_ends :
    Reaches singleSlotConf System.ProcessorRepliesOnce singleSlotState ∧
    (singleSlotState.step (.addInflight "c")).isNone ∧
    ∃ actions s', (∀ a ∈ actions, a.Answers) ∧
      singleSlotState.run (fun s a => decide (System.ProcessorRepliesOnce s a)) actions =
        some s' ∧
      s'.consumer = .received (sampleRequest 11) ∧ s'.bridge.inFlight.entries = [] ∧
      ∀ uuid', ∃ s'', s'.step (.addInflight uuid') = some s'' :=
  have reaches : Reaches singleSlotConf System.ProcessorRepliesOnce singleSlotState := by
    obtain ⟨s, ran⟩ := Option.isSome_iff_exists.mp (by decide :
      ((System.init singleSlotConf).run (fun s a => decide (System.ProcessorRepliesOnce s a))
        [.receive (sampleRequest 10), .addInflight "a", .dispatch "b",
         .receive (sampleRequest 11)]).isSome)
    rw [singleSlotState, ran]
    exact Reaches.run (fun _ _ => of_decide_eq_true) .init ran
  ⟨reaches, by decide, consumer_wait_can_end reaches (by decide) (by decide) (by decide)
    sampleReply "c"⟩

end EthConnect
