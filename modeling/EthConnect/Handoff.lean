import EthConnect.Join

/-!
# The consumer loop hands every context on, and replies to none twice

After `addInflightMsg` the consumer loop hands the new context to `processor.OnMessage`
or, when its headers failed to decode, replies to it itself with a generic error, so no
admitted context is dropped (`admitted_contexts_handed_on`).  The loop replies only to a
fresh context it keeps to itself: when the processor replies at most once to each
context it is handed, no context is replied to twice and `ProducerSuccessLoop` never
reaches its "not in in-flight map" panic (`success_loop_never_panics`).  Once every
context handed on is answered and every reply acknowledged, the map is empty
(`drained_bridge_holds_nothing`).
-/

namespace EthConnect

namespace System

variable {s s' : System}

/-- Every context `addInflightMsg` created has been handed to `processor.OnMessage`, or
has a reply written, or is held by the consumer loop on its way to one of the two. -/
def Handled (s : System) : Prop :=
  ∀ p < s.bridge.allocated, p ∈ s.dispatched ∨ 0 < repliesOf p s.sent ∨
    ∃ msg err, s.consumer = .dispatching msg (some p) err

theorem Handled.mono (handled : s.Handled) (allocated : s'.bridge.allocated = s.bridge.allocated)
    (dispatched : s.dispatched ⊆ s'.dispatched) (sent : s.sent.Sublist s'.sent)
    (consumer : ∀ msg p err, s.consumer = .dispatching msg (some p) err →
      p ∈ s'.dispatched ∨ 0 < repliesOf p s'.sent ∨
        ∃ msg err, s'.consumer = .dispatching msg (some p) err) :
    s'.Handled := fun p below => by
  rw [allocated] at below
  rcases handled p below with handed | replied | ⟨msg, err, holding⟩
  · exact .inl (dispatched handed)
  · exact .inr (.inl (lt_of_lt_of_le replied (sent.countP_le _)))
  · exact consumer msg p err holding

theorem Handled.step (handled : s.Handled) {a : Action} (stepped : s.step a = some s') :
    s'.Handled := by
  unfold System.step at stepped
  split_ifs at stepped
  cases a with
  | receive _ =>
      obtain ⟨receiving, -, rfl⟩ := receive_eq_some stepped
      exact handled.mono rfl (fun _ => id) (List.Sublist.refl _) (by simp [receiving])
  | addInflight uuid =>
      obtain ⟨msg, holding, -, rfl⟩ := addInflight_eq_some stepped
      by_cases dup : s.bridge.HoldsCoordinate msg
      · rw [addInflightMsg_of_holds uuid dup]
        exact handled.mono rfl (fun _ => id) (List.Sublist.refl _) (by simp [holding])
      · rw [addInflightMsg_of_not_holds uuid dup]
        intro p below
        rcases Nat.lt_succ_iff_lt_or_eq.mp below with old | rfl
        · rcases handled p old with handed | replied | ⟨_, _, held⟩
          · exact .inl handed
          · exact .inr (.inl replied)
          · simp [holding] at held
        · exact .inr (.inr ⟨msg, _, rfl⟩)
  | dispatch _ =>
      rcases dispatch_eq_some stepped with ⟨_, _, holding, rfl⟩ | ⟨_, p, holding, rfl⟩ |
        ⟨_, p, _, holding, rfl⟩
      · exact handled.mono rfl (fun _ => id) (List.Sublist.refl _) (by simp [holding])
      · refine handled.mono rfl (fun _ => List.mem_append_left _) (List.Sublist.refl _) ?_
        intro _ q _ held
        obtain ⟨-, same, -⟩ := ConsumerLoop.dispatching.inj (held.symm.trans holding)
        obtain rfl := Option.some.inj same
        exact .inl (List.mem_append_right _ (List.mem_singleton_self q))
      · refine handled.mono rfl (fun _ => id) (List.sublist_append_left _ _) ?_
        intro _ q _ held
        obtain ⟨-, same, -⟩ := ConsumerLoop.dispatching.inj (held.symm.trans holding)
        obtain rfl := Option.some.inj same
        exact .inr (.inl (by simp [repliesOf_append_singleton, reply_snd]))
  | processorReply _ _ _ =>
      obtain ⟨-, rfl⟩ := processorReply_eq_some stepped
      exact handled.mono rfl (fun _ => id) (List.sublist_append_left _ _)
        fun msg p err held => .inr (.inr ⟨msg, err, held⟩)
  | success _ _ =>
      obtain ⟨-, ⟨-, rfl⟩ | ⟨_, -, -, rfl⟩⟩ := success_eq_some stepped
      · exact handled.mono rfl (fun _ => id) (List.Sublist.refl _)
          fun msg p err held => .inr (.inr ⟨msg, err, held⟩)
      · exact handled.mono setInFlightComplete_allocated (fun _ => id) (List.Sublist.refl _)
          fun msg p err held => .inr (.inr ⟨msg, err, held⟩)
  | error _ =>
      obtain ⟨-, rfl⟩ := error_eq_some stepped
      exact handled.mono rfl (fun _ => id) (List.Sublist.refl _)
        fun msg p err held => .inr (.inr ⟨msg, err, held⟩)

/-- The processor replies to a context only while none of its replies is written, as
the contract of `msgContext.Reply` asks. -/
def ProcessorRepliesOnce (s : System) : Action → Prop
  | .processorReply p _ _ => repliesOf p s.sent = 0
  | _ => True

instance (s : System) : ∀ a, Decidable (ProcessorRepliesOnce s a)
  | .receive _ => isTrue trivial
  | .addInflight _ => isTrue trivial
  | .dispatch _ => isTrue trivial
  | .processorReply p _ _ => inferInstanceAs (Decidable (repliesOf p s.sent = 0))
  | .success _ _ => isTrue trivial
  | .error _ => isTrue trivial

/-- Replies are written for allocated contexts only, the context the consumer loop holds
has no reply and was not handed on, and no context has two replies. -/
structure RepliesFresh (s : System) : Prop where
  allocated : ∀ pm ∈ s.sent, pm.value < s.bridge.allocated
  held : ∀ msg p err, s.consumer = .dispatching msg (some p) err →
    repliesOf p s.sent = 0 ∧ p ∉ s.dispatched
  once : s.RepliedAtMostOnce

theorem RepliesFresh.unallocated (fresh : s.RepliesFresh) :
    repliesOf s.bridge.allocated s.sent = 0 :=
  List.countP_eq_zero.mpr fun pm member same =>
    (fresh.allocated pm member).ne (of_decide_eq_true same)

theorem RepliedAtMostOnce.append (once : s.RepliedAtMostOnce) {pm : ProducerMessage}
    (first : repliesOf pm.value s.sent = 0) (p : Nat) : repliesOf p (s.sent ++ [pm]) ≤ 1 := by
  rw [repliesOf_append_singleton]
  have := once p
  split_ifs with same
  · rw [← same]
    omega
  · omega

theorem RepliesFresh.step (fresh : s.RepliesFresh) (wf : s.Wf) {a : Action}
    (allowed : ProcessorRepliesOnce s a) (stepped : s.step a = some s') : s'.RepliesFresh := by
  unfold System.step at stepped
  split_ifs at stepped
  cases a with
  | receive _ =>
      obtain ⟨-, -, rfl⟩ := receive_eq_some stepped
      exact ⟨fresh.allocated, by simp, fresh.once⟩
  | addInflight uuid =>
      obtain ⟨msg, -, -, rfl⟩ := addInflight_eq_some stepped
      by_cases dup : s.bridge.HoldsCoordinate msg
      · rw [addInflightMsg_of_holds uuid dup]
        exact ⟨fresh.allocated, by simp, fresh.once⟩
      · rw [addInflightMsg_of_not_holds uuid dup]
        refine ⟨fun pm member => Nat.lt_succ_of_lt (fresh.allocated pm member), ?_, fresh.once⟩
        intro _ p _ held
        obtain ⟨-, same, -⟩ := ConsumerLoop.dispatching.inj held
        obtain rfl := Option.some.inj same
        exact ⟨fresh.unallocated, fun handed => (wf.dispatched _ handed).false⟩
  | dispatch _ =>
      rcases dispatch_eq_some stepped with ⟨_, _, -, rfl⟩ | ⟨_, _, -, rfl⟩ |
        ⟨_, p, _, holding, rfl⟩
      · exact ⟨fresh.allocated, by simp, fresh.once⟩
      · exact ⟨fresh.allocated, by simp, fresh.once⟩
      · have allocated : p < s.bridge.allocated := by
          simpa [ConsumerOk, holding] using wf.consumer
        refine ⟨fun pm member => ?_, by simp, fresh.once.append (fresh.held _ _ _ holding).1⟩
        simp only [enqueue_sent, List.mem_append, List.mem_singleton] at member
        rcases member with old | rfl
        · exact fresh.allocated pm old
        · exact allocated
  | processorReply p _ _ =>
      obtain ⟨handed, rfl⟩ := processorReply_eq_some stepped
      refine ⟨fun pm member => ?_, fun msg q err held => ?_, fresh.once.append allowed⟩
      · simp only [enqueue_sent, List.mem_append, List.mem_singleton] at member
        rcases member with old | rfl
        · exact fresh.allocated pm old
        · exact wf.dispatched p handed
      · obtain ⟨none, kept⟩ := fresh.held msg q err held
        have other : p ≠ q := fun same => kept (same ▸ handed)
        refine ⟨?_, kept⟩
        simpa [repliesOf_append_singleton, reply_snd, other] using none
  | success _ _ =>
      obtain ⟨-, ⟨-, rfl⟩ | ⟨_, -, -, rfl⟩⟩ := success_eq_some stepped
      · exact ⟨fresh.allocated, fresh.held, fresh.once⟩
      · exact ⟨by simpa [setInFlightComplete_allocated] using fresh.allocated, fresh.held,
          fresh.once⟩
  | error _ =>
      obtain ⟨-, rfl⟩ := error_eq_some stepped
      exact ⟨fresh.allocated, fresh.held, fresh.once⟩

/-- Until something panics, a context whose replies are not all outstanding has had one
acknowledged, and is complete. -/
def Acknowledged (s : System) : Prop :=
  s.panicked = none → ∀ p, repliesOf p s.pending < repliesOf p s.sent →
    (s.bridge.heap p).complete = true

theorem Acknowledged.enqueue (acknowledged : s.Acknowledged) {p : Nat}
    {replyMessage : ReplyWithHeaders} {uuid : String} (consumer : ConsumerLoop) :
    ({ s.enqueue (reply s.bridge p replyMessage uuid) with consumer } : System).Acknowledged :=
  fun alive q answered => by
    simp only [enqueue_pending, enqueue_sent, repliesOf_append_singleton] at answered
    simpa using acknowledged alive q (by omega)

theorem Acknowledged.step (acknowledged : s.Acknowledged) (joined : s.Joined)
    (fresh : s.RepliesFresh) {a : Action} (stepped : s.step a = some s') : s'.Acknowledged := by
  unfold System.step at stepped
  split_ifs at stepped
  cases a with
  | receive _ =>
      obtain ⟨-, -, rfl⟩ := receive_eq_some stepped
      exact acknowledged
  | addInflight uuid =>
      obtain ⟨msg, -, -, rfl⟩ := addInflight_eq_some stepped
      by_cases dup : s.bridge.HoldsCoordinate msg
      · rw [addInflightMsg_of_holds uuid dup]
        exact acknowledged
      · rw [addInflightMsg_of_not_holds uuid dup]
        intro alive p answered
        change repliesOf p s.pending < repliesOf p s.sent at answered
        have old : p ≠ s.bridge.allocated := by
          rintro rfl
          have := fresh.unallocated
          omega
        simpa [insertContext_heap, old] using acknowledged alive p answered
  | dispatch _ =>
      rcases dispatch_eq_some stepped with ⟨_, _, -, rfl⟩ | ⟨_, _, -, rfl⟩ | ⟨_, _, _, -, rfl⟩
      · exact acknowledged
      · exact acknowledged
      · exact acknowledged.enqueue _
  | processorReply _ _ _ =>
      obtain ⟨-, rfl⟩ := processorReply_eq_some stepped
      exact acknowledged.enqueue s.consumer
  | success pm _ =>
      obtain ⟨waiting, ⟨-, rfl⟩ | ⟨p, found, -, rfl⟩⟩ := success_eq_some stepped
      · intro dead
        cases dead
      · obtain rfl : p = pm.value := Option.some.inj (found.symm.trans (joined.found pm waiting).1)
        intro alive q answered
        change repliesOf q (s.pending.erase pm) < repliesOf q s.sent at answered
        have removed := repliesOf_erase (p := q) waiting
        rw [setInFlightComplete_heap, KafkaBridge.setComplete_complete_eq_true]
        by_cases same : pm.value = q
        · exact .inl same.symm
        · simp only [same, if_false, Nat.add_zero] at removed
          exact .inr (acknowledged alive q (removed ▸ answered))
  | error _ =>
      obtain ⟨-, rfl⟩ := error_eq_some stepped
      intro dead
      cases dead

end System

variable {conf : KafkaBridgeConf} {s : System}

theorem Reaches.handled {allowed : System → Action → Prop} (reaches : Reaches conf allowed s) :
    s.Handled := by
  induction reaches with
  | init => exact fun _ below => absurd below (Nat.not_lt_zero _)
  | step _ _ stepped handled => exact handled.step stepped

/-- The consumer loop drops no context it admitted: in every reachable state each one
has been handed to `processor.OnMessage`, or has a reply written, or is held by the loop
on its way to one of the two. -/
theorem admitted_contexts_handed_on (reachable : Reachable conf s) :
    ∀ p < s.bridge.allocated, p ∈ s.dispatched ∨ 0 < System.repliesOf p s.sent ∨
      ∃ msg err, s.consumer = .dispatching msg (some p) err :=
  reachable.handled

/-- Once 12 is admitted, the consumer loop holds its context on the way to the
processor. -/
theorem outOfOrder_twelve_held_for_processor :
    Reachable sampleConf (outOfOrderState 8) ∧
    (2 ∈ (outOfOrderState 8).dispatched ∨ 0 < System.repliesOf 2 (outOfOrderState 8).sent ∨
      ∃ msg err, (outOfOrderState 8).consumer = .dispatching msg (some 2) err) :=
  have reachable : Reachable sampleConf (outOfOrderState 8) :=
    outOfOrderState_reachable (by decide)
  ⟨reachable, admitted_contexts_handed_on reachable 2 (by decide)⟩

theorem Reaches.repliesFresh (reaches : Reaches conf System.ProcessorRepliesOnce s) :
    s.RepliesFresh := by
  induction reaches with
  | init =>
      exact ⟨fun _ member => by simp [System.init] at member,
        fun _ _ _ held => by simp [System.init] at held, fun _ => by simp [System.init,
          System.repliesOf]⟩
  | step reached allowed stepped fresh => exact fresh.step (Reaches.wf reached) allowed stepped

/-- In every run where the processor replies at most once to each context it is handed,
no context is ever replied to twice, and `ProducerSuccessLoop` never panics with "not in
in-flight map". -/
theorem success_loop_never_panics (reaches : Reaches conf System.ProcessorRepliesOnce s) :
    s.RepliedAtMostOnce ∧ ∀ err, s.panicked ≠ some (.notInFlight err) := by
  refine ⟨reaches.repliesFresh.once, ?_⟩
  induction reaches with
  | init => simp [System.init]
  | @step s s' a reached _ stepped alive =>
      have joined := Reaches.joined reached reached.repliesFresh.once
      unfold System.step at stepped
      split_ifs at stepped
      cases a with
      | receive _ => obtain ⟨-, -, rfl⟩ := System.receive_eq_some stepped; exact alive
      | addInflight _ =>
          obtain ⟨-, -, -, rfl⟩ := System.addInflight_eq_some stepped; exact alive
      | dispatch _ =>
          rcases System.dispatch_eq_some stepped with ⟨_, _, -, rfl⟩ | ⟨_, _, -, rfl⟩ |
            ⟨_, _, _, -, rfl⟩ <;> exact alive
      | processorReply _ _ _ =>
          obtain ⟨-, rfl⟩ := System.processorReply_eq_some stepped; exact alive
      | success pm _ =>
          obtain ⟨waiting, ⟨missing, -⟩ | ⟨_, -, -, rfl⟩⟩ := System.success_eq_some stepped
          · simp [(joined.found pm waiting).1] at missing
          · exact alive
      | error _ => obtain ⟨-, rfl⟩ := System.error_eq_some stepped; simp

/-- The out-of-order run has the processor reply once to each context, and never
panics. -/
theorem outOfOrder_replies_once_never_panics :
    Reaches sampleConf System.ProcessorRepliesOnce
      (sampleRun (fun s a => decide (System.ProcessorRepliesOnce s a)) outOfOrderActions) ∧
    (sampleRun (fun s a => decide (System.ProcessorRepliesOnce s a))
      outOfOrderActions).RepliedAtMostOnce ∧
    ∀ err, (sampleRun (fun s a => decide (System.ProcessorRepliesOnce s a))
      outOfOrderActions).panicked ≠ some (.notInFlight err) :=
  have reaches : Reaches sampleConf System.ProcessorRepliesOnce
      (sampleRun (fun s a => decide (System.ProcessorRepliesOnce s a)) outOfOrderActions) :=
    sampleRun_reaches (fun _ _ => of_decide_eq_true) (by decide)
  ⟨reaches, success_loop_never_panics reaches⟩

theorem Reaches.acknowledged (reaches : Reaches conf System.ProcessorRepliesOnce s) :
    s.Acknowledged := by
  induction reaches with
  | init => exact fun _ p answered => by simp [System.init, System.repliesOf] at answered
  | step reached _ stepped acknowledged =>
      have fresh := reached.repliesFresh
      exact acknowledged.step (Reaches.joined reached fresh.once) fresh stepped

theorem Reaches.entries_nil_of_drained (reaches : Reaches conf System.ProcessorRepliesOnce s)
    (alive : s.panicked = none) (acknowledged : s.pending = [])
    (answered : ∀ p ∈ s.dispatched, 0 < System.repliesOf p s.sent)
    (idle : ∀ msg p err, s.consumer ≠ .dispatching msg (some p) err) :
    s.bridge.inFlight.entries = [] := by
  have complete : ∀ p ∈ s.bridge.pointers, (s.bridge.heap p).complete = true := by
    intro p inFlight
    have replied : 0 < System.repliesOf p s.sent := by
      rcases reaches.handled p (KafkaBridge.lt_allocated inFlight) with
        handed | replied | ⟨msg, err, held⟩
      · exact answered p handed
      · exact replied
      · exact absurd held (idle msg p err)
    exact reaches.acknowledged alive p (by simpa [acknowledged, System.repliesOf] using replied)
  by_contra nonempty
  obtain ⟨e, member⟩ := List.exists_mem_of_ne_nil _ nonempty
  obtain ⟨p, inFlight, -, -, incomplete⟩ :=
    (Reaches.wf reaches).incompleteBelow e.2 (List.mem_map_of_mem _ member)
  simp [complete p inFlight] at incomplete

/-- A bridge that has answered everything holds nothing.  When the processor has replied,
at most once, to every context it was handed, every reply has been acknowledged, the
consumer loop holds no context and nothing panicked, the in-flight map is empty: no
context is left behind. -/
theorem drained_bridge_holds_nothing (reaches : Reaches conf System.ProcessorRepliesOnce s)
    (alive : s.panicked = none) (acknowledged : s.pending = [])
    (answered : ∀ p ∈ s.dispatched, 0 < System.repliesOf p s.sent)
    (idle : ∀ msg p err, s.consumer ≠ .dispatching msg (some p) err) :
    s.bridge.inFlight.entries = [] :=
  reaches.entries_nil_of_drained alive acknowledged answered idle

/-- The out-of-order run ends answered, acknowledged and idle, with an empty map. -/
theorem outOfOrder_drained_empty :
    Reaches sampleConf System.ProcessorRepliesOnce
      (sampleRun (fun s a => decide (System.ProcessorRepliesOnce s a)) outOfOrderActions) ∧
    (sampleRun (fun s a => decide (System.ProcessorRepliesOnce s a)) outOfOrderActions).panicked =
      none ∧
    (sampleRun (fun s a => decide (System.ProcessorRepliesOnce s a)) outOfOrderActions).pending =
      [] ∧
    (sampleRun (fun s a => decide (System.ProcessorRepliesOnce s a))
      outOfOrderActions).bridge.inFlight.entries = [] :=
  have reaches : Reaches sampleConf System.ProcessorRepliesOnce
      (sampleRun (fun s a => decide (System.ProcessorRepliesOnce s a)) outOfOrderActions) :=
    sampleRun_reaches (fun _ _ => of_decide_eq_true) (by decide)
  have alive : (sampleRun (fun s a => decide (System.ProcessorRepliesOnce s a))
      outOfOrderActions).panicked = none := by decide
  have acknowledged : (sampleRun (fun s a => decide (System.ProcessorRepliesOnce s a))
      outOfOrderActions).pending = [] := by decide
  have idle : (sampleRun (fun s a => decide (System.ProcessorRepliesOnce s a))
      outOfOrderActions).consumer = .receiving := by decide
  ⟨reaches, alive, acknowledged, drained_bridge_holds_nothing reaches alive acknowledged
    (by decide) fun _ _ _ held => ConsumerLoop.noConfusion (idle.symm.trans held)⟩

/-- A processor that replies twice to a context makes the second success panic. -/
example :
    (sampleRun (fun _ _ => true)
      [.receive (sampleRequest 10), .addInflight "a", .dispatch "b",
       .processorReply 0 sampleReply "c", .processorReply 0 sampleReply "d",
       .success (sampleReplyTo 10 0) [⟨"in:0:10", 0⟩], .success (sampleReplyTo 10 0) []]).panicked =
      some (.notInFlight (System.notInFlightError "in:0:10")) := by
  decide

end EthConnect
