import EthConnect.Invariant
import Mathlib.Data.Finset.Max

/-!
# Offsets are marked only behind complete work

Contexts leave the in-flight map only through `setInFlightComplete`, as the complete
prefix of their partition.  So over every run a marked offset has every context at or
below it on its partition complete and gone (`markOffset_only_behind_complete`); the
lowest in-flight context of a partition is incomplete (`lowest_in_flight_incomplete`);
the marks of a partition increase strictly while messages are admitted above them
(`marks_increase_of_admitted_above_marks`: admission, not receipt, after the capacity
wait); and a context that has left the map is covered by a mark at or above its offset
(`left_contexts_marked`).
-/

namespace EthConnect

variable {conf : KafkaBridgeConf} {s s' : System}

private theorem exists_lowest (k : KafkaBridge) {q : Nat} (inFlight : q ∈ k.pointers) :
    ∃ m ∈ k.pointers, k.partitionOf m = k.partitionOf q ∧
      ∀ r ∈ k.pointers, k.partitionOf r = k.partitionOf q → k.offsetOf m ≤ k.offsetOf r := by
  obtain ⟨m, member, lowest⟩ :=
    ((k.pointers.filter fun r => k.partitionOf r = k.partitionOf q).toFinset).exists_min_image
      k.offsetOf ⟨q, by simp [inFlight]⟩
  simp only [List.mem_toFinset, List.mem_filter, decide_eq_true_eq] at member lowest
  exact ⟨m, member.1, member.2, fun r rIn rPart => lowest r ⟨rIn, rPart⟩⟩

private theorem exists_incomplete {k : KafkaBridge} (below : k.IncompleteBelow)
    (nonempty : k.inFlight.entries ≠ []) : ∃ q ∈ k.pointers, (k.heap q).complete = false := by
  obtain ⟨e, member⟩ := List.exists_mem_of_ne_nil _ nonempty
  obtain ⟨p, pIn, -, -, incomplete⟩ := below e.2 (List.mem_map_of_mem _ member)
  exact ⟨p, pIn, incomplete⟩

/-- In every reachable state, every partition with in-flight contexts has an incomplete
one of lowest offset.  Hence every complete context in the map waits behind an
incomplete one of lower offset on its partition, a map of complete contexts is empty,
and a non-empty map holds a context still waiting for its producer success. -/
theorem lowest_in_flight_incomplete (reachable : Reachable conf s) :
    (∀ q ∈ s.bridge.pointers, ∃ p ∈ s.bridge.pointers,
      s.bridge.partitionOf p = s.bridge.partitionOf q ∧ (s.bridge.heap p).complete = false ∧
      ∀ r ∈ s.bridge.pointers, s.bridge.partitionOf r = s.bridge.partitionOf q →
        s.bridge.offsetOf p ≤ s.bridge.offsetOf r) ∧
    (∀ q ∈ s.bridge.pointers, (s.bridge.heap q).complete = true →
      ∃ p ∈ s.bridge.pointers, s.bridge.partitionOf p = s.bridge.partitionOf q ∧
        s.bridge.offsetOf p < s.bridge.offsetOf q ∧ (s.bridge.heap p).complete = false) ∧
    ((∀ q ∈ s.bridge.pointers, (s.bridge.heap q).complete = true) →
      s.bridge.inFlight.entries = []) ∧
    (s.bridge.inFlight.entries ≠ [] →
      ∃ q ∈ s.bridge.pointers, (s.bridge.heap q).complete = false) := by
  have wf := Reaches.wf reachable
  have below := wf.incompleteBelow
  refine ⟨fun q inFlight => ?_, fun q inFlight complete => ?_, fun allComplete => ?_,
    exists_incomplete below⟩
  · obtain ⟨m, mIn, mPart, lowest⟩ := exists_lowest s.bridge inFlight
    obtain ⟨p, pIn, pPart, pOffset, incomplete⟩ := below m mIn
    exact ⟨p, pIn, pPart.trans mPart, incomplete,
      fun r rIn rPart => pOffset.trans (lowest r rIn rPart)⟩
  · obtain ⟨p, pIn, pPart, pOffset, incomplete⟩ := below q inFlight
    have different : p ≠ q := by
      rintro rfl
      simp [complete] at incomplete
    exact ⟨p, pIn, pPart, lt_of_le_of_ne pOffset fun same =>
      different (wf.distinctOffsets p pIn q inFlight pPart same), incomplete⟩
  · by_contra nonempty
    obtain ⟨q, inFlight, incomplete⟩ := exists_incomplete below nonempty
    simp [allComplete q inFlight] at incomplete

/-- Once 11 is confirmed, its context waits behind the incomplete one of 10. -/
theorem outOfOrder_eleven_waits_behind_ten :
    Reachable sampleConf (outOfOrderState 13) ∧
    ∃ p ∈ (outOfOrderState 13).bridge.pointers,
      (outOfOrderState 13).bridge.partitionOf p = (outOfOrderState 13).bridge.partitionOf 1 ∧
      (outOfOrderState 13).bridge.offsetOf p < (outOfOrderState 13).bridge.offsetOf 1 ∧
      ((outOfOrderState 13).bridge.heap p).complete = false :=
  have reachable : Reachable sampleConf (outOfOrderState 13) :=
    outOfOrderState_reachable (by decide)
  ⟨reachable, (lowest_in_flight_incomplete reachable).2.1 1 (by decide) (by decide)⟩

theorem System.marking_step {a : Action} (stepped : s.step a = some s')
    {mark : ConsumerMessage} (marked : s'.marked = s.marked ++ [mark]) :
    ∃ order p, order.Perm s.bridge.inFlight.entries ∧
      s'.bridge = (setInFlightComplete s.bridge p order).1 ∧
      (setInFlightComplete s.bridge p order).2 = some mark := by
  rcases System.step_cases stepped with frame | ⟨_, _, _, _, _, _, _, same⟩ |
    ⟨_, order, p, _, _, iteration, bridge, extended⟩
  · simp [frame.marked] at marked
  · simp [same] at marked
  · refine ⟨order, p, iteration, bridge, ?_⟩
    rw [marked, List.append_cancel_left_eq] at extended
    exact Option.mem_toList.mp (extended ▸ List.mem_singleton_self mark)

/-- When `setInFlightComplete` marks an offset on a partition, every context ever
admitted at or below that offset on that topic and partition is complete, and none of
them is left in the map. -/
theorem markOffset_only_behind_complete (reachable : Reachable conf s) {a : Action}
    (stepped : s.step a = some s') {mark : ConsumerMessage}
    (marked : s'.marked = s.marked ++ [mark]) :
    ∀ q < s'.bridge.allocated, (s'.bridge.heap q).saramaMsg.topic = mark.topic →
      (s'.bridge.heap q).saramaMsg.partition = mark.partition →
      (s'.bridge.heap q).saramaMsg.offset ≤ mark.offset →
        (s'.bridge.heap q).complete = true ∧ q ∉ s'.bridge.pointers := by
  have wf := Reaches.wf reachable
  have distinct := wf.distinctOffsets
  obtain ⟨order, ptr, iteration, bridge, result⟩ := System.marking_step stepped marked
  obtain ⟨highest, ackable, rfl, -⟩ := setInFlightComplete_mark_eq_some iteration distinct result
  intro q below _ partition offset
  rw [bridge] at below partition offset ⊢
  simp only [setInFlightComplete_allocated, setInFlightComplete_heap,
    KafkaBridge.setComplete_saramaMsg] at below partition offset ⊢
  rw [mem_setInFlightComplete_pointers iteration distinct, not_and_not_right]
  by_cases inFlight : q ∈ s.bridge.pointers
  · have qAckable : s.bridge.Ackable ptr q :=
      ⟨inFlight, partition.trans ackable.2.1,
        fun r rIn rPart rOffset => ackable.2.2 r rIn rPart (rOffset.trans offset)⟩
    exact ⟨qAckable.complete, fun _ => qAckable⟩
  · have complete := (wf.settled q below).resolve_right inFlight
    exact ⟨(KafkaBridge.setComplete_complete_eq_true _ _ _).mpr (.inr complete),
      fun member => absurd member inFlight⟩

/-- The success of 10 marks 12, behind the complete context of 11, now out of the map. -/
theorem outOfOrder_mark_twelve_behind_eleven :
    Reachable sampleConf (outOfOrderState 14) ∧
    (outOfOrderState 14).step (.success (sampleReplyTo 10 0) sampleOrder) =
      some (outOfOrderState 15) ∧
    (outOfOrderState 15).marked = (outOfOrderState 14).marked ++ [sampleRequest 12] ∧
    ((outOfOrderState 15).bridge.heap 1).complete = true ∧
    1 ∉ (outOfOrderState 15).bridge.pointers :=
  have reachable : Reachable sampleConf (outOfOrderState 14) :=
    outOfOrderState_reachable (by decide)
  have stepped : (outOfOrderState 14).step (.success (sampleReplyTo 10 0) sampleOrder) =
      some (outOfOrderState 15) := rfl
  have marked : (outOfOrderState 15).marked = (outOfOrderState 14).marked ++ [sampleRequest 12] :=
    by decide
  ⟨reachable, stepped, marked, markOffset_only_behind_complete reachable stepped marked 1
    (by decide) (by decide) (by decide) (by decide)⟩

/-- The successes of 11 and 12 mark nothing; that of 10 marks 12 and empties the map. -/
example : (outOfOrderState 14).marked = [] ∧ (outOfOrderState 15).marked = [sampleRequest 12] ∧
    (outOfOrderState 15).bridge.inFlight.entries = [] := by
  decide

/-- The message the consumer loop holds between receiving it and `addInflightMsg`. -/
def ConsumerLoop.heldMessage : ConsumerLoop → Option ConsumerMessage
  | .received msg => some msg
  | _ => none

/-- `msg` lies above every offset marked on its partition. -/
def AboveMarked (marked : List ConsumerMessage) (msg : ConsumerMessage) : Prop :=
  ∀ mark ∈ marked, mark.partition = msg.partition → mark.offset < msg.offset

instance (marked : List ConsumerMessage) (msg : ConsumerMessage) :
    Decidable (AboveMarked marked msg) :=
  inferInstanceAs (Decidable (∀ mark ∈ marked, mark.partition = msg.partition →
    mark.offset < msg.offset))

/-- Messages are admitted only above the offsets already marked on their partition. -/
def AdmittedAboveMarks (s : System) : Action → Prop
  | .addInflight _ => ∀ msg ∈ s.consumer.heldMessage, AboveMarked s.marked msg
  | _ => True

instance (s : System) : ∀ a, Decidable (AdmittedAboveMarks s a)
  | .receive _ => isTrue trivial
  | .addInflight _ =>
      inferInstanceAs (Decidable (∀ msg ∈ s.consumer.heldMessage, AboveMarked s.marked msg))
  | .dispatch _ => isTrue trivial
  | .processorReply _ _ _ => isTrue trivial
  | .success _ _ => isTrue trivial
  | .error _ => isTrue trivial

/-- The offsets marked on each partition increase strictly. -/
def MarksIncrease (marked : List ConsumerMessage) : Prop :=
  marked.Pairwise fun earlier later =>
    earlier.partition = later.partition → earlier.offset < later.offset

/-- Every in-flight context lies above every offset marked on its partition. -/
def AboveMarks (s : System) : Prop :=
  ∀ q ∈ s.bridge.pointers, ∀ mark ∈ s.marked,
    mark.partition = s.bridge.partitionOf q → mark.offset < s.bridge.offsetOf q

theorem aboveMarks_step (wf : s.Wf) (above : AboveMarks s) {a : Action}
    (allowed : AdmittedAboveMarks s a) (stepped : s.step a = some s') : AboveMarks s' := by
  rcases System.step_cases stepped with frame | ⟨msg, uuid, rfl, held, _, fresh, bridge, same⟩ |
    ⟨_, order, p, _, _, iteration, bridge, extended⟩
  · intro q inFlight mark markIn
    simpa [KafkaBridge.partitionOf, KafkaBridge.offsetOf, frame.saramaMsg, frame.marked] using
      above q (by simpa [KafkaBridge.pointers, frame.inFlight] using inFlight) mark
        (frame.marked ▸ markIn)
  · intro q inFlight mark markIn
    rw [bridge, mem_insertContext_pointers uuid fresh] at inFlight
    rw [same] at markIn
    rcases inFlight with rfl | old
    · simpa [bridge, KafkaBridge.partitionOf, KafkaBridge.offsetOf, insertContext_heap] using
        allowed msg (by simp [held, ConsumerLoop.heldMessage]) mark markIn
    · simpa [bridge, KafkaBridge.partitionOf, KafkaBridge.offsetOf, insertContext_heap,
        (KafkaBridge.lt_allocated old).ne] using above q old mark markIn
  · have distinct := wf.distinctOffsets
    intro q inFlight mark markIn
    rw [bridge] at inFlight ⊢
    rw [setInFlightComplete_partitionOf, setInFlightComplete_offsetOf]
    rw [extended, List.mem_append] at markIn
    rcases markIn with old | new
    · exact above q ((mem_setInFlightComplete_pointers iteration distinct).mp inFlight).1 mark old
    · obtain ⟨highest, ackable, rfl, -⟩ :=
        setInFlightComplete_mark_eq_some iteration distinct (Option.mem_toList.mp new)
      exact fun partition => offsetOf_lt_of_ackable iteration distinct ackable inFlight
        (partition.symm.trans ackable.2.1)

theorem marksIncrease_step (wf : s.Wf) (above : AboveMarks s) (increasing : MarksIncrease s.marked)
    {a : Action} (stepped : s.step a = some s') : MarksIncrease s'.marked := by
  rcases System.step_cases stepped with frame | ⟨_, _, _, _, _, _, _, same⟩ |
    ⟨_, order, p, _, _, iteration, _, extended⟩
  · rwa [frame.marked]
  · rwa [same]
  · rw [extended, MarksIncrease, List.pairwise_append]
    refine ⟨increasing, by cases (setInFlightComplete s.bridge p order).2 <;> simp, ?_⟩
    intro mark markIn highestMark new partition
    obtain ⟨highest, ackable, rfl, -⟩ :=
      setInFlightComplete_mark_eq_some iteration wf.distinctOffsets (Option.mem_toList.mp new)
    exact above highest ackable.1 mark markIn partition

/-- When every message is admitted above the offsets marked on its partition, the
offsets `setInFlightComplete` marks on each partition increase strictly. -/
theorem marks_increase_of_admitted_above_marks
    (reaches : Reaches conf AdmittedAboveMarks s) : MarksIncrease s.marked := by
  suffices AboveMarks s ∧ MarksIncrease s.marked from this.2
  induction reaches with
  | init =>
      exact ⟨fun q inFlight => by
        simp [KafkaBridge.pointers, System.init, KafkaBridge.new] at inFlight,
        List.Pairwise.nil⟩
  | step reached allowed stepped ih =>
      have wf := Reaches.wf reached
      exact ⟨aboveMarks_step wf ih.1 allowed stepped,
        marksIncrease_step wf ih.1 ih.2 stepped⟩

/-- The request at 10 is admitted, replied to and acknowledged, which marks 10; the
request at 11 is then admitted above that mark, and its success marks 11. -/
def inOrderActions : List Action :=
  [.receive (sampleRequest 10), .addInflight "a", .dispatch "b",
   .processorReply 0 sampleReply "c", .success (sampleReplyTo 10 0) [⟨"in:0:10", 0⟩],
   .receive (sampleRequest 11), .addInflight "d", .dispatch "e",
   .processorReply 1 sampleReply "f", .success (sampleReplyTo 11 1) [⟨"in:0:11", 1⟩]]

/-- Admitted above the mark of 10, the request at 11 is marked after it: 10, then 11. -/
theorem inOrder_marks_ten_then_eleven :
    Reaches sampleConf AdmittedAboveMarks
      (sampleRun (fun s a => decide (AdmittedAboveMarks s a)) inOrderActions) ∧
    (sampleRun (fun s a => decide (AdmittedAboveMarks s a)) inOrderActions).marked.map
      ConsumerMessage.offset = [10, 11] ∧
    MarksIncrease
      (sampleRun (fun s a => decide (AdmittedAboveMarks s a)) inOrderActions).marked :=
  have reaches : Reaches sampleConf AdmittedAboveMarks
      (sampleRun (fun s a => decide (AdmittedAboveMarks s a)) inOrderActions) :=
    sampleRun_reaches (fun _ _ => of_decide_eq_true) (by decide)
  ⟨reaches, by decide, marks_increase_of_admitted_above_marks reaches⟩

/-! ## Every context that leaves the map is covered by a mark -/

/-- Every context that has left the map is covered by a mark on its topic and partition
at or above its offset. -/
def System.Covered (s : System) : Prop :=
  ∀ q < s.bridge.allocated, q ∉ s.bridge.pointers →
    ∃ m ∈ s.marked, m.topic = (s.bridge.heap q).saramaMsg.topic ∧
      m.partition = s.bridge.partitionOf q ∧ s.bridge.offsetOf q ≤ m.offset

theorem covered_step (wf : s.Wf) (covered : s.Covered) {a : Action}
    (stepped : s.step a = some s') : s'.Covered := by
  rcases System.step_cases stepped with frame | ⟨msg, uuid, -, -, -, fresh, bridge, same⟩ |
    ⟨_, order, p, _, _, iteration, bridge, extended⟩
  · intro q below gone
    rw [frame.allocated] at below
    simpa [KafkaBridge.partitionOf, KafkaBridge.offsetOf, frame.saramaMsg, frame.marked] using
      covered q below (by simpa [KafkaBridge.pointers, frame.inFlight] using gone)
  · intro q below gone
    rw [bridge, KafkaBridge.insertContext_allocated] at below
    rw [bridge, mem_insertContext_pointers uuid fresh, not_or] at gone
    have old : q < s.bridge.allocated := lt_of_le_of_ne (Nat.lt_succ_iff.mp below) gone.1
    simpa [bridge, same, KafkaBridge.partitionOf, KafkaBridge.offsetOf, insertContext_heap,
      old.ne] using covered q old gone.2
  · have distinct := wf.distinctOffsets
    intro q below gone
    rw [bridge, setInFlightComplete_allocated] at below
    rw [bridge, mem_setInFlightComplete_pointers iteration distinct, not_and_or, not_not] at gone
    rw [extended, bridge, setInFlightComplete_partitionOf, setInFlightComplete_offsetOf,
      setInFlightComplete_heap, KafkaBridge.setComplete_saramaMsg]
    rcases gone with gone | acked
    · obtain ⟨m, member, covering⟩ := covered q below gone
      exact ⟨m, List.mem_append_left _ member, covering⟩
    · obtain ⟨m, marked⟩ := Option.ne_none_iff_exists'.mp fun none =>
        (setInFlightComplete_mark_eq_none_iff iteration distinct).mp none q acked
      obtain ⟨highest, ackable, rfl, top⟩ :=
        setInFlightComplete_mark_eq_some iteration distinct marked
      refine ⟨_, List.mem_append_right _ (Option.mem_toList.mpr marked), ?_,
        ackable.2.1.trans acked.2.1.symm, top q acked⟩
      exact (wf.topicIn highest (KafkaBridge.lt_allocated ackable.1)).trans
        (wf.topicIn q below).symm

theorem Reaches.covered {allowed : System → Action → Prop}
    (reaches : Reaches conf allowed s) : s.Covered := by
  induction reaches with
  | init => exact fun _ below => absurd below (Nat.not_lt_zero _)
  | step reached _ stepped ih => exact covered_step (Reaches.wf reached) ih stepped

/-- No commit is lost: in every run, a context that has left the in-flight map is complete,
and `MarkOffset` was called on its topic and partition at or above its offset. -/
theorem left_contexts_marked (reachable : Reachable conf s) :
    ∀ q < s.bridge.allocated, q ∉ s.bridge.pointers →
      (s.bridge.heap q).complete = true ∧
      ∃ m ∈ s.marked, m.topic = (s.bridge.heap q).saramaMsg.topic ∧
        m.partition = s.bridge.partitionOf q ∧ s.bridge.offsetOf q ≤ m.offset :=
  fun q below gone =>
    ⟨((Reaches.wf reachable).settled q below).resolve_right gone,
      reachable.covered q below gone⟩

/-- Once 10 is confirmed, all three contexts have left the map, covered by the mark of 12. -/
theorem outOfOrder_all_marked :
    Reachable sampleConf (outOfOrderState 15) ∧
    ∀ q < (outOfOrderState 15).bridge.allocated, q ∉ (outOfOrderState 15).bridge.pointers ∧
      ∃ m ∈ (outOfOrderState 15).marked,
        m.topic = ((outOfOrderState 15).bridge.heap q).saramaMsg.topic ∧
        m.partition = (outOfOrderState 15).bridge.partitionOf q ∧
        (outOfOrderState 15).bridge.offsetOf q ≤ m.offset :=
  have reachable : Reachable sampleConf (outOfOrderState 15) :=
    outOfOrderState_reachable (by decide)
  have gone : ∀ q < (outOfOrderState 15).bridge.allocated,
      q ∉ (outOfOrderState 15).bridge.pointers := by decide
  ⟨reachable, fun q below =>
    ⟨gone q below, (left_contexts_marked reachable q below (gone q below)).2⟩⟩

end EthConnect
