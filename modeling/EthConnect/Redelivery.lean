import EthConnect.Commit

/-!
# Redeliveries

`addInflightMsg` drops a message whose coordinate is in the map, and the consumer loop
then neither hands it to the processor nor replies to it.  The check runs when the loop
holds the lock after its capacity wait, not when the message arrives: between the two,
the success loop may take the lock and acknowledge the context that held the
coordinate.  A redelivery that arrives while its coordinate is in flight is then
admitted again, handed to the processor a second time, and once its success arrives its
offset is marked once more, below an offset marked in between.
-/

namespace EthConnect

/-- The request at 10 is delivered, admitted, handed on and replied to; it is delivered
again; the success of the first reply is handled; then the consumer loop takes the
lock and admits the redelivery. -/
def redeliveryActions : List Action :=
  [.receive (sampleRequest 10), .addInflight "a", .dispatch "b", .processorReply 0 sampleReply "c",
   .receive (sampleRequest 10), .success (sampleReplyTo 10 0) [⟨"in:0:10", 0⟩],
   .addInflight "d", .dispatch "e"]

/-- The state after the first `n` steps of `redeliveryActions`. -/
def redeliveryState (n : Nat) : System :=
  sampleRun (fun _ _ => true) (redeliveryActions.take n)

/-- A message whose coordinate is in the map when `addInflightMsg` runs is dropped: the
step changes only where the consumer loop is, and the loop then goes back to
`consumer.Messages()` without calling `OnMessage` or replying, whatever runs between
the two steps. -/
theorem addInflight_drops_held_coordinate {s s' : System} {msg : ConsumerMessage}
    (holding : s.consumer = .received msg) (held : s.bridge.HoldsCoordinate msg)
    {uuid : String} (stepped : s.step (.addInflight uuid) = some s') :
    s' = { s with consumer := .dispatching msg none none } ∧
    ∀ t t' : System, t.consumer = .dispatching msg none none → ∀ uuid',
      t.step (.dispatch uuid') = some t' → t' = { t with consumer := .receiving } := by
  constructor
  · have alive := System.step_panicked stepped
    simp only [System.step, alive, Option.isSome_none, Bool.false_eq_true, if_false] at stepped
    obtain ⟨msg', holding', -, rfl⟩ := System.addInflight_eq_some stepped
    obtain rfl : msg' = msg := ConsumerLoop.received.inj (holding'.symm.trans holding)
    rw [addInflightMsg_of_holds uuid held]
  · intro t t' dispatching uuid' stepped
    have alive := System.step_panicked stepped
    simp only [System.step, alive, Option.isSome_none, Bool.false_eq_true, if_false] at stepped
    rcases System.dispatch_eq_some stepped with ⟨_, _, _, rfl⟩ | ⟨_, _, other, -⟩ |
      ⟨_, _, _, other, -⟩
    · rfl
    · simp [dispatching] at other
    · simp [dispatching] at other

/-- Admitted before the success of its first delivery, the redelivery of 10 is
dropped. -/
theorem redelivery_admitted_while_held_dropped :
    (redeliveryState 5).consumer = .received (sampleRequest 10) ∧
    (redeliveryState 5).bridge.HoldsCoordinate (sampleRequest 10) ∧
    ∃ s', (redeliveryState 5).step (.addInflight "d") = some s' ∧
      s' = { redeliveryState 5 with consumer := .dispatching (sampleRequest 10) none none } :=
  have holding : (redeliveryState 5).consumer = .received (sampleRequest 10) := by decide
  have held : (redeliveryState 5).bridge.HoldsCoordinate (sampleRequest 10) :=
    KafkaBridge.lookup_isSome_iff.mp (by decide)
  have stepped := Option.eq_some_of_isSome
    (by decide : ((redeliveryState 5).step (.addInflight "d")).isSome)
  ⟨holding, held, _, stepped, (addInflight_drops_held_coordinate holding held stepped).1⟩

/-- The redelivery of 10 arrives while the context of 10 is in the map, and is handed to
the processor again, in a second context entered in the map. -/
theorem redelivery_held_at_receipt_handed_on_again :
    Reachable sampleConf (redeliveryState 5) ∧
    (redeliveryState 5).consumer = .received (sampleRequest 10) ∧
    (redeliveryState 5).bridge.HoldsCoordinate (sampleRequest 10) ∧
    (redeliveryState 5).run (fun _ _ => true) (redeliveryActions.drop 5) =
      some (redeliveryState 8) ∧
    (redeliveryState 5).dispatched = [0] ∧ (redeliveryState 8).dispatched = [0, 1] ∧
    ((redeliveryState 8).bridge.heap 1).saramaMsg = sampleRequest 10 ∧
    (redeliveryState 8).bridge.inFlight.lookup (reqOffsetOf (sampleRequest 10)) = some 1 :=
  ⟨sampleRun_reaches (fun _ _ _ => trivial) (by decide), by decide,
    KafkaBridge.lookup_isSome_iff.mp (by decide), rfl, by decide, by decide, by decide,
    by decide⟩

/-- The broker delivers only messages above the offsets marked on their partition when
the consumer loop receives them. -/
def ReceivedAboveMarks (s : System) : Action → Prop
  | .receive msg => AboveMarked s.marked msg
  | _ => True

instance (s : System) : ∀ a, Decidable (ReceivedAboveMarks s a)
  | .receive msg => inferInstanceAs (Decidable (AboveMarked s.marked msg))
  | .addInflight _ => isTrue trivial
  | .dispatch _ => isTrue trivial
  | .processorReply _ _ _ => isTrue trivial
  | .success _ _ => isTrue trivial
  | .error _ => isTrue trivial

/-- 10 and 11 are in flight when 10 is delivered again, above the marks, of which there
are none yet.  The successes of 10 and 11 mark both before the consumer loop admits the
redelivery, whose success then marks 10 once more. -/
def remarkActions : List Action :=
  [.receive (sampleRequest 10), .addInflight "a", .dispatch "b", .processorReply 0 sampleReply "c",
   .receive (sampleRequest 11), .addInflight "d", .dispatch "e", .processorReply 1 sampleReply "f",
   .receive (sampleRequest 10),
   .success (sampleReplyTo 10 0) [⟨"in:0:10", 0⟩, ⟨"in:0:11", 1⟩],
   .success (sampleReplyTo 11 1) [⟨"in:0:11", 1⟩],
   .addInflight "g", .dispatch "h", .processorReply 2 sampleReply "i",
   .success (sampleReplyTo 10 2) [⟨"in:0:10", 2⟩]]

/-- Every message of this run is received above the marks of its partition, and the
marks of partition 0 go 10, 11, 10. -/
theorem marks_decrease_though_received_above_marks :
    Reaches sampleConf ReceivedAboveMarks
      (sampleRun (fun s a => decide (ReceivedAboveMarks s a)) remarkActions) ∧
    (sampleRun (fun s a => decide (ReceivedAboveMarks s a)) remarkActions).marked =
      [sampleRequest 10, sampleRequest 11, sampleRequest 10] ∧
    ¬ MarksIncrease
      (sampleRun (fun s a => decide (ReceivedAboveMarks s a)) remarkActions).marked :=
  ⟨sampleRun_reaches (fun _ _ => of_decide_eq_true) (by decide), by decide,
    by unfold MarksIncrease; decide⟩

end EthConnect
