import EthConnect.Invariant

/-!
# The capacity wait

`ConsumerMessagesLoop` waits while the map holds `MaxInFlight` contexts or more, and
adds at most one after each wait; the success loop only removes contexts.  So with a
non-negative limit the map never holds more than `MaxInFlight` contexts, and with a
positive one the loop never waits on an empty map, a wait no success could end.

`ValidateConf` replaces a zero limit by ten and keeps every other value.  A negative
limit gets through, and then nothing is ever admitted: the loop waits at its first
message with the map empty and no reply outstanding, and the bridge stops for good.
-/

namespace EthConnect

variable {conf : KafkaBridgeConf} {allowed : System → Action → Prop} {s s' : System}

theorem length_setInFlightComplete_le {k : KafkaBridge} {ptr : Nat}
    {order : List (Σ _ : String, Nat)} (iteration : order.Perm k.inFlight.entries)
    (distinct : k.DistinctOffsets) :
    (setInFlightComplete k ptr order).1.inFlight.entries.length ≤ k.inFlight.entries.length :=
  (List.subperm_of_subset (setInFlightComplete k ptr order).1.inFlight.nodupKeys.nodup
    fun _ member => ((mem_setInFlightComplete_entries iteration distinct).mp member).1).length_le

theorem length_le_maxInFlight_step (wf : s.Wf)
    (bound : (s.bridge.inFlight.entries.length : Int) ≤ s.bridge.conf.maxInFlight)
    {a : Action} (stepped : s.step a = some s') :
    (s'.bridge.inFlight.entries.length : Int) ≤ s'.bridge.conf.maxInFlight := by
  rcases System.step_cases stepped with frame | ⟨msg, uuid, -, -, room, fresh, bridge, -⟩ |
    ⟨_, order, p, -, -, iteration, bridge, -⟩
  · rwa [frame.inFlight, frame.conf]
  · rw [bridge, insertContext_entries_of_not_holds uuid fresh, KafkaBridge.insertContext_conf]
    simp only [List.length_cons]
    omega
  · rw [bridge, setInFlightComplete_conf]
    exact le_trans (by exact_mod_cast length_setInFlightComplete_le iteration wf.distinctOffsets)
      bound

theorem Reaches.length_le_maxInFlight (reaches : Reaches conf allowed s)
    (nonneg : 0 ≤ conf.maxInFlight) :
    (s.bridge.inFlight.entries.length : Int) ≤ conf.maxInFlight := by
  rw [← Reaches.conf_eq reaches]
  induction reaches with
  | init => simpa [System.init, KafkaBridge.new] using nonneg
  | step reached _ stepped ih => exact length_le_maxInFlight_step (Reaches.wf reached) ih stepped

theorem addInflight_enabled_of_empty (positive : 0 < s.bridge.conf.maxInFlight)
    {msg : ConsumerMessage} (holding : s.consumer = .received msg)
    (empty : s.bridge.inFlight.entries = []) (alive : s.panicked = none) (uuid : String) :
    ∃ s', s.step (.addInflight uuid) = some s' := by
  simp [System.step, System.addInflight, alive, holding, empty, positive]

/-- For a configuration `ValidateConf` accepts from a non-negative limit, every reachable
map holds at most `MaxInFlight` contexts, and the consumer loop never waits on an empty
map. -/
theorem validated_capacity_bound {conf' : KafkaBridgeConf}
    (validated : validateConf conf = .ok conf') (nonneg : 0 ≤ conf.maxInFlight)
    (reachable : Reachable conf' s) :
    (s.bridge.inFlight.entries.length : Int) ≤ conf'.maxInFlight ∧
    ∀ msg, s.consumer = .received msg → s.bridge.inFlight.entries = [] →
      s.panicked = none → ∀ uuid, ∃ s', s.step (.addInflight uuid) = some s' := by
  have positive := validateConf_maxInFlight_pos validated nonneg
  refine ⟨reachable.length_le_maxInFlight positive.le, fun msg holding empty alive uuid => ?_⟩
  exact addInflight_enabled_of_empty (Reaches.conf_eq reachable ▸ positive) holding empty alive uuid

/-- The sample configuration as `ValidateConf` accepts it bounds the map by ten. -/
theorem sample_capacity_bound :
    validateConf sampleConf = .ok sampleConf ∧ (0 : Int) ≤ sampleConf.maxInFlight ∧
    ((outOfOrderState 9).bridge.inFlight.entries.length : Int) ≤ sampleConf.maxInFlight :=
  have validated : validateConf sampleConf = .ok sampleConf := rfl
  have nonneg : (0 : Int) ≤ sampleConf.maxInFlight := by decide
  ⟨validated, nonneg,
    (validated_capacity_bound validated nonneg (outOfOrderState_reachable (by decide))).1⟩

/-! ## A negative limit -/

namespace System

/-- Nothing has been admitted: the map is empty, the processor holds no context, no reply
is outstanding and the consumer loop holds no context. -/
structure Starved (s : System) : Prop where
  empty : s.bridge.inFlight.entries = []
  dispatched : s.dispatched = []
  pending : s.pending = []
  consumer : ∀ msg msgCtx err, s.consumer ≠ .dispatching msg msgCtx err
  alive : s.panicked = none

theorem Starved.step (starved : s.Starved) (closed : s.bridge.conf.maxInFlight ≤ 0)
    {a : Action} (stepped : s.step a = some s') : s'.Starved ∧ s'.bridge = s.bridge := by
  unfold System.step at stepped
  split_ifs at stepped
  cases a with
  | receive _ =>
      obtain ⟨-, -, rfl⟩ := System.receive_eq_some stepped
      exact ⟨⟨starved.empty, starved.dispatched, starved.pending, fun _ _ _ => by simp,
        starved.alive⟩, rfl⟩
  | addInflight _ =>
      obtain ⟨-, -, room, -⟩ := System.addInflight_eq_some stepped
      simp only [starved.empty, List.length_nil] at room
      omega
  | dispatch _ =>
      rcases System.dispatch_eq_some stepped with ⟨_, _, held, -⟩ | ⟨_, _, held, -⟩ |
        ⟨_, _, _, held, -⟩ <;> exact absurd held (starved.consumer _ _ _)
  | processorReply _ _ _ =>
      obtain ⟨handed, -⟩ := System.processorReply_eq_some stepped
      simp [starved.dispatched] at handed
  | success _ _ =>
      obtain ⟨waiting, -⟩ := System.success_eq_some stepped
      simp [starved.pending] at waiting
  | error _ =>
      obtain ⟨waiting, -⟩ := System.error_eq_some stepped
      simp [starved.pending] at waiting

theorem Starved.stuck (starved : s.Starved) (closed : s.bridge.conf.maxInFlight ≤ 0)
    {msg : ConsumerMessage} (holding : s.consumer = .received msg) (a : Action) :
    s.step a = none := by
  have full : ¬ (0 : Int) < s.bridge.conf.maxInFlight := not_lt.mpr closed
  cases a <;> simp [System.step, starved.alive, System.receive, System.addInflight, System.dispatch,
    System.processorReply, System.success, System.error, holding, starved.empty,
    starved.dispatched, starved.pending, full]

end System

theorem Reaches.starved (reaches : Reaches conf allowed s) (closed : conf.maxInFlight ≤ 0) :
    s.Starved ∧ s.bridge = KafkaBridge.new conf := by
  induction reaches with
  | init => exact ⟨⟨rfl, rfl, rfl, fun _ _ _ => by simp [System.init], rfl⟩, rfl⟩
  | step _ _ stepped ih =>
      obtain ⟨starved, bridge⟩ := ih
      have stays := starved.step (by rw [bridge]; exact closed) stepped
      exact ⟨stays.1, stays.2.trans bridge⟩

/-- `sampleConf` with a limit of -1. -/
def negativeConf : KafkaBridgeConf :=
  { sampleConf with maxInFlight := -1 }

/-- `ValidateConf` accepts a limit of -1, and the bridge it configures keeps neither half
of the capacity contract: the empty map at the start already exceeds the limit, and once
a message is received, the map still empty, no step of any goroutine can follow. -/
theorem negative_maxInFlight_waits_forever :
    validateConf negativeConf = .ok negativeConf ∧
    ¬ ((System.init negativeConf).bridge.inFlight.entries.length : Int) ≤
      negativeConf.maxInFlight ∧
    (∃ s, (System.init negativeConf).step (.receive (sampleRequest 10)) = some s ∧
      s.consumer = .received (sampleRequest 10)) ∧
    ∀ s msg, Reachable negativeConf s → s.consumer = .received msg →
      s.bridge.inFlight.entries = [] ∧ ∀ a, s.step a = none := by
  refine ⟨rfl, by decide, ⟨_, rfl, rfl⟩, fun s msg reachable holding => ?_⟩
  obtain ⟨starved, bridge⟩ := reachable.starved (by decide)
  exact ⟨starved.empty, starved.stuck (by rw [bridge]; decide) holding⟩

end EthConnect
