import EthConnect.Loops

/-!
# The capacity wait with `sync.Cond`

`ConsumerMessagesLoop` waits for room with `for len(k.inFlight) >= k.conf.MaxInFlight
{ k.inFlightCond.Wait() }`, and `ProducerSuccessLoop` calls `inFlightCond.Broadcast()`
after each `setInFlightComplete`.  `Loops` makes this wait a guard on the `addInflight`
step; here it is modelled as the code writes it, the loop sleeping in `Wait` on a full map
until a `Broadcast`.  No wake-up is lost: the loop sleeps only holding a message before a
full map, and the map shrinks only in `setInFlightComplete`, which a `Broadcast` follows.
So the two models take the same steps and reach the same states
(`capacity_wait_loses_no_wakeup`), and every result about `Reaches` holds of the wait
as written.
-/

namespace EthConnect

/-- A running bridge whose consumer loop may be asleep in `inFlightCond.Wait()`. -/
structure CondSystem where
  sys : System
  asleep : Bool

namespace CondSystem

/-- A fresh bridge; the consumer loop is not waiting. -/
def init (conf : KafkaBridgeConf) : CondSystem :=
  ⟨System.init conf, false⟩

/-- The consumer loop takes the lock and checks the map: with room it calls
`addInflightMsg`, and with the map full it calls `Wait`, releasing the lock and sleeping
until a `Broadcast`. -/
def lockAndAdd (c : CondSystem) (uuid : String) : Option CondSystem :=
  if c.asleep then none else
    match c.sys.consumer with
    | .received _ =>
        if (c.sys.bridge.inFlight.entries.length : Int) < c.sys.bridge.conf.maxInFlight then
          (c.sys.addInflight uuid).map fun s => ⟨s, false⟩
        else some { c with asleep := true }
    | _ => none

/-- One step, with the capacity wait as the code writes it.  `ProducerSuccessLoop` calls
`Broadcast` after `setInFlightComplete`; a confirmation missing from the map panics
instead. -/
def step (c : CondSystem) (a : Action) : Option CondSystem :=
  if c.sys.panicked.isSome then none else
    match a with
    | .addInflight uuid => c.lockAndAdd uuid
    | .success pm order =>
        (c.sys.success pm order).map fun s =>
          ⟨s, c.asleep && (c.sys.bridge.inFlight.lookup pm.metadata).isNone⟩
    | a => (c.sys.step a).map fun s => ⟨s, c.asleep⟩

/-- Run a list of steps in order. -/
def run : CondSystem → List Action → Option CondSystem
  | c, [] => some c
  | c, a :: rest => (c.step a).bind (run · rest)

/-- The consumer loop sleeps in `Wait` only holding a message, with the map full. -/
def WaitsOnFull (c : CondSystem) : Prop :=
  c.asleep = true → (∃ msg, c.sys.consumer = .received msg) ∧
    c.sys.bridge.conf.maxInFlight ≤ c.sys.bridge.inFlight.entries.length

variable {c c' : CondSystem} {a : Action}

theorem step_panicked (stepped : c.step a = some c') : c.sys.panicked = none := by
  cases alive : c.sys.panicked with
  | none => rfl
  | some _ => simp [step, alive] at stepped

theorem lockAndAdd_eq_some {uuid : String} (stepped : c.lockAndAdd uuid = some c') :
    c.asleep = false ∧ ∃ msg, c.sys.consumer = .received msg ∧
      (((c.sys.bridge.inFlight.entries.length : Int) < c.sys.bridge.conf.maxInFlight ∧
        c.sys.addInflight uuid = some c'.sys ∧ c'.asleep = false) ∨
      (c.sys.bridge.conf.maxInFlight ≤ c.sys.bridge.inFlight.entries.length ∧
        c' = { c with asleep := true })) := by
  unfold lockAndAdd at stepped
  split at stepped
  · cases stepped
  rename_i awake
  replace awake : c.asleep = false := by simpa using awake
  split at stepped
  · rename_i msg holding
    split at stepped
    · obtain ⟨s, added, rfl⟩ := Option.map_eq_some'.mp stepped
      exact ⟨awake, msg, holding, .inl ⟨‹_›, added, rfl⟩⟩
    · exact ⟨awake, msg, holding, .inr ⟨le_of_not_lt ‹_›, (Option.some.inj stepped).symm⟩⟩
  · cases stepped

/-- What a step can do: go to sleep in `Wait`, leaving the bridge as it was; admit a
message, awake; handle a success, waking the loop unless the confirmation was missing
from the map; or take a step of the guard model that keeps the loop asleep or awake. -/
theorem step_cases (stepped : c.step a = some c') :
    (∃ uuid msg, a = .addInflight uuid ∧ c.asleep = false ∧ c.sys.consumer = .received msg ∧
      c.sys.bridge.conf.maxInFlight ≤ c.sys.bridge.inFlight.entries.length ∧
      c' = { c with asleep := true }) ∨
    (∃ uuid, a = .addInflight uuid ∧ c.asleep = false ∧ c.sys.step a = some c'.sys ∧
      c'.asleep = false) ∨
    (∃ pm order, a = .success pm order ∧ c.sys.step a = some c'.sys ∧
      c'.asleep = (c.asleep && (c.sys.bridge.inFlight.lookup pm.metadata).isNone)) ∨
    ((∀ uuid, a ≠ .addInflight uuid) ∧ (∀ pm order, a ≠ .success pm order) ∧
      c.sys.step a = some c'.sys ∧ c'.asleep = c.asleep) := by
  have alive := step_panicked stepped
  simp only [step, alive, Option.isSome_none, Bool.false_eq_true, if_false] at stepped
  cases a with
  | addInflight uuid =>
      obtain ⟨awake, msg, holding, ⟨-, added, awake'⟩ | ⟨full, rfl⟩⟩ := lockAndAdd_eq_some stepped
      · exact .inr (.inl ⟨uuid, rfl, awake, by simpa [System.step, alive] using added, awake'⟩)
      · exact .inl ⟨uuid, msg, rfl, awake, holding, full, rfl⟩
  | success pm order =>
      obtain ⟨s, handled, rfl⟩ := Option.map_eq_some'.mp stepped
      exact .inr (.inr (.inl ⟨pm, order, rfl, by simpa [System.step, alive] using handled, rfl⟩))
  | receive _ | dispatch _ | processorReply _ _ _ | error _ =>
      obtain ⟨s, taken, rfl⟩ := Option.map_eq_some'.mp stepped
      exact .inr (.inr (.inr ⟨by simp, by simp, taken, rfl⟩))

theorem step_refines (stepped : c.step a = some c') :
    c.sys.step a = some c'.sys ∨
      (∃ uuid, a = .addInflight uuid) ∧ c'.sys = c.sys ∧ c'.asleep = true := by
  rcases step_cases stepped with ⟨uuid, -, rfl, -, -, -, rfl⟩ | ⟨-, -, -, guard, -⟩ |
    ⟨-, -, -, guard, -⟩ | ⟨-, -, guard, -⟩
  · exact .inr ⟨⟨uuid, rfl⟩, rfl, rfl⟩
  all_goals exact .inl guard

end CondSystem

namespace System

variable {s s' : System}

theorem step_keeps_received {msg : ConsumerMessage} (holding : s.consumer = .received msg)
    {a : Action} (other : ∀ uuid, a ≠ .addInflight uuid) (stepped : s.step a = some s') :
    s'.consumer = .received msg := by
  unfold System.step at stepped
  split_ifs at stepped
  cases a with
  | receive _ =>
      obtain ⟨receiving, -⟩ := receive_eq_some stepped
      simp [holding] at receiving
  | addInflight uuid => exact absurd rfl (other uuid)
  | dispatch _ =>
      rcases dispatch_eq_some stepped with ⟨_, _, held, -⟩ | ⟨_, _, held, -⟩ |
        ⟨_, _, _, held, -⟩ <;> simp [holding] at held
  | processorReply _ _ _ =>
      obtain ⟨-, rfl⟩ := processorReply_eq_some stepped
      exact holding
  | success _ _ =>
      obtain ⟨-, ⟨-, rfl⟩ | ⟨_, -, -, rfl⟩⟩ := success_eq_some stepped <;> exact holding
  | error _ =>
      obtain ⟨-, rfl⟩ := error_eq_some stepped
      exact holding

end System

namespace CondSystem

variable {c c' : CondSystem} {a : Action}

/-- No wake-up is lost: a step keeps the loop asleep only while the map stays full. -/
theorem WaitsOnFull.step (waits : c.WaitsOnFull) (stepped : c.step a = some c') :
    c'.WaitsOnFull := by
  intro asleep'
  rcases step_cases stepped with ⟨-, msg, -, -, holding, full, rfl⟩ | ⟨-, -, -, -, awake⟩ |
    ⟨pm, order, rfl, guard, woken⟩ | ⟨other, notSuccess, guard, same⟩
  · exact ⟨⟨msg, holding⟩, full⟩
  · simp [awake] at asleep'
  · rw [woken, Bool.and_eq_true, Option.isNone_iff_eq_none] at asleep'
    obtain ⟨asleep, missing⟩ := asleep'
    have alive := System.step_panicked guard
    simp only [System.step, alive, Option.isSome_none, Bool.false_eq_true, if_false] at guard
    obtain ⟨-, ⟨-, panicked⟩ | ⟨p, found, -⟩⟩ := System.success_eq_some guard
    · rw [panicked]
      exact waits asleep
    · simp [missing] at found
  · obtain ⟨⟨msg, holding⟩, full⟩ := waits (same ▸ asleep')
    refine ⟨⟨msg, System.step_keeps_received holding other guard⟩, ?_⟩
    rcases System.step_cases guard with frame | ⟨_, uuid, rfl, -⟩ | ⟨pm, order, -, rfl, -⟩
    · rwa [frame.inFlight, frame.conf]
    · exact absurd rfl (other uuid)
    · exact absurd rfl (notSuccess pm order)

theorem step_of_guard (waits : c.WaitsOnFull) {s' : System} (stepped : c.sys.step a = some s') :
    ∃ c', c.step a = some c' ∧ c'.sys = s' := by
  have alive := System.step_panicked stepped
  cases a with
  | addInflight uuid =>
      have added : c.sys.addInflight uuid = some s' := by
        simpa [System.step, alive] using stepped
      obtain ⟨msg, holding, room, -⟩ := System.addInflight_eq_some added
      have awake : c.asleep = false := by
        by_contra asleep
        have full := (waits (by simpa using asleep)).2
        omega
      exact ⟨⟨s', false⟩, by simp [step, lockAndAdd, alive, awake, holding, room, added], rfl⟩
  | success pm order =>
      have handled : c.sys.success pm order = some s' := by
        simpa [System.step, alive] using stepped
      exact ⟨⟨s', c.asleep && (c.sys.bridge.inFlight.lookup pm.metadata).isNone⟩,
        by simp [step, alive, handled], rfl⟩
  | receive _ | dispatch _ | processorReply _ _ _ | error _ =>
      exact ⟨⟨s', c.asleep⟩, by simp only [step, alive, Option.isSome_none, Bool.false_eq_true,
        if_false, stepped, Option.map_some'], rfl⟩

end CondSystem

/-- The states reached from `CondSystem.init conf` by steps each allowed by `allowed` in
the state of the bridge they leave. -/
inductive CondReaches (conf : KafkaBridgeConf) (allowed : System → Action → Prop) :
    CondSystem → Prop
  | init : CondReaches conf allowed (CondSystem.init conf)
  | step {c c' : CondSystem} {a : Action} :
      CondReaches conf allowed c → allowed c.sys a → c.step a = some c' →
        CondReaches conf allowed c'

variable {conf : KafkaBridgeConf} {allowed : System → Action → Prop}

theorem CondReaches.waitsOnFull {c : CondSystem} (reaches : CondReaches conf allowed c) :
    c.WaitsOnFull := by
  induction reaches with
  | init => intro asleep; cases asleep
  | step _ _ stepped ih => exact ih.step stepped

theorem CondReaches.reaches {c : CondSystem} (reaches : CondReaches conf allowed c) :
    Reaches conf allowed c.sys := by
  induction reaches with
  | init => exact .init
  | step _ permitted stepped ih =>
      rcases CondSystem.step_refines stepped with guard | ⟨-, same, -⟩
      · exact ih.step permitted guard
      · rwa [same]

theorem Reaches.condReaches {s : System} (reaches : Reaches conf allowed s) :
    ∃ c, CondReaches conf allowed c ∧ c.sys = s := by
  induction reaches with
  | init => exact ⟨_, .init, rfl⟩
  | step _ permitted stepped ih =>
      obtain ⟨c, condReaches, rfl⟩ := ih
      obtain ⟨c', condStepped, rfl⟩ :=
        CondSystem.step_of_guard condReaches.waitsOnFull stepped
      exact ⟨c', condReaches.step permitted condStepped, rfl⟩

theorem CondReaches.run {c c' : CondSystem} {actions : List Action}
    (reaches : CondReaches conf (fun _ _ => True) c) (ran : c.run actions = some c') :
    CondReaches conf (fun _ _ => True) c' := by
  induction actions generalizing c with
  | nil => exact Option.some.inj ran ▸ reaches
  | cons a rest ih =>
      obtain ⟨c₁, stepped, ran⟩ := Option.bind_eq_some.mp ran
      exact ih (reaches.step trivial stepped) ran

/-- The capacity wait as the code writes it, with `Wait` and `Broadcast`, loses no
wake-up, and the guard model of it is exact.  Each step is a step of the guard model, or
the consumer loop going to sleep with nothing else changed.  In every run, whatever the
environment allows, the loop sleeps in `Wait` only holding a message with the map full,
every state is one the guard model reaches, and every step the guard model can take is
one the loop with `Wait` can take; conversely every state of the guard model is reached
with `Wait`. -/
theorem capacity_wait_loses_no_wakeup :
    (∀ c a c', CondSystem.step c a = some c' → c.sys.step a = some c'.sys ∨
      (∃ uuid, a = .addInflight uuid) ∧ c'.sys = c.sys ∧ c'.asleep = true) ∧
    (∀ c, CondReaches conf allowed c →
      Reaches conf allowed c.sys ∧ c.WaitsOnFull ∧
      ∀ a s', c.sys.step a = some s' → ∃ c', c.step a = some c' ∧ c'.sys = s') ∧
    ∀ s, Reaches conf allowed s → ∃ c, CondReaches conf allowed c ∧ c.sys = s :=
  ⟨fun _ _ _ => CondSystem.step_refines,
    fun _ reaches => ⟨reaches.reaches, reaches.waitsOnFull,
      fun _ _ => CondSystem.step_of_guard reaches.waitsOnFull⟩,
    fun _ => Reaches.condReaches⟩

/-- `sampleConf` with room for one context. -/
def singleSlotConf : KafkaBridgeConf :=
  { sampleConf with maxInFlight := 1 }

/-- With room for one context, the loop admits 10 and hands it on, receives 11, and goes
to sleep in `Wait` before the full map. -/
def sleepingState : CondSystem :=
  ((CondSystem.init singleSlotConf).run
    [.receive (sampleRequest 10), .addInflight "a", .dispatch "b",
     .receive (sampleRequest 11), .addInflight "c"]).getD (CondSystem.init singleSlotConf)

/-- The loop asleep holding 11 is in a state of the guard model, sleeping on a full map;
the reply to 10 and its success wake it, and it admits 11. -/
theorem singleSlot_sleeps_until_broadcast :
    CondReaches singleSlotConf (fun _ _ => True) sleepingState ∧ sleepingState.asleep = true ∧
    Reaches singleSlotConf (fun _ _ => True) sleepingState.sys ∧ sleepingState.WaitsOnFull ∧
    (sleepingState.run [.processorReply 0 sampleReply "d",
      .success (sampleReplyTo 10 0) [⟨"in:0:10", 0⟩], .addInflight "e"]).map
      (fun c => (c.asleep, c.sys.bridge.pointers)) = some (false, [1]) :=
  have reaches : CondReaches singleSlotConf (fun _ _ => True) sleepingState := by
    obtain ⟨c, ran⟩ := Option.isSome_iff_exists.mp (by decide :
      ((CondSystem.init singleSlotConf).run
        [.receive (sampleRequest 10), .addInflight "a", .dispatch "b",
         .receive (sampleRequest 11), .addInflight "c"]).isSome)
    rw [sleepingState, ran]
    exact CondReaches.init.run ran
  have guarded := capacity_wait_loses_no_wakeup.2.1 _ reaches
  ⟨reaches, by decide, guarded.1, guarded.2.1, by decide⟩

end EthConnect
