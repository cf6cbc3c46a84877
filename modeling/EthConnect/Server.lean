import EthConnect.Basic

/-!
# Starting the Kafka bridges of a server configuration

`startServer` creates a bridge for each entry of `ServerConfig.KafkaBridges`, copies the
entry into it with `SetConf`, checks it with `ValidateConf` and starts it in a goroutine
of its own.  An entry is a pointer, `nil` for a key with no value, and `SetConf`
dereferences it.  So the loop ends on the first nil entry, with a panic, or on the first
entry that fails `ValidateConf`, with its error.  Which failure that is, in Go's
arbitrary map order, depends on the order; whether the loop fails, and what each
failure says of the configuration, do not (`startServer_fails_iff_nil_or_missing_url`).
Without a failure every configured bridge is started once, as `ValidateConf` left its
entry (`startServer_starts_every_bridge`).
-/

namespace EthConnect

/-- `ServerConfig`: the Kafka bridges by name, each entry a `*KafkaBridgeConf`, `nil`
(`none`) for a key with no value.  The webhooks bridges are configured and started by
`kldwebhooks`, which this development does not model. -/
structure ServerConfig where
  kafkaBridges : AList fun _ : String => Option KafkaBridgeConf

/-- How the loop of `startServer` over the Kafka bridges stops before its end: with the
error of `ValidateConf`, which `startServer` returns, or with the panic of `SetConf`
dereferencing a nil configuration. -/
inductive StartFailure
  | error (err : String)
  | nilDereference
  deriving DecidableEq, Repr

/-- The loop of `startServer` over `serverConfig.KafkaBridges`, the map iterated in
`order`: the bridges started, in turn, each with its configuration as `ValidateConf`
left it, and the failure that ended the loop, if any. -/
def startKafkaBridges : List (Σ _ : String, Option KafkaBridgeConf) →
    List (String × KafkaBridgeConf) × Option StartFailure
  | [] => ([], none)
  | ⟨_, none⟩ :: _ => ([], some .nilDereference)
  | ⟨name, some conf⟩ :: rest =>
      match validateConf conf with
      | .error err => ([], some (.error err))
      | .ok validated => (startKafkaBridges rest).map ((name, validated) :: ·) id

section Loop

variable {order : List (Σ _ : String, Option KafkaBridgeConf)}

theorem startKafkaBridges_eq_none_iff :
    (startKafkaBridges order).2 = none ↔
      ∀ e ∈ order, ∃ conf, e.2 = some conf ∧ conf.rpc.url ≠ "" := by
  induction order using startKafkaBridges.induct with
  | case1 | case2 => simp [startKafkaBridges]
  | case3 _ conf _ err invalid =>
      simp [startKafkaBridges, invalid, ((validateConf_eq_error_iff conf err).mp invalid).1]
  | case4 _ _ _ _ valid ih => simp [startKafkaBridges, valid, validateConf_url_ne valid, ih]

theorem startKafkaBridges_eq_some {failure : StartFailure}
    (failed : (startKafkaBridges order).2 = some failure) :
    ∃ e ∈ order, (e.2 = none ∧ failure = .nilDereference) ∨
      ∃ conf, e.2 = some conf ∧ conf.rpc.url = "" ∧
        failure = .error "No JSON/RPC URL set for ethereum node" := by
  induction order using startKafkaBridges.induct with
  | case1 => simp [startKafkaBridges] at failed
  | case2 =>
      simp only [startKafkaBridges, Option.some.injEq] at failed
      exact ⟨_, List.mem_cons_self _ _, .inl ⟨rfl, failed.symm⟩⟩
  | case3 _ conf _ err invalid =>
      obtain ⟨unset, rfl⟩ := (validateConf_eq_error_iff conf err).mp invalid
      simp only [startKafkaBridges, invalid, Option.some.injEq] at failed
      exact ⟨_, List.mem_cons_self _ _, .inr ⟨conf, rfl, unset, failed.symm⟩⟩
  | case4 _ _ _ _ valid ih =>
      simp only [startKafkaBridges, valid, Prod.map_snd, id] at failed
      obtain ⟨e, member, blamed⟩ := ih failed
      exact ⟨e, List.mem_cons_of_mem _ member, blamed⟩

theorem mem_startKafkaBridges {name : String} {validated : KafkaBridgeConf}
    (started : (name, validated) ∈ (startKafkaBridges order).1) :
    ∃ conf, ⟨name, some conf⟩ ∈ order ∧ validateConf conf = .ok validated := by
  induction order using startKafkaBridges.induct with
  | case1 | case2 => simp [startKafkaBridges] at started
  | case3 _ _ _ _ invalid => simp [startKafkaBridges, invalid] at started
  | case4 _ conf _ _ valid ih =>
      simp only [startKafkaBridges, valid, Prod.map_fst, List.mem_cons, Prod.mk.injEq] at started
      rcases started with ⟨rfl, rfl⟩ | later
      · exact ⟨conf, List.mem_cons_self _ _, valid⟩
      · obtain ⟨conf', member, ok⟩ := ih later
        exact ⟨conf', List.mem_cons_of_mem _ member, ok⟩

theorem startKafkaBridges_of_eq_none (ok : (startKafkaBridges order).2 = none) :
    (startKafkaBridges order).1.map Prod.fst = order.map Sigma.fst ∧
    ∀ e ∈ order, ∃ conf validated, e.2 = some conf ∧ validateConf conf = .ok validated ∧
      (e.1, validated) ∈ (startKafkaBridges order).1 := by
  induction order using startKafkaBridges.induct with
  | case1 => simp [startKafkaBridges]
  | case2 => simp [startKafkaBridges] at ok
  | case3 _ _ _ _ invalid => simp [startKafkaBridges, invalid] at ok
  | case4 _ conf _ validated valid ih =>
      simp only [startKafkaBridges, valid, Prod.map_snd, id] at ok
      obtain ⟨names, each⟩ := ih ok
      simp only [startKafkaBridges, valid, Prod.map_fst, List.map_cons, names, List.mem_cons,
        forall_eq_or_imp]
      refine ⟨trivial, ⟨conf, validated, rfl, valid, .inl rfl⟩, fun e member => ?_⟩
      obtain ⟨conf', validated', entry, valid', started⟩ := each e member
      exact ⟨conf', validated', entry, valid', .inr started⟩

end Loop

/-- The bridges started before the failure depend on the order. -/
example : startKafkaBridges [⟨"audit", some { sampleConf with rpc := { url := "" } }⟩,
      ⟨"orders", some sampleConf⟩] = ([], some (.error "No JSON/RPC URL set for ethereum node")) ∧
    startKafkaBridges [⟨"orders", some sampleConf⟩,
      ⟨"audit", some { sampleConf with rpc := { url := "" } }⟩] =
      ([("orders", sampleConf)], some (.error "No JSON/RPC URL set for ethereum node")) := by
  decide

variable {config : ServerConfig} {order : List (Σ _ : String, Option KafkaBridgeConf)}

theorem lookup_eq_some_iff_mem_order (iteration : order.Perm config.kafkaBridges.entries)
    (name : String) (entry : Option KafkaBridgeConf) :
    config.kafkaBridges.lookup name = some entry ↔ ⟨name, entry⟩ ∈ order :=
  AList.mem_lookup_iff.trans iteration.mem_iff.symm

/-- Whatever order Go iterates `KafkaBridges` in, `startServer` starts all its Kafka
bridges exactly when no entry is nil and each has an RPC URL.  An error it returns is
the missing URL's, and some entry has none; a panic means some entry is nil. -/
theorem startServer_fails_iff_nil_or_missing_url
    (iteration : order.Perm config.kafkaBridges.entries) :
    ((startKafkaBridges order).2 = none ↔
      ∀ name entry, config.kafkaBridges.lookup name = some entry →
        ∃ conf, entry = some conf ∧ conf.rpc.url ≠ "") ∧
    (∀ err, (startKafkaBridges order).2 = some (.error err) →
      err = "No JSON/RPC URL set for ethereum node" ∧
      ∃ name conf, config.kafkaBridges.lookup name = some (some conf) ∧ conf.rpc.url = "") ∧
    ((startKafkaBridges order).2 = some .nilDereference →
      ∃ name, config.kafkaBridges.lookup name = some none) := by
  have configured := lookup_eq_some_iff_mem_order iteration
  refine ⟨startKafkaBridges_eq_none_iff.trans ⟨fun each name entry found =>
      each _ ((configured _ _).mp found), fun each e member =>
      each e.1 e.2 ((configured _ _).mpr member)⟩, fun err failed => ?_, fun failed => ?_⟩
  · obtain ⟨⟨name, entry⟩, member, ⟨-, wrong⟩ | ⟨conf, rfl, unset, same⟩⟩ :=
      startKafkaBridges_eq_some failed
    · cases wrong
    · exact ⟨StartFailure.error.inj same, name, conf, (configured _ _).mpr member, unset⟩
  · obtain ⟨⟨name, entry⟩, member, ⟨rfl, -⟩ | ⟨-, -, -, wrong⟩⟩ :=
      startKafkaBridges_eq_some failed
    · exact ⟨name, (configured _ _).mpr member⟩
    · cases wrong

/-- A server configuration with a bridge `audit` that has no RPC URL and a bridge
`billing` whose entry is null. -/
def brokenServerConfig : ServerConfig where
  kafkaBridges :=
    (((∅ : AList fun _ : String => Option KafkaBridgeConf).insert "orders"
      (some sampleConf)).insert "audit" (some { sampleConf with rpc := { url := "" } })).insert
      "billing" none

/-- `brokenServerConfig` iterated with `audit` before `billing`. -/
def brokenServerOrder : List (Σ _ : String, Option KafkaBridgeConf) :=
  [⟨"orders", some sampleConf⟩, ⟨"audit", some { sampleConf with rpc := { url := "" } }⟩,
   ⟨"billing", none⟩]

/-- `brokenServerConfig` iterated with `billing` first. -/
def nilFirstServerOrder : List (Σ _ : String, Option KafkaBridgeConf) :=
  [⟨"billing", none⟩, ⟨"orders", some sampleConf⟩,
   ⟨"audit", some { sampleConf with rpc := { url := "" } }⟩]

/-- Iterated with `audit` before `billing`, the server returns the missing URL's error;
iterated with `billing` first, it panics.  Each failure has its entry to blame. -/
theorem brokenServerConfig_fails_either_way :
    brokenServerOrder.Perm brokenServerConfig.kafkaBridges.entries ∧
    (startKafkaBridges brokenServerOrder).2 =
      some (.error "No JSON/RPC URL set for ethereum node") ∧
    nilFirstServerOrder.Perm brokenServerConfig.kafkaBridges.entries ∧
    (startKafkaBridges nilFirstServerOrder).2 = some .nilDereference ∧
    (∃ name conf, brokenServerConfig.kafkaBridges.lookup name = some (some conf) ∧
      conf.rpc.url = "") ∧
    ∃ name, brokenServerConfig.kafkaBridges.lookup name = some none :=
  have iteration : brokenServerOrder.Perm brokenServerConfig.kafkaBridges.entries := by decide
  have nilFirst : nilFirstServerOrder.Perm brokenServerConfig.kafkaBridges.entries := by
    decide
  have errored : (startKafkaBridges brokenServerOrder).2 =
      some (.error "No JSON/RPC URL set for ethereum node") := by
    decide
  have panicked : (startKafkaBridges nilFirstServerOrder).2 = some .nilDereference := by
    decide
  ⟨iteration, errored, nilFirst, panicked,
    ((startServer_fails_iff_nil_or_missing_url iteration).2.1 _ errored).2,
    (startServer_fails_iff_nil_or_missing_url nilFirst).2.2 panicked⟩

/-- When no Kafka bridge entry is nil or fails `ValidateConf`, `startServer` starts each
configured bridge once, with the configuration `ValidateConf` made of its own entry,
and no other. -/
theorem startServer_starts_every_bridge (iteration : order.Perm config.kafkaBridges.entries)
    (ok : (startKafkaBridges order).2 = none) :
    ((startKafkaBridges order).1.map Prod.fst).Perm config.kafkaBridges.keys ∧
    ∀ name validated, (name, validated) ∈ (startKafkaBridges order).1 ↔
      ∃ conf, config.kafkaBridges.lookup name = some (some conf) ∧
        validateConf conf = .ok validated := by
  obtain ⟨names, each⟩ := startKafkaBridges_of_eq_none ok
  refine ⟨names ▸ iteration.map Sigma.fst, fun name validated => ⟨fun started => ?_, ?_⟩⟩
  · obtain ⟨conf, member, valid⟩ := mem_startKafkaBridges started
    exact ⟨conf, (lookup_eq_some_iff_mem_order iteration _ _).mpr member, valid⟩
  · rintro ⟨conf, found, valid⟩
    obtain ⟨conf', validated', entry, valid', started⟩ :=
      each _ ((lookup_eq_some_iff_mem_order iteration _ _).mp found)
    obtain rfl : conf = conf' := Option.some.inj entry
    rwa [← Except.ok.inj (valid.symm.trans valid')] at started

/-- A server configuration with the sample bridge `orders` and a bridge `audit` whose
in-flight limit is unset. -/
def sampleServerConfig : ServerConfig where
  kafkaBridges :=
    ((∅ : AList fun _ : String => Option KafkaBridgeConf).insert "orders"
      (some sampleConf)).insert "audit" (some { sampleConf with maxInFlight := 0 })

/-- `sampleServerConfig` iterated with `orders` first. -/
def sampleServerOrder : List (Σ _ : String, Option KafkaBridgeConf) :=
  [⟨"orders", some sampleConf⟩, ⟨"audit", some { sampleConf with maxInFlight := 0 }⟩]

/-- Both bridges are started, `audit` with the limit of ten `ValidateConf` sets. -/
theorem sampleServerConfig_starts_both :
    sampleServerOrder.Perm sampleServerConfig.kafkaBridges.entries ∧
    (startKafkaBridges sampleServerOrder).2 = none ∧
    ("audit", sampleConf) ∈ (startKafkaBridges sampleServerOrder).1 :=
  have iteration : sampleServerOrder.Perm sampleServerConfig.kafkaBridges.entries := by decide
  have ok : (startKafkaBridges sampleServerOrder).2 = none := by decide
  ⟨iteration, ok, ((startServer_starts_every_bridge iteration ok).2 "audit" sampleConf).mpr
    ⟨{ sampleConf with maxInFlight := 0 }, by decide, rfl⟩⟩

end EthConnect
