import EthConnect.ReqOffset

/-!
# The in-flight map and `addInflightMsg`

`KafkaBridge` holds what the consumer and producer loops share under `inFlightCond`:
the in-flight map `map[string]*msgContext`, and the `msgContext` objects allocated so
far, addressed by pointer.  The only write to the map is `addInflightMsg`'s, under the
context's own `reqOffset`; the structure carries that fact, so every key names the
coordinate of the context it points to.

`addInflightMsg` deduplicates by that key, and the key determines the coordinate
(`reqOffsetOf_eq_iff`): a message is dropped exactly when a context for its coordinate
is in flight.
-/

namespace EthConnect

/-- Go's `map[string]*msgContext`, from `reqOffset` to a context pointer. -/
abbrev InFlightMap := AList (fun _ : String => Nat)

theorem mem_insert_entries {m : InFlightMap} {key : String} {p : Nat}
    {e : Σ _ : String, Nat} :
    e ∈ (m.insert key p).entries ↔ e = ⟨key, p⟩ ∨ (e ∈ m.entries ∧ e.1 ≠ key) := by
  obtain ⟨a, b⟩ := e
  rw [← AList.mem_lookup_iff, ← AList.mem_lookup_iff]
  by_cases same : a = key
  · subst same
    simp [eq_comm]
  · simp [AList.lookup_insert_ne same, same]

theorem mem_erase_entries {m : InFlightMap} {key : String} {e : Σ _ : String, Nat} :
    e ∈ (m.erase key).entries ↔ e ∈ m.entries ∧ e.1 ≠ key := by
  obtain ⟨a, b⟩ := e
  rw [← AList.mem_lookup_iff, ← AList.mem_lookup_iff]
  by_cases same : a = key
  · subst same
    simp
  · simp [AList.lookup_erase_ne same, same]

theorem mem_foldl_erase_entries {keys : List String} {m : InFlightMap}
    {e : Σ _ : String, Nat} :
    e ∈ (keys.foldl (fun m key => m.erase key) m).entries ↔
      e ∈ m.entries ∧ e.1 ∉ keys := by
  induction keys generalizing m with
  | nil => simp
  | cons key keys ih =>
      simp only [List.foldl_cons, ih, mem_erase_entries, List.mem_cons, not_or]
      tauto

/-- What the loops share under `inFlightCond`: the configuration, the in-flight map,
and the contexts allocated so far (`heap p` for a pointer `p < allocated`). -/
structure KafkaBridge where
  conf : KafkaBridgeConf
  inFlight : InFlightMap
  heap : Nat → MsgContext
  allocated : Nat
  keyed : ∀ e ∈ inFlight.entries, e.1 = (heap e.2).reqOffset
  allocated_gt : ∀ e ∈ inFlight.entries, e.2 < allocated

namespace KafkaBridge

/-- The state `NewKafkaBridge` starts from: an empty in-flight map. -/
def new (conf : KafkaBridgeConf) : KafkaBridge where
  conf := conf
  inFlight := ∅
  heap := fun _ => default
  allocated := 0
  keyed := fun _ member => absurd member (List.not_mem_nil _)
  allocated_gt := fun _ member => absurd member (List.not_mem_nil _)

/-- The pointers in the in-flight map. -/
def pointers (k : KafkaBridge) : List Nat :=
  k.inFlight.entries.map (·.2)

/-- Write a context through its pointer, keeping its `reqOffset`. -/
def modify (k : KafkaBridge) (p : Nat) (f : MsgContext → MsgContext)
    (keep : ∀ c, (f c).reqOffset = c.reqOffset) : KafkaBridge where
  conf := k.conf
  inFlight := k.inFlight
  heap := Function.update k.heap p (f (k.heap p))
  allocated := k.allocated
  keyed := fun e member => by
    rw [k.keyed e member, Function.update_apply]
    split_ifs with same
    · rw [same, keep]
    · rfl
  allocated_gt := k.allocated_gt

/-- `ctx.complete = true`. -/
def setComplete (k : KafkaBridge) (p : Nat) : KafkaBridge :=
  k.modify p (fun c => { c with complete := true }) fun _ => rfl

/-- `pCtx = &ctx; k.inFlight[ctx.reqOffset] = pCtx`: allocate a context and enter it
under its `reqOffset`. -/
def insertContext (k : KafkaBridge) (ctx : MsgContext) : KafkaBridge where
  conf := k.conf
  inFlight := k.inFlight.insert ctx.reqOffset k.allocated
  heap := Function.update k.heap k.allocated ctx
  allocated := k.allocated + 1
  keyed := fun e member => by
    rcases mem_insert_entries.mp member with new | ⟨old, _⟩
    · subst new
      simp
    · rw [k.keyed e old, Function.update_noteq (k.allocated_gt e old).ne]
  allocated_gt := fun e member => by
    rcases mem_insert_entries.mp member with new | ⟨old, _⟩
    · subst new
      exact Nat.lt_succ_self _
    · exact Nat.lt_succ_of_lt (k.allocated_gt e old)

/-- `delete(k.inFlight, key)` for each key in turn. -/
def deleteAll (k : KafkaBridge) (keys : List String) : KafkaBridge where
  conf := k.conf
  inFlight := keys.foldl (fun m key => m.erase key) k.inFlight
  heap := k.heap
  allocated := k.allocated
  keyed := fun e member => k.keyed e (mem_foldl_erase_entries.mp member).1
  allocated_gt := fun e member => k.allocated_gt e (mem_foldl_erase_entries.mp member).1

@[simp] theorem modify_conf (k : KafkaBridge) p f keep : (k.modify p f keep).conf = k.conf :=
  rfl

@[simp] theorem modify_inFlight (k : KafkaBridge) p f keep :
    (k.modify p f keep).inFlight = k.inFlight :=
  rfl

@[simp] theorem modify_allocated (k : KafkaBridge) p f keep :
    (k.modify p f keep).allocated = k.allocated :=
  rfl

theorem modify_heap (k : KafkaBridge) p f keep q :
    (k.modify p f keep).heap q = if q = p then f (k.heap p) else k.heap q :=
  Function.update_apply _ _ _ _

@[simp] theorem setComplete_conf (k : KafkaBridge) p : (k.setComplete p).conf = k.conf :=
  rfl

@[simp] theorem setComplete_inFlight (k : KafkaBridge) p :
    (k.setComplete p).inFlight = k.inFlight :=
  rfl

@[simp] theorem setComplete_allocated (k : KafkaBridge) p :
    (k.setComplete p).allocated = k.allocated :=
  rfl

@[simp] theorem setComplete_pointers (k : KafkaBridge) p :
    (k.setComplete p).pointers = k.pointers :=
  rfl

@[simp] theorem setComplete_saramaMsg (k : KafkaBridge) p q :
    ((k.setComplete p).heap q).saramaMsg = (k.heap q).saramaMsg := by
  simp only [setComplete, modify_heap]
  split_ifs with same <;> simp [same]

@[simp] theorem setComplete_replyBytes (k : KafkaBridge) p q :
    ((k.setComplete p).heap q).replyBytes = (k.heap q).replyBytes := by
  simp only [setComplete, modify_heap]
  split_ifs with same <;> simp [same]

@[simp] theorem setComplete_reqOffset (k : KafkaBridge) p q :
    ((k.setComplete p).heap q).reqOffset = (k.heap q).reqOffset := by
  simp only [setComplete, modify_heap]
  split_ifs with same <;> simp [same]

theorem setComplete_complete (k : KafkaBridge) p q :
    ((k.setComplete p).heap q).complete = (q = p || (k.heap q).complete) := by
  simp only [setComplete, modify_heap]
  split_ifs with same <;> simp [same]

@[simp] theorem setComplete_complete_eq_true (k : KafkaBridge) p q :
    ((k.setComplete p).heap q).complete = true ↔ q = p ∨ (k.heap q).complete = true := by
  simp [setComplete_complete]

@[simp] theorem insertContext_conf (k : KafkaBridge) ctx :
    (k.insertContext ctx).conf = k.conf :=
  rfl

@[simp] theorem insertContext_allocated (k : KafkaBridge) ctx :
    (k.insertContext ctx).allocated = k.allocated + 1 :=
  rfl

@[simp] theorem deleteAll_conf (k : KafkaBridge) keys : (k.deleteAll keys).conf = k.conf :=
  rfl

@[simp] theorem deleteAll_heap (k : KafkaBridge) keys : (k.deleteAll keys).heap = k.heap :=
  rfl

@[simp] theorem deleteAll_allocated (k : KafkaBridge) keys :
    (k.deleteAll keys).allocated = k.allocated :=
  rfl

theorem mem_deleteAll_entries {k : KafkaBridge} {keys : List String}
    {e : Σ _ : String, Nat} :
    e ∈ (k.deleteAll keys).inFlight.entries ↔ e ∈ k.inFlight.entries ∧ e.1 ∉ keys :=
  mem_foldl_erase_entries

theorem mem_entries_iff {k : KafkaBridge} {e : Σ _ : String, Nat} :
    e ∈ k.inFlight.entries ↔ e.2 ∈ k.pointers ∧ e.1 = (k.heap e.2).reqOffset := by
  constructor
  · intro member
    exact ⟨List.mem_map_of_mem _ member, k.keyed e member⟩
  · rintro ⟨pointer, key⟩
    obtain ⟨e', member, same⟩ := List.mem_map.mp pointer
    have equal : e' = e := Sigma.ext
      (by rw [k.keyed e' member, key, same]) (heq_of_eq same)
    exact equal ▸ member

theorem pointer_eq_of_reqOffset_eq {k : KafkaBridge} {p q : Nat}
    (hp : p ∈ k.pointers) (hq : q ∈ k.pointers)
    (same : (k.heap p).reqOffset = (k.heap q).reqOffset) : p = q := by
  have entryP := (mem_entries_iff (e := ⟨(k.heap p).reqOffset, p⟩)).mpr ⟨hp, rfl⟩
  have entryQ := (mem_entries_iff (e := ⟨(k.heap p).reqOffset, q⟩)).mpr ⟨hq, same⟩
  rw [← AList.mem_lookup_iff] at entryP entryQ
  simpa using Option.mem_unique entryP entryQ

theorem pointers_nodup (k : KafkaBridge) : k.pointers.Nodup :=
  k.inFlight.nodupKeys.nodup.map_on fun e member e' member' same =>
    Sigma.ext (by rw [k.keyed e member, k.keyed e' member', same]) (heq_of_eq same)

theorem lookup_reqOffset {k : KafkaBridge} {p : Nat} (hp : p ∈ k.pointers) :
    k.inFlight.lookup (k.heap p).reqOffset = some p :=
  AList.mem_lookup_iff.mpr (mem_entries_iff.mpr ⟨hp, rfl⟩)

theorem lookup_eq_some {k : KafkaBridge} {key : String} {p : Nat}
    (found : k.inFlight.lookup key = some p) :
    p ∈ k.pointers ∧ key = (k.heap p).reqOffset :=
  mem_entries_iff.mp (AList.mem_lookup_iff.mp found)

/-- A context for the coordinate of `msg` is in flight. -/
def HoldsCoordinate (k : KafkaBridge) (msg : ConsumerMessage) : Prop :=
  ∃ e ∈ k.inFlight.entries, (k.heap e.2).saramaMsg.topic = msg.topic ∧
    (k.heap e.2).saramaMsg.partition = msg.partition ∧
    (k.heap e.2).saramaMsg.offset = msg.offset

theorem lookup_isSome_iff {k : KafkaBridge} {msg : ConsumerMessage} :
    (k.inFlight.lookup (reqOffsetOf msg)).isSome ↔ k.HoldsCoordinate msg := by
  rw [Option.isSome_iff_exists]
  constructor
  · rintro ⟨p, found⟩
    obtain ⟨pointer, key⟩ := lookup_eq_some found
    rw [(k.heap p).reqOffset_eq, reqOffsetOf_eq_iff] at key
    exact ⟨⟨_, p⟩, AList.mem_lookup_iff.mp found, key.1.symm, key.2.1.symm, key.2.2.symm⟩
  · rintro ⟨e, member, coordinate⟩
    have key : e.1 = reqOffsetOf msg := by
      rw [k.keyed e member, (k.heap e.2).reqOffset_eq, reqOffsetOf_eq_iff.mpr coordinate]
    exact ⟨e.2, AList.mem_lookup_iff.mpr (key ▸ member)⟩

end KafkaBridge

/-- The context `addInflightMsg` leaves in the map for `msg`: its decoded headers, with
a fresh `uuid` for a missing ID, and the account, else the ID, as partition key.  When
decoding fails the function returns before the ID and the key are set. -/
def admittedContext (msg : ConsumerMessage) (uuid : String) : MsgContext :=
  let base : MsgContext :=
    { requestCommon := msg.value.decoded, reqOffset := reqOffsetOf msg, saramaMsg := msg,
      key := "", complete := false, replyBytes := none, reqOffset_eq := rfl }
  match msg.value.unmarshalError with
  | some _ => base
  | none =>
      let headers := msg.value.decoded.headers
      let headers := if headers.id = "" then { headers with id := uuid } else headers
      { base with
        requestCommon := { headers := headers }
        key := if headers.account ≠ "" then headers.account else headers.id }

@[simp] theorem admittedContext_saramaMsg (msg : ConsumerMessage) (uuid : String) :
    (admittedContext msg uuid).saramaMsg = msg := by
  unfold admittedContext
  split <;> rfl

@[simp] theorem admittedContext_reqOffset (msg : ConsumerMessage) (uuid : String) :
    (admittedContext msg uuid).reqOffset = reqOffsetOf msg := by
  unfold admittedContext
  split <;> rfl

@[simp] theorem admittedContext_complete (msg : ConsumerMessage) (uuid : String) :
    (admittedContext msg uuid).complete = false := by
  unfold admittedContext
  split <;> rfl

/-- `addInflightMsg`: a message whose `reqOffset` is already in flight is a redelivery,
answered with no context and no error; any other gets a fresh context in the map,
which stays there even when its headers fail to decode.  `uuid` is what
`kldutils.UUIDv4` returns. -/
def addInflightMsg (k : KafkaBridge) (msg : ConsumerMessage) (uuid : String) :
    KafkaBridge × Option Nat × Option String :=
  match k.inFlight.lookup (reqOffsetOf msg) with
  | some _ => (k, none, none)
  | none =>
      (k.insertContext (admittedContext msg uuid), some k.allocated, msg.value.unmarshalError)

theorem addInflightMsg_of_holds {k : KafkaBridge} {msg : ConsumerMessage} (uuid : String)
    (held : k.HoldsCoordinate msg) : addInflightMsg k msg uuid = (k, none, none) := by
  obtain ⟨p, found⟩ := Option.isSome_iff_exists.mp (KafkaBridge.lookup_isSome_iff.mpr held)
  simp [addInflightMsg, found]

theorem addInflightMsg_of_not_holds {k : KafkaBridge} {msg : ConsumerMessage} (uuid : String)
    (fresh : ¬ k.HoldsCoordinate msg) :
    addInflightMsg k msg uuid = (k.insertContext (admittedContext msg uuid), some k.allocated,
      msg.value.unmarshalError) := by
  have missing : k.inFlight.lookup (reqOffsetOf msg) = none := by
    simpa [← KafkaBridge.lookup_isSome_iff] using fresh
  simp [addInflightMsg, missing]

theorem insertContext_entries_of_not_holds {k : KafkaBridge} {msg : ConsumerMessage}
    (uuid : String) (fresh : ¬ k.HoldsCoordinate msg) :
    (k.insertContext (admittedContext msg uuid)).inFlight.entries =
      ⟨reqOffsetOf msg, k.allocated⟩ :: k.inFlight.entries := by
  have missing : reqOffsetOf msg ∉ k.inFlight := by
    rw [← AList.lookup_isSome, KafkaBridge.lookup_isSome_iff]
    exact fresh
  have inserted := AList.insert_entries_of_neg (b := k.allocated) missing
  simpa only [KafkaBridge.insertContext, admittedContext_reqOffset] using inserted

theorem insertContext_heap (k : KafkaBridge) (ctx : MsgContext) (q : Nat) :
    (k.insertContext ctx).heap q = if q = k.allocated then ctx else k.heap q :=
  Function.update_apply _ _ _ _

theorem mem_insertContext_pointers {k : KafkaBridge} {msg : ConsumerMessage} (uuid : String)
    (fresh : ¬ k.HoldsCoordinate msg) {q : Nat} :
    q ∈ (k.insertContext (admittedContext msg uuid)).pointers ↔
      q = k.allocated ∨ q ∈ k.pointers := by
  simp [KafkaBridge.pointers, insertContext_entries_of_not_holds uuid fresh]

/-- `addInflightMsg` drops a message exactly when a context for its coordinate is in
flight.  Otherwise it adds one new, incomplete entry under the message's key, whether
or not the headers decode, and changes no other entry or context; and distinct
coordinates never share a key. -/
theorem addInflightMsg_dedups_by_coordinate (k : KafkaBridge) (msg : ConsumerMessage)
    (uuid : String) :
    (addInflightMsg k msg uuid = (k, none, none) ↔ k.HoldsCoordinate msg) ∧
    (¬ k.HoldsCoordinate msg →
      ∃ k', addInflightMsg k msg uuid = (k', some k.allocated, msg.value.unmarshalError) ∧
        k'.inFlight.entries = ⟨reqOffsetOf msg, k.allocated⟩ :: k.inFlight.entries ∧
        (k'.heap k.allocated).saramaMsg = msg ∧ (k'.heap k.allocated).complete = false ∧
        ∀ p < k.allocated, k'.heap p = k.heap p) ∧
    ∀ msg' : ConsumerMessage, reqOffsetOf msg = reqOffsetOf msg' →
      msg.topic = msg'.topic ∧ msg.partition = msg'.partition ∧ msg.offset = msg'.offset := by
  refine ⟨⟨fun dropped => ?_, addInflightMsg_of_holds uuid⟩, fun fresh => ?_,
    fun _ => reqOffsetOf_eq_iff.mp⟩
  · by_contra fresh
    simp [addInflightMsg_of_not_holds uuid fresh] at dropped
  · refine ⟨_, addInflightMsg_of_not_holds uuid fresh,
      insertContext_entries_of_not_holds uuid fresh, by simp [KafkaBridge.insertContext],
      by simp [KafkaBridge.insertContext], fun p below => ?_⟩
    simp [KafkaBridge.insertContext, Function.update_noteq below.ne]

theorem admittedContext_headers (msg : ConsumerMessage) (uuid : String)
    (decoded : msg.value.unmarshalError = none) :
    (admittedContext msg uuid).requestCommon.headers.id =
      (if msg.value.decoded.headers.id = "" then uuid else msg.value.decoded.headers.id) ∧
    (admittedContext msg uuid).key =
      (if msg.value.decoded.headers.account ≠ "" then msg.value.decoded.headers.account
        else (admittedContext msg uuid).requestCommon.headers.id) := by
  simp only [admittedContext, decoded]
  split_ifs <;> simp_all

end EthConnect
