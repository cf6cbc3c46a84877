import Mathlib.Data.List.AList

/-!
# Messages, contexts and configuration of the Kafka bridge

The records `kldkafka` reads and writes: the consumed request, its `msgContext`, the
reply and the producer message that carries it, and the bridge configuration with
`ValidateConf`.  Only the fields some modelled function reads are kept.

The value of a consumed message is modelled by what `json.Unmarshal` into
`kldmessages.RequestCommon` makes of it: the decoded headers and the error, if any.
Partitions and offsets are `int32` and `int64` in sarama; the bridge only compares
and prints them, so they are unbounded integers here.
-/

namespace EthConnect

/-- `kldmessages.CommonHeaders`.  Modelled from the spec: the request headers `id`,
`msgType`, `account` and the opaque `context` echoed into the reply (§3). -/
structure CommonHeaders where
  id : String
  msgType : String
  account : String
  context : String
  deriving DecidableEq, Inhabited, Repr

/-- `kldmessages.RequestCommon`.  Modelled from the spec: the envelope whose `headers`
every request carries. -/
structure RequestCommon where
  headers : CommonHeaders
  deriving DecidableEq, Inhabited, Repr

/-- The value bytes of a request as `json.Unmarshal(msg.Value, &ctx.requestCommon)`
reads them: the headers it leaves in the target, and the error it returns.  On a type
error Go keeps decoding the other fields, so a failed decode may still fill some. -/
structure RequestValue where
  decoded : RequestCommon
  unmarshalError : Option String
  deriving DecidableEq, Inhabited, Repr

/-- `sarama.ConsumerMessage`: the coordinate and the value the bridge reads. -/
structure ConsumerMessage where
  topic : String
  partition : Int
  offset : Int
  value : RequestValue
  deriving DecidableEq, Inhabited, Repr

/-- `fmt.Sprintf("%s:%d:%d", msg.Topic, msg.Partition, msg.Offset)`: the `reqOffset` of
a message, its key in the in-flight map and the metadata of its reply. -/
def reqOffsetOf (msg : ConsumerMessage) : String :=
  msg.topic ++ ":" ++ toString msg.partition ++ ":" ++ toString msg.offset

/-- `kldmessages.ReplyHeaders`.  Modelled from the spec: the reply headers `Reply`
stamps, `id`, `context`, `reqId` and `reqOffset` (§3); the timing headers are not
modelled. -/
structure ReplyHeaders where
  id : String
  context : String
  reqID : String
  reqOffset : String
  deriving DecidableEq, Inhabited, Repr

/-- The body of a reply.  Modelled from the spec: a standard error body with its
message, the original request and an optional transaction hash, or a type-specific
result the processor builds (§4.2, §4.6). -/
inductive ReplyBody
  | errorReply (errorMessage : String) (originalMessage : RequestValue) (txHash : String)
  | result (payload : String)
  deriving DecidableEq, Inhabited, Repr

/-- `kldmessages.ReplyWithHeaders`: a reply with the headers `Reply` stamps. -/
structure ReplyWithHeaders where
  headers : ReplyHeaders
  body : ReplyBody
  deriving DecidableEq, Inhabited, Repr

/-- `kldmessages.NewErrorReply(err, msg.Value)`.  Modelled from the spec: the standard
error body with the error's message and the original request (§4.2); its headers are
stamped by `Reply`. -/
def newErrorReply (err : String) (value : RequestValue) : ReplyWithHeaders :=
  { headers := default, body := .errorReply err value "" }

/-- `msgContext`, one for each admitted message.  Its `reqOffset` is the coordinate of
its message, as `addInflightMsg` builds it; `replyBytes` holds the reply last passed to
`Reply` (its JSON encoding is not modelled). -/
structure MsgContext where
  requestCommon : RequestCommon
  reqOffset : String
  saramaMsg : ConsumerMessage
  key : String
  complete : Bool
  replyBytes : Option ReplyWithHeaders
  reqOffset_eq : reqOffset = reqOffsetOf saramaMsg

instance : Inhabited MsgContext :=
  ⟨{ requestCommon := default, reqOffset := reqOffsetOf default, saramaMsg := default,
     key := "", complete := false, replyBytes := none, reqOffset_eq := rfl }⟩

/-- `sarama.ProducerMessage` as `Reply` builds it.  `value` is the replying context
itself (a `msgContext` encodes to its `replyBytes`), given by its pointer. -/
structure ProducerMessage where
  topic : String
  key : String
  metadata : String
  value : Nat
  deriving DecidableEq, Repr

/-- `KafkaCommonConf`.  Modelled from the spec: the inbound and outbound topics
`kafka.topicIn` and `kafka.topicOut` (§6); the broker, TLS and SASL settings only serve
to connect. -/
structure KafkaCommonConf where
  topicIn : String
  topicOut : String
  deriving DecidableEq, Repr

/-- The `RPC` section of `KafkaBridgeConf`. -/
structure RPCConf where
  url : String
  deriving DecidableEq, Repr

/-- `KafkaBridgeConf`. -/
structure KafkaBridgeConf where
  kafka : KafkaCommonConf
  maxInFlight : Int
  maxTXWaitTime : Int
  predictNonces : Bool
  rpc : RPCConf
  deriving DecidableEq, Repr

/-- `ValidateConf`: an RPC URL is required, the transaction wait is raised to ten
seconds, and an unset (zero) in-flight limit becomes ten. -/
def validateConf (conf : KafkaBridgeConf) : Except String KafkaBridgeConf :=
  if conf.rpc.url = "" then
    .error "No JSON/RPC URL set for ethereum node"
  else
    .ok { conf with
      maxTXWaitTime := if conf.maxTXWaitTime < 10 then 10 else conf.maxTXWaitTime
      maxInFlight := if conf.maxInFlight = 0 then 10 else conf.maxInFlight }

theorem validateConf_eq_error_iff (conf : KafkaBridgeConf) (err : String) :
    validateConf conf = .error err ↔
      conf.rpc.url = "" ∧ err = "No JSON/RPC URL set for ethereum node" := by
  unfold validateConf
  split_ifs with unset
  · simp [unset, eq_comm]
  · simp [unset]

theorem validateConf_url_ne {conf validated : KafkaBridgeConf}
    (ok : validateConf conf = .ok validated) : conf.rpc.url ≠ "" := fun unset => by
  simp [validateConf, unset] at ok

theorem validateConf_maxInFlight {conf conf' : KafkaBridgeConf}
    (validated : validateConf conf = .ok conf') :
    conf'.maxInFlight = if conf.maxInFlight = 0 then 10 else conf.maxInFlight := by
  unfold validateConf at validated
  split_ifs at validated <;> cases validated <;> simp_all

theorem validateConf_maxInFlight_pos {conf conf' : KafkaBridgeConf}
    (validated : validateConf conf = .ok conf') (nonneg : 0 ≤ conf.maxInFlight) :
    0 < conf'.maxInFlight := by
  rw [validateConf_maxInFlight validated]
  split_ifs <;> omega

/-! ## A configuration and requests for worked runs -/

/-- A bridge reading `in` and replying on `out`, ten messages in flight at most. -/
def sampleConf : KafkaBridgeConf where
  kafka := { topicIn := "in", topicOut := "out" }
  maxInFlight := 10
  maxTXWaitTime := 10
  predictNonces := false
  rpc := { url := "rpc" }

/-- A request on partition 0 of `in` from account `0xabc`, whose headers decode. -/
def sampleRequest (offset : Int) : ConsumerMessage where
  topic := "in"
  partition := 0
  offset := offset
  value :=
    { decoded :=
        { headers := { id := "", msgType := "SendTransaction", account := "0xabc", context := "" } }
      unmarshalError := none }

/-- A reply the processor builds. -/
def sampleReply : ReplyWithHeaders :=
  { headers := default, body := .result "ok" }

end EthConnect
