import Clustodian.Model.ReplicaStates

namespace Clustodian

structure InstanceRecord where
  name : String
  zone : String
  deriving DecidableEq

structure CrushTopologyRecord where
  path : String
  faultZoneType : String
  endNodeType : String
  deriving DecidableEq

structure PlacementRecord where
  kind : String
  replicas : ℕ
  preferenceLists : BTreeMap String (List String)
  partitions : List String
  topology : Option CrushTopologyRecord
  deriving DecidableEq

structure ResourceRecord where
  name : String
  stateModel : String
  placement : PlacementRecord
  deriving DecidableEq

structure ThrottleRecord where
  scope : String
  resource : Option String
  instance_ : Option String
  rebalanceType : String
  maxInFlight : ℕ
  deriving DecidableEq

/-- A queued state-transition message. `PublishedTransition` and `TransitionMessage` have these
eight fields and differ only in the order serialization writes them in. -/
structure PublishedTransition where
  resource : String
  partition : String
  instance_ : String
  targetSession : ℕ
  source : String
  target : String
  messageType : String
  messageId : String
  deriving DecidableEq

abbrev TransitionMessage := PublishedTransition

namespace PublishedTransition

/-- The derived order of the source compares the fields in declaration order. -/
def sortKey (message : PublishedTransition) :
    String ×ₗ String ×ₗ String ×ₗ ℕ ×ₗ String ×ₗ String ×ₗ String ×ₗ String :=
  toLex (message.resource, toLex (message.partition, toLex (message.instance_,
    toLex (message.targetSession, toLex (message.source, toLex (message.target,
      toLex (message.messageType, message.messageId)))))))

theorem sortKey_injective : Function.Injective sortKey := by
  rintro ⟨⟩ ⟨⟩ h
  simp only [sortKey, toLex_inj, Prod.mk.injEq] at h
  simp only [mk.injEq]
  tauto

instance : LinearOrder PublishedTransition := LinearOrder.lift' sortKey sortKey_injective

end PublishedTransition

/-- Which of the two field orders a queued message was serialized in. -/
inductive FieldOrder
  | published
  | message
  deriving DecidableEq

/-- A stored value: a plain text, or the JSON text of one of the documents. Serialization is
deterministic and reads back what it wrote, so a document stands for its text. -/
inductive Value
  | text (value : String)
  | instances (records : List InstanceRecord)
  | resource (record : ResourceRecord)
  | throttles (records : List ThrottleRecord)
  | transitions (messages : List (FieldOrder × PublishedTransition))
  | externalView (view : BTreeMap String (BTreeMap String (BTreeMap String String)))
  deriving DecidableEq

namespace Value

def ofTransitions (order : FieldOrder) (messages : List PublishedTransition) : Value :=
  .transitions (messages.map fun message ↦ (order, message))

/-- The parser's message for a value that is not a document of the wanted type. -/
def parseMessage : String := "expected value at line 1 column 1"

def asTransitions : Value → Except String (List PublishedTransition)
  | .transitions messages => .ok (messages.map Prod.snd)
  | _ => .error parseMessage

def asInstances : Value → Except String (List InstanceRecord)
  | .instances records => .ok records
  | _ => .error parseMessage

def asResource : Value → Except String ResourceRecord
  | .resource record => .ok record
  | _ => .error parseMessage

def asThrottles : Value → Except String (List ThrottleRecord)
  | .throttles records => .ok records
  | _ => .error parseMessage

@[simp] theorem asTransitions_ofTransitions (order : FieldOrder)
    (messages : List PublishedTransition) :
    (ofTransitions order messages).asTransitions = .ok messages := by
  simp [ofTransitions, asTransitions, Function.comp_def]

end Value

/-- Decimal texts as `parse::<u64>` and `parse::<i64>` read them: digits after an optional sign. -/
def parseDigits (digits : List Char) : Option ℕ :=
  if digits = [] ∨ ¬digits.all Char.isDigit then none
  else some (digits.foldl (fun value digit ↦ 10 * value + (digit.toNat - '0'.toNat)) 0)

def parseU64 (text : String) : Option ℕ :=
  let digits := match text.toList with
    | '+' :: rest => rest
    | rest => rest
  (parseDigits digits).filter (· < 2 ^ 64)

def parseI64 (text : String) : Option ℤ :=
  match text.toList with
  | '-' :: rest => (parseDigits rest).bind fun value ↦
      if value ≤ 2 ^ 63 then some (-(value : ℤ)) else none
  | '+' :: rest => (parseDigits rest).bind fun value ↦
      if value < 2 ^ 63 then some (value : ℤ) else none
  | rest => (parseDigits rest).bind fun value ↦
      if value < 2 ^ 63 then some (value : ℤ) else none

def stripPrefix (text lead : String) : Option String :=
  if lead.toList.isPrefixOf text.toList then
    some (String.ofList (text.toList.drop lead.toList.length))
  else none

end Clustodian
