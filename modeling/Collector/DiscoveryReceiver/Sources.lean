import Collector.DiscoveryReceiver.Config
import Collector.Lib.Panic

/-!
# The receivers that statements and metrics come from

The ID of the receiver and that of the endpoint are taken from the name of the receiver, or are attributes of the
metrics.
-/

namespace Collector.DiscoveryReceiver

open Lib Outcome

inductive Panic where
  | invalidType
  | indexOutOfRange
  | nilMap
  | sharedData
  | notBool
deriving DecidableEq

def mustNewIDWithName (type name : Str) : Outcome Empty Panic ComponentID :=
  if validType type then .ok ⟨type, name⟩ else .error (.panic .invalidType)

def splitBefore (w : Str) (s : Str) : Option (Str × Str) :=
  if w.isPrefixOf s then some ([], s)
  else match s with
    | [] => none
    | c :: s => (splitBefore w s).map fun p => (c :: p.1, p.2)

/-! ## Statements -/

def receiverNameRegexp : Regex.Pattern Char :=
  Regex.seq (Regex.group 1 (Regex.plus (· ≠ '/'))) (Regex.seq (Regex.lit ['/']) (Regex.group 2 (Regex.star Regex.dot)))

def endpointIDRegexp : Regex.Pattern Char :=
  Regex.seq (Regex.star Regex.dot) (Regex.seq (Regex.lit ['\x7b', 'e', 'n', 'd', 'p', 'o', 'i', 'n', 't', '='])
    (Regex.seq (Regex.star Regex.dot) (Regex.seq (Regex.lit ['\x7d', '/']) (Regex.group 1 (Regex.star Regex.dot)))))

def receiverNameFor (name : Str) : Option Str → Str
  | none => name
  | some endpointID =>
    name ++ "/receiver_creator/<PLACEHOLDER>/\x7bendpoint=\"PLACEHOLDER\"\x7d/" ++ endpointID

def trimSlash (name : Str) : Str := if name.getLast? = some '/' then name.dropLast else name

/-- `ReceiverNameToIDs`, of the attributes `name` and `endpoint_id`. -/
def receiverNameToIDs (name endpointID : Option Str) : Outcome Empty Panic (ComponentID × Str) :=
  match name with
  | none => .ok (noType, [])
  | some name =>
    let receiverName := receiverNameFor name endpointID
    if Regex.count receiverCreatorRegexp receiverName ≠ 1 ∨ Regex.count endpointTargetRegexp receiverName ≠ 1 then
      .ok (noType, [])
    else match splitBefore (receiverCreator ++ ['/']) receiverName with
      | none => .ok (noType, [])
      | some (nameSection, endpointSection) => match Regex.whole receiverNameRegexp nameSection with
        | none => .ok (noType, [])
        | some m =>
          let rType := if validType (m.group 1) then m.group 1 else noType.type
          let eID := (Regex.whole endpointIDRegexp endpointSection).elim [] fun m => m.group 1
          (mustNewIDWithName rType (trimSlash (m.group 2))).map fun id => (id, eID)

theorem validType_noType : validType noType.type = true := by decide +kernel

theorem receiverNameToIDs_ok (name endpointID : Option Str) : ∃ ids, receiverNameToIDs name endpointID = .ok ids := by
  unfold receiverNameToIDs
  split
  · exact ⟨_, rfl⟩
  · simp only
    split
    · exact ⟨_, rfl⟩
    · split
      · exact ⟨_, rfl⟩
      · split
        · exact ⟨_, rfl⟩
        · rename_i m _
          have hv : validType (if validType (m.group 1) then m.group 1 else noType.type) = true := by
            split
            · assumption
            · exact validType_noType
          rw [mustNewIDWithName, if_pos hv]
          exact ⟨_, rfl⟩

/-- How a value of a field or an attribute is made from a string, and turned into one. -/
structure Values (A : Type) where
  str : Str → A
  /-- `Value.AsString`. -/
  asString : A → Str
  /-- `fmt.Sprintf` with the verb `%v`. -/
  sprint : A → Str

variable {A : Type} (values : Values A)

structure Statement (A : Type) where
  message : Str
  fields : List (Str × A)
  level : Str
  time : Int

def nameField : Str := ['n', 'a', 'm', 'e']

def endpointIDField : Str := ['e', 'n', 'd', 'p', 'o', 'i', 'n', 't', '_', 'i', 'd']

def Statement.receiverIDs (statement : Statement A) : Outcome Empty Panic (ComponentID × Str) :=
  receiverNameToIDs ((find nameField statement.fields).map values.asString)
    ((find endpointIDField statement.fields).map values.asString)

/-! ## Metrics -/

structure Metric where
  name : Str
  timestamp : Option Int

structure ResourceMetrics (A : Type) where
  attributes : List (Str × A)
  scopeMetrics : List (List Metric)

structure Metrics (A : Type) where
  resourceMetrics : List (ResourceMetrics A)
  readOnly : Bool

def Metrics.all (md : Metrics A) : List Metric := md.resourceMetrics.flatMap fun rm => rm.scopeMetrics.flatten

def receiverTypeAttr : Str := "discovery.receiver.type"
def receiverNameAttr : Str := "discovery.receiver.name"
def endpointIDAttr : Str := "discovery.endpoint.id"

def Metrics.attribute (md : Metrics A) (name : Str) : Str :=
  ((md.resourceMetrics.head?.bind fun rm => find name rm.attributes).map values.asString).getD []

def Metrics.receiverIDs (md : Metrics A) : Outcome Empty Panic (ComponentID × Str) :=
  if validType (md.attribute values receiverTypeAttr) then
    (mustNewIDWithName (md.attribute values receiverTypeAttr) (md.attribute values receiverNameAttr)).map fun id =>
      (id, md.attribute values endpointIDAttr)
  else .ok (noType, [])

theorem Metrics.receiverIDs_ok (md : Metrics A) : ∃ ids, md.receiverIDs values = .ok ids := by
  unfold receiverIDs
  split_ifs with hv
  · rw [mustNewIDWithName, if_pos hv]
    exact ⟨_, rfl⟩
  · exact ⟨_, rfl⟩

end Collector.DiscoveryReceiver
