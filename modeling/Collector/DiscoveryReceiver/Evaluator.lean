import Collector.DiscoveryReceiver.Sources

/-!
# The evaluation of status matches

What an expression returns is taken for a bool, and what the receiver's embedded configuration decodes to for a map that
is not nil. A match with an error is skipped.
-/

namespace Collector.DiscoveryReceiver

open Lib Outcome

variable {A V P C Details : Type}

/-- The environment of an expression also has itself as an entry. -/
structure Engine (A V P : Type) where
  regexp : Str → Option (Str → Bool)
  compile : Str → List (Str × A) → Option P
  run : P → List (Str × A) → Option V
  bool : V → Option Bool

/-- The JSON text of a map of strings, which begins with a brace, and decoding one into a map, which a null makes
nil. -/
structure JsonText (A : Type) where
  marshal : List (Str × Str) → Option Str
  unmarshal : Str → Option (Option (List (Str × A)))
  /-- The verb `%q`. -/
  quote : Str → Str
  marshal_object : ∀ m s, marshal m = some s → s.head? = some '\x7b'
  unmarshal_object : ∀ s, s.head? = some '\x7b' → unmarshal s ≠ some none

/-- The encoding of a receiver's configuration, with `C` for the maps that are not nil. -/
structure Encoded (C : Type) where
  base64 : Str → Option Str
  unmarshal : Str → Option (Option C)
  setObserver : Str → C → C
  marshal : C → Option Str
  toBase64 : Str → Str

/-- What an evaluator keeps: the keys of the records for `first_only`, and the attributes of the store. -/
structure Evaluator where
  alreadyLogged : List Str
  receiverAttrs : List (ComponentID × List (Str × Str))

/-! ## One match -/

inductive MatchError where
  | regexp
  | expr
  | run
  | noField

section
variable (engine : Engine A V P) (exprEnv : Str → Option (List (Str × A)))

def Match.holds (m : Match) (pattern : Str) : Outcome MatchError Panic Bool :=
  if m.strict ≠ [] then .ok (pattern = m.strict)
  else if m.regexp ≠ [] then
    match engine.regexp m.regexp with
    | none => .error (.error .regexp)
    | some re => .ok (re pattern)
  else if m.expr ≠ [] then
    match exprEnv pattern with
    | none => .error (.panic .nilMap)
    | some env => match engine.compile m.expr env with
      | none => .error (.error .expr)
      | some program => match engine.run program env with
        | none => .error (.error .run)
        | some ret => match engine.bool ret with
          | none => .error (.panic .notBool)
          | some b => .ok b
  else .error (.error .noField)

def Match.pattern (m : Match) : Str :=
  if m.strict ≠ [] then m.strict else if m.regexp ≠ [] then m.regexp else m.expr

def loggedKey (endpointID : Str) (receiverID : ComponentID) (status matchPattern : Str) : Str :=
  endpointID ++ ':' :: ':' :: (receiverID.string ++ ':' :: ':' :: (status ++ ':' :: ':' :: matchPattern))

def evaluateMatch (logged : List Str) (m : Match) (pattern status : Str) (receiverID : ComponentID) (endpointID : Str) :
    Outcome MatchError Panic (Bool × List Str) :=
  (m.holds engine exprEnv pattern).map fun shouldLog =>
    if shouldLog && m.firstOnly then
      let key := loggedKey endpointID receiverID status m.pattern
      if key ∈ logged then (false, logged) else (true, logged ++ [key])
    else (shouldLog, logged)

end

/-! ## Resource attributes -/

def observerIDAttr : Str := "discovery.observer.id"
def receiverConfigAttr : Str := "discovery.receiver.config"
def receiverUpdatedConfigAttr : Str := "discovery.receiver.updated.config"
def receiverRuleAttr : Str := "discovery.receiver.rule"
def eventTypeAttr : Str := "discovery.event.type"

def addObserverToEncodedConfig (encoded : Encoded C) (config observerID : Str) : Outcome Unit Panic Str :=
  match (encoded.base64 config).bind encoded.unmarshal with
  | none => .error (.error ())
  | some none => .error (.panic .nilMap)
  | some (some cfg) => match encoded.marshal (encoded.setObserver observerID cfg) with
    | none => .error (.error ())
    | some yaml => .ok (encoded.toBase64 yaml)

section
variable (values : Values A) (encoded : Encoded C)

def Evaluator.attrs (ev : Evaluator) (receiverID : ComponentID) : List (Str × Str) :=
  (find receiverID ev.receiverAttrs).getD []

def Evaluator.updateAttrs (ev : Evaluator) (receiverID : ComponentID) (k v : Str) : Evaluator :=
  { ev with receiverAttrs := put receiverID (put k v (ev.attrs receiverID)) ev.receiverAttrs }

def updatedWithObserverAttr (observerID : Str) : Str := receiverUpdatedConfigAttr ++ '.' :: observerID

def correlateConfig (receiverAttrs : List (Str × Str)) (receiverID : ComponentID) (observerID configVal : Str)
    (ev : Evaluator) : Outcome Empty Panic (Str × Evaluator) :=
  match find (updatedWithObserverAttr observerID) receiverAttrs with
  | some updatedConfig => .ok (updatedConfig, ev)
  | none =>
    if observerID = [] then .ok (configVal, ev)
    else (attempt (addObserverToEncodedConfig encoded configVal observerID)).map fun
      | none => (configVal, ev)
      | some updatedConfig =>
        (updatedConfig, ev.updateAttrs receiverID (updatedWithObserverAttr observerID) updatedConfig)

def correlateAttribute (embed : Bool) (receiverAttrs : List (Str × Str)) (receiverID : ComponentID) (observerID : Str)
    (s : List (Str × A) × Evaluator) (e : Str × A) : Outcome Empty Panic (List (Str × A) × Evaluator) :=
  let copy (v : A) (ev : Evaluator) := (if e.1 ∈ keys s.1 then s.1 else s.1 ++ [(e.1, v)], ev)
  if e.1 = receiverConfigAttr ∧ embed then
    (correlateConfig encoded receiverAttrs receiverID observerID (values.asString e.2) s.2).map fun r =>
      copy (values.str r.1) r.2
  else .ok (copy e.2 s.2)

def withConfig (embed : Bool) (receiverAttrs : List (Str × Str)) (attributes : List (Str × A)) : List (Str × A) :=
  if embed ∧ receiverConfigAttr ∉ keys attributes then
    attributes ++ [(receiverConfigAttr, values.str ((find receiverConfigAttr receiverAttrs).getD []))]
  else attributes

/-- `correlateResourceAttributes`, of attributes that may be read-only. -/
def correlateResourceAttributes (embed readOnly : Bool) (attributes : List (Str × A)) (corr : Correlation Details)
    (ev : Evaluator) : Outcome Empty Panic (List (Str × A) × Evaluator) :=
  let observerID := corr.observerID.string
  let observed := if observerID ≠ [] ∧ observerID ≠ noType.string then [(observerIDAttr, values.str observerID)] else []
  if embed ∧ receiverConfigAttr ∉ keys attributes ∧ readOnly then .error (.panic .sharedData)
  else (withConfig values embed (ev.attrs corr.receiverID) attributes).foldlM
    (correlateAttribute values encoded embed (ev.attrs corr.receiverID) corr.receiverID observerID) (observed, ev)

end

/-! ## Statements and metrics -/

structure Record (A : Type) where
  body : Str
  severityText : Str
  attributes : List (Str × A)
  timestamp : Option Int

structure Logs (A : Type) where
  resource : List (Str × A)
  records : List (Record A)

structure Resolved where
  receiverID : ComponentID
  endpointID : Str
  rule : Str
  status : Status

def resolve (cfg : Config) (ids : ComponentID × Str) : Option Resolved :=
  if ids.1 = noType ∨ ids.2 = [] then none
  else (find ids.1 cfg.receivers).bind fun entry => entry.status.map fun status => ⟨ids.1, ids.2, entry.rule, status⟩

def pairs (ms : List (Str × List Match)) : List (Str × Match) :=
  ms.flatMap fun e => e.2.map fun m => (e.1, m)

def statusAttr : Str := "discovery.status"
def metricNameAttr : Str := "metric.name"
def statementMatch : Str := "statement.match"
def metricMatch : Str := "metric.match"
def messageField : Str := ['m', 'e', 's', 's', 'a', 'g', 'e']

def hiddenFields : List Str := ["caller", "monitorID", nameField, "stacktrace"]

def noRecord : LogRecord := ⟨[], [], [], false⟩

section
variable (values : Values A) (engine : Engine A V P) (json : JsonText A) (encoded : Encoded C) (cfg : Config)
  (getOrCreate : ComponentID → Str → Correlation Details)

def addRecord (exprEnv : Str → Option (List (Str × A))) (r : Resolved) (status : Str) (m : Match) (pattern : Str)
    (record : Record A) (s : List Str × List (Record A)) : Outcome Empty Panic (List Str × List (Record A)) :=
  (attempt (evaluateMatch engine exprEnv s.1 m pattern status r.receiverID r.endpointID)).map fun
    | none => s
    | some (shouldLog, logged) => (logged, if shouldLog then s.2 ++ [record] else s.2)

def finish (resource : List (Str × A)) (ev : Evaluator) (s : List Str × List (Record A)) :
    Evaluator × Option (Logs A) :=
  ({ ev with alreadyLogged := s.1 }, if s.2.isEmpty then none else some ⟨resource, s.2⟩)

def statementEnv (pattern : Str) : Option (List (Str × A)) :=
  match json.unmarshal pattern with
  | none => some [(messageField, values.str pattern)]
  | some env => env

def Statement.patternMap (statement : Statement A) : List (Str × Str) :=
  putAll ((statement.fields.filter fun e => e.1 ∉ hiddenFields).map fun e => (e.1, values.sprint e.2))
    [(messageField, statement.message)]

def Statement.patternMapStr (statement : Statement A) : Str :=
  match json.marshal (statement.patternMap values) with
  | some text => text
  | none => '\x7b' :: '\x22' :: (messageField ++ '\x22' :: ':' :: (json.quote statement.message ++ ['\x7d']))

def Statement.record (statement : Statement A) (status : Str) (m : Match) (pattern : Str) : Record A :=
  let desired := m.record.getD noRecord
  { body :=
      if desired.body = [] then statement.message
      else if desired.appendPattern then desired.body ++ " (evaluated " ++ json.quote pattern ++ [')']
      else desired.body
    severityText :=
      if desired.severityText ≠ [] then desired.severityText
      else if statement.level ≠ [] then statement.level else "INFO"
    attributes := put statusAttr (values.str status)
      (putAll (desired.attributes.map fun e => (e.1, values.str e.2)) statement.fields)
    timestamp := some statement.time }

def evaluateStatementMatch (r : Resolved) (statement : Statement A) (s : List Str × List (Record A))
    (e : Str × Match) : Outcome Empty Panic (List Str × List (Record A)) :=
  let pattern := if e.2.strict ≠ [] then statement.message else statement.patternMapStr values json
  addRecord engine (statementEnv values json) r e.1 e.2 pattern (statement.record values json e.1 e.2 pattern) s

def statementAttributes (r : Resolved) : List (Str × A) :=
  [(receiverTypeAttr, values.str r.receiverID.type), (receiverNameAttr, values.str r.receiverID.name),
    (endpointIDAttr, values.str r.endpointID)]

def withRule (event : Str) (r : Resolved) (resource : List (Str × A)) : List (Str × A) :=
  put receiverRuleAttr (values.str r.rule) (put eventTypeAttr (values.str event) resource)

def evaluateStatement (ev : Evaluator) (statement : Statement A) :
    Outcome Empty Panic (Evaluator × Option (Logs A)) := do
  let ids ← statement.receiverIDs values
  match resolve cfg ids with
  | none => return (ev, none)
  | some r =>
    let c ← correlateResourceAttributes values encoded cfg.embedReceiverConfig false (statementAttributes values r)
      (getOrCreate r.receiverID r.endpointID) ev
    let s ← (pairs r.status.statements).foldlM (evaluateStatementMatch values engine json r statement)
      (c.2.alreadyLogged, [])
    return finish (withRule values statementMatch r c.1) c.2 s

def metricEnv (pattern : Str) : Option (List (Str × A)) := some [(nameField, values.str pattern)]

def Metrics.receiverMetrics (md : Metrics A) : List (Str × List Metric) :=
  (md.all.map Metric.name).dedup.map fun name => (name, md.all.filter fun m => m.name = name)

def metricRecord (status : Str) (m : Match) (metricName : Str) (metric : Metric) : Record A :=
  let desired := m.record.getD noRecord
  { body := desired.body
    severityText := if desired.severityText ≠ [] then desired.severityText else "info"
    attributes := put statusAttr (values.str status) (put metricNameAttr (values.str metricName)
      (putAll (desired.attributes.map fun e => (e.1, values.str e.2)) []))
    timestamp := metric.timestamp }

def evaluateMetricMatch (r : Resolved) (s : List Str × List (Record A)) (e : (Str × Match) × Str × Metric) :
    Outcome Empty Panic (List Str × List (Record A)) :=
  addRecord engine (metricEnv values) r e.1.1 e.1.2 e.2.1 (metricRecord values e.1.1 e.1.2 e.2.1 e.2.2) s

def Metrics.pairs (md : Metrics A) (ms : List (Str × List Match)) : List ((Str × Match) × Str × Metric) :=
  (DiscoveryReceiver.pairs ms).flatMap fun e =>
    md.receiverMetrics.flatMap fun g => g.2.map fun metric => (e, g.1, metric)

def evaluateMetrics (ev : Evaluator) (md : Metrics A) : Outcome Empty Panic (Evaluator × Option (Logs A)) :=
  if md.all.length = 0 then .ok (ev, none)
  else do
    let ids ← md.receiverIDs values
    match resolve cfg ids with
    | none => return (ev, none)
    | some r =>
      if r.status.metrics.isEmpty then return (ev, none)
      else match md.resourceMetrics with
        | [] => .error (.panic .indexOutOfRange)
        | rm :: _ =>
          let c ← correlateResourceAttributes values encoded cfg.embedReceiverConfig md.readOnly rm.attributes
            (getOrCreate r.receiverID r.endpointID) ev
          let s ← (md.pairs r.status.metrics).foldlM (evaluateMetricMatch values engine r) (c.2.alreadyLogged, [])
          return finish (withRule values metricMatch r c.1) c.2 s

end

end Collector.DiscoveryReceiver
