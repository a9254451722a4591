import Collector.Lib.Panic
import Collector.Lib.Slice
import Collector.Strings

/-!
# The StatsD parser

`parser.go`, `parseMetrics` of `statsd.go` and `monitor.go` of `internal/signalfx-agent/pkg/monitors/statsd`. Every
slice, index and write to a map is checked as Go checks it.
-/

namespace Collector.StatsD

open Lib Strings

variable {V : Type}

/-! ## Go's run time -/

inductive Fault where
  | slice (s : Str) (lo hi : Int)
  | index (i : Nat)
  | nilMap

abbrev Result := Outcome Empty Fault

def slice (s : Str) (lo hi : Int) : Result Str :=
  if 0 ≤ lo ∧ lo ≤ hi ∧ hi ≤ s.length then .ok ((s.take hi.toNat).drop lo.toNat)
  else .error (.panic (.slice s lo hi))

def index (l : List Str) (i : Nat) : Result Str :=
  match l[i]? with
  | some s => .ok s
  | none => .error (.panic (.index i))

abbrev Dims := List (Str × Str)

def assign (m : Option Dims) (k v : Str) : Result (Option Dims) :=
  match m with
  | some dims => .ok (some (put k v dims))
  | none => .error (.panic .nilMap)

/-- `strings.Index` and `strings.LastIndex` give -1 where there is no occurrence. -/
def position : Option Nat → Int
  | some i => i
  | none => -1

/-! ## Tags -/

def parseTag (dims : Option Dims) (t : Str) : Result (Option Dims) :=
  match cut ':' t with
  | none => .ok dims
  | some (k, v) => assign dims k v

def parseDogstatsdTags (s : Str) : Result (Str × Option Dims) :=
  let tagsIdx := position (lastIndexOf ['|', '#'] s)
  if 0 ≤ tagsIdx then do
    let tagsRaw ← slice s (tagsIdx + 2) s.length
    let text ← slice s 0 tagsIdx
    let dims ← (tagsRaw.splitOn ',').foldlM parseTag (some [])
    .ok (text, dims)
  else .ok (s, none)

/-! ## Patterns -/

structure FieldPattern where
  substrs : List Str
  startWithField : Bool

structure Converter where
  pattern : FieldPattern
  metric : FieldPattern

structure Fields where
  substrs : List Str
  inBraces : Bool
  currentField : Str

def parseField (fields : Fields) (c : Char × Nat) : Option Fields :=
  match c.1 with
  | '{' =>
    if fields.inBraces then none
    else if 0 < fields.currentField.length then some ⟨fields.substrs ++ [fields.currentField], true, []⟩
    else if c.2 ≠ 0 then none
    else some ⟨fields.substrs, true, []⟩
  | '}' => if fields.inBraces then some ⟨fields.substrs ++ [fields.currentField], false, []⟩ else none
  | c => some { fields with currentField := fields.currentField ++ [c] }

def parseFields (p : Str) : Option FieldPattern := do
  let fields ← p.zipIdx.foldlM parseField ⟨[], false, []⟩
  if fields.inBraces then none
  else
    let substrs := if 0 < fields.currentField.length then fields.substrs ++ [fields.currentField] else fields.substrs
    some ⟨substrs, p.head? = some '{'⟩

structure ConverterInput where
  pattern : Str
  metricName : Str

def newConverter (input : ConverterInput) : Option Converter :=
  match parseFields input.pattern, parseFields input.metricName with
  | some pattern, some metric => some ⟨pattern, metric⟩
  | _, _ => none

def validate (converters : List ConverterInput) : Except Str Unit :=
  converters.forM fun ci =>
    if ci.pattern = [] then .error "[pattern] is required for a converter"
    else if ci.metricName = [] then .error "[metricName] is required for a converter"
    else .ok ()

def converters (inputs : List ConverterInput) : List Converter :=
  inputs.filterMap newConverter

/-! ## Conversion -/

def setField (fields : Option Dims) (field : Str) (value : Result Str) : Result (Option Dims) :=
  if 0 < field.length then value >>= assign fields field else .ok fields

/-- `w` is the position in the name. It gives the `i` at which it ends. -/
def matchFields (name : Str) (substrs : List Str) (w i : Nat) (fields : Option Dims) : Result (Nat × Option Dims) :=
  if i < substrs.length then
    if i = substrs.length - 1 then do
      let field ← index substrs i
      let fields ← setField fields field (slice name w name.length)
      .ok (i + 1, fields)
    else do
      let rest ← slice name w name.length
      let sep ← index substrs (i + 1)
      match indexOf sep rest with
      | none => .ok (i, fields)
      | some next => do
        let field ← index substrs i
        let fields ← setField fields field (slice name w (w + next : Nat))
        matchFields name substrs (w + next + sep.length) (i + 2) fields
  else .ok (i, fields)
termination_by substrs.length - i

def matchStart (name : Str) (pattern : FieldPattern) : Result (Option (Nat × Nat)) :=
  if pattern.startWithField then .ok (some (0, 0))
  else do
    let first ← index pattern.substrs 0
    if name.length < first.length then .ok none
    else do
      let front ← slice name 0 first.length
      if front ≠ first then .ok none else .ok (some (first.length, 1))

def composeName (fields : Option Dims) : Bool → List Str → Str
  | _, [] => []
  | isField, substr :: substrs =>
    (if isField then (fields.bind (find substr)).getD [] else substr) ++ composeName fields (!isField) substrs

def convertMetric (name : Str) : List Converter → Option Dims → Result (Str × Option Dims)
  | [], _ => .ok (name, none)
  | c :: converters, fields => do
    let fields := some (fields.getD [])
    match ← matchStart name c.pattern with
    | none => convertMetric name converters fields
    | some (w, i) => do
      let (i, fields) ← matchFields name c.pattern.substrs w i fields
      if i < c.pattern.substrs.length then convertMetric name converters fields
      else .ok (composeName fields c.metric.startWithField c.metric.substrs, fields)

/-! ## Metrics -/

structure StatsDMetric (V : Type) where
  rawMetricName : Str
  metricName : Str
  metricType : Str
  value : V
  dimensions : Option Dims

def trimPrefix (s front : Str) : Str :=
  if front.isPrefixOf s then s.drop front.length else s

/-- The metric's type, up to the second `|` less one character. -/
def parseType (m : Str) (pipeIdx : Int) : Result Str := do
  let rest ← slice m (pipeIdx + 1) m.length
  let secondPipeIdx := pipeIdx + position (indexOf ['|'] rest)
  if secondPipeIdx > pipeIdx then slice m (pipeIdx + 1) secondPipeIdx else slice m (pipeIdx + 1) m.length

def parseName (metricPrefix : Str) (converters : List Converter) (rawMetricName : Str) (dims : Option Dims) :
    Result (Str × Option Dims) :=
  let metricName := if metricPrefix ≠ [] then trimPrefix rawMetricName (metricPrefix ++ ['.']) else rawMetricName
  if converters ≠ [] then convertMetric metricName converters dims else .ok (metricName, dims)

/-- One line. `parseFloat` is `strconv.ParseFloat`. -/
def parseMetric (parseFloat : Str → Option V) (metricPrefix : Str) (converters : List Converter) (line : Str) :
    Result (Option (StatsDMetric V)) :=
  if line = [] then .ok none
  else do
    let (m, dims) ← parseDogstatsdTags line
    let colonIdx := position (indexOf [':'] m)
    let pipeIdx := position (indexOf ['|'] m)
    if pipeIdx ≥ m.length - 1 ∨ pipeIdx < 0 ∨ colonIdx - 1 > m.length ∨ colonIdx < 0 then .ok none
    else do
      let rawMetricName ← slice m 0 colonIdx
      let metricType ← parseType m pipeIdx
      let (metricName, dims) ← parseName metricPrefix converters rawMetricName dims
      let strValue ← slice m (colonIdx + 1) pipeIdx
      .ok ((parseFloat strValue).map fun value => ⟨rawMetricName, metricName, metricType, value, dims⟩)

def parseMetrics (parseFloat : Str → Option V) (metricPrefix : Str) (converters : List Converter)
    (raw : List Str) : Result (List (StatsDMetric V)) :=
  raw.foldlM (fun metrics line => do
    let metric ← parseMetric parseFloat metricPrefix converters line
    .ok (metrics ++ metric.toList)) []

end Collector.StatsD
