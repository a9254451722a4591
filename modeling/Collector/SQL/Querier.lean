import Collector.Lib.Panic
import Collector.Value

/-!
# The querier of the SQL monitor

The slice of destinations is made for the first row and kept for all later ones: from the metrics of the query, or, if
it has expressions, from the types that the database reports.
-/

namespace Collector.SQL

open Lib Outcome

/-- `unicode.ToLower`, and a letter for all those that are the same up to their case. -/
structure Letters where
  lower : Char → Char
  fold : Char → Char

def toLower (letters : Letters) (s : Str) : Str := s.map letters.lower

def equalFold (letters : Letters) (s t : Str) : Bool := s.map letters.fold = t.map letters.fold

/-! ## The configuration -/

structure Metric where
  metricName : Str
  valueColumn : Str
  dimensionColumns : List Str
  isCumulative : Bool
  dimensionPropertyColumns : List (Str × List Str)

structure Query where
  metrics : List Metric
  datapointExpressions : List Str

structure Config where
  dbDriver : Str
  queries : List Query

inductive ConfigError where
  | driver (name : Str)
  | noQueries
  | emptyQuery
  | repeated (valueColumn : Str)
deriving DecidableEq

def drivers : List Str :=
  [['p', 'o', 's', 't', 'g', 'r', 'e', 's'], ['m', 'y', 's', 'q', 'l'], ['s', 'q', 'l', 's', 'e', 'r', 'v', 'e', 'r'],
    ['s', 'n', 'o', 'w', 'f', 'l', 'a', 'k', 'e']]

/-- No column is ever put into `valueCols`. -/
def Query.validate (query : Query) : Except ConfigError Unit :=
  let valueCols : List Str := []
  if query.metrics.isEmpty && query.datapointExpressions.isEmpty then .error .emptyQuery
  else match query.metrics.find? fun met => met.valueColumn ∈ valueCols with
    | some met => .error (.repeated met.valueColumn)
    | none => .ok ()

def Config.validate (c : Config) : Except ConfigError Unit :=
  if c.dbDriver ∉ drivers then .error (.driver c.dbDriver)
  else if c.queries.isEmpty then .error .noQueries
  else c.queries.forM Query.validate

/-! ## Rows -/

inductive ScanType where
  | time
  /-- Of a type that converts to float64. -/
  | number
  | bool
  | string
  | other
deriving DecidableEq

structure ColumnType where
  name : Str
  scanType : ScanType

/-- What a column is scanned into. -/
inductive Dest where
  | time
  | float
  | bool
  | string
  | any
deriving DecidableEq

variable {V F T P : Type}

structure Row (V : Type) where
  /-- The errors of `ColumnTypes` and `Columns`, if the rows have been closed. -/
  columnTypesErr : Bool
  columnsErr : Bool
  values : List V

/-- What the database answers. A row has a value for each column. -/
structure ResultSet (V : Type) where
  columns : List ColumnType
  rows : List (Row V)
  fits : ∀ row ∈ rows, row.values.length = columns.length

def ResultSet.columnNames (rs : ResultSet V) : List Str := rs.columns.map ColumnType.name

/-- The destination with what was scanned into it. `none` is a null. -/
inductive Scanned (V F T : Type) where
  | time (v : Option T)
  | float (v : Option F)
  | bool (v : Option Bool)
  | string (v : Option Str)
  | any (v : V)

/-- The conversions of `Scan`, which may fail, and the bytes that an `interface{}` can hold. -/
structure Driver (V F T : Type) where
  time : V → Option (Option T)
  float : V → Option (Option F)
  bool : V → Option (Option Bool)
  string : V → Option (Option Str)
  bytes : V → Option Str

def scanOne (driver : Driver V F T) : Dest → V → Option (Scanned V F T)
  | .time, v => (driver.time v).map .time
  | .float, v => (driver.float v).map .float
  | .bool, v => (driver.bool v).map .bool
  | .string, v => (driver.string v).map .string
  | .any, v => some (.any v)

/-- `Scan`, which fails for another number of destinations. -/
def scan (driver : Driver V F T) (slice : List Dest) (values : List V) : Option (List (Scanned V F T)) :=
  if slice.length = values.length then (slice.zip values).mapM fun e => scanOne driver e.1 e.2 else none

/-! ## Datapoints and dimensions -/

structure Datapoint (F : Type) where
  metric : Str
  dimensions : List (Str × Str)
  value : Option F
  isCumulative : Bool

structure Dimension where
  name : Str
  value : Str
  properties : List (Str × Str)

/-- The names without their values. -/
def Dimension.clone (dim : Dimension) : Dimension :=
  { dim with value := [], properties := dim.properties.map fun p => (p.1, []) }

def Metric.newDatapoint (m : Metric) : Datapoint F := ⟨m.metricName, [], none, m.isCumulative⟩

/-- `TruncateDimensionValue`, where a character of the value stands for a byte. -/
def truncateDimensionValue (value : Str) : Str := value.take 256

inductive ExprValue (F T : Type) where
  | null
  | time (v : T)
  | float (v : F)
  | bool (v : Bool)
  | string (v : Str)

/-- Only a datapoint is sent. -/
inductive ExprResult (F : Type) where
  | error
  | null
  | datapoint (dp : Datapoint F)
  | other

/-- The expression language. A panic of an expression is an error of `vm.Run`. -/
structure Exprs (P F T : Type) where
  compile : Str → Option P
  run : P → List (Str × ExprValue F T) → ExprResult F

/-! ## The querier -/

/-- A metric is given by its index in the query. -/
structure Querier (P : Type) where
  query : Query
  valueColumnNamesToMetrics : List (Str × Nat)
  dimensionColumnSets : List (List Str)
  dimensions : List (List Dimension)
  compiledExprs : List P
  rowSliceCached : Option (List Dest)

/-- Why a row ends the loop. -/
inductive RowError where
  | closed
  | scan
  | dimensionColumn (dimCol : Str)
  | propertyColumn (propCol : Str)

inductive Panic where
  | valueColumnNotMapped
  | indexOutOfRange
deriving DecidableEq

section
variable (letters : Letters)

def Metric.columnSet (m : Metric) : List Str := m.dimensionColumns.map (toLower letters)

/-- A dimension for each dimension column with properties. -/
def Metric.newDimensions (m : Metric) : List Dimension :=
  (m.dimensionPropertyColumns.filter fun e => toLower letters e.1 ∈ m.columnSet letters).map fun e =>
    ⟨toLower letters e.1, [], putAll (e.2.map fun p => (toLower letters p, [])) []⟩

def newQuerier (exprs : Exprs P F T) (query : Query) : Option (Querier P) :=
  (query.datapointExpressions.mapM exprs.compile).map fun compiledExprs =>
    { query
      valueColumnNamesToMetrics :=
        putAll (query.metrics.zipIdx.map fun e => (toLower letters e.1.valueColumn, e.2)) []
      dimensionColumnSets := query.metrics.map (Metric.columnSet letters)
      dimensions := query.metrics.map (Metric.newDimensions letters)
      compiledExprs
      rowSliceCached := none }

/-! ### The row slice -/

/-- What a column is to the metrics. -/
structure Found where
  isValue : Bool
  dimCols : List Str
  propCols : List Str

/-- A metric with the column as its value or as a dimension ends the search. -/
def findColumn (name : Str) : List Metric → Found
  | [] => ⟨false, [], []⟩
  | m :: metrics =>
    if equalFold letters name m.valueColumn then ⟨true, [], []⟩
    else
      let propCols := (m.dimensionPropertyColumns.flatMap Prod.snd).filter (equalFold letters name)
      match m.dimensionColumns.find? (equalFold letters name) with
      | some colName => ⟨false, [colName], propCols⟩
      | none =>
        let rest := findColumn name metrics
        ⟨rest.isValue, rest.dimCols, propCols ++ rest.propCols⟩

/-- The error names the first column that was not seen. -/
def Metric.missing (dimColsSeen propColsSeen : List Str) (m : Metric) : Except RowError Unit :=
  match m.dimensionColumns.find? (· ∉ dimColsSeen) with
  | some dimCol => .error (.dimensionColumn dimCol)
  | none => match (m.dimensionPropertyColumns.flatMap Prod.snd).find? (· ∉ propColsSeen) with
    | some propCol => .error (.propertyColumn propCol)
    | none => .ok ()

/-- `validateStructuredMetrics`, which is also the end of `getRowSliceForStructured`. -/
def validateStructuredMetrics (query : Query) (cts : List ColumnType) : Except RowError Unit :=
  let found := cts.map fun ct => findColumn letters ct.name query.metrics
  query.metrics.forM (Metric.missing (found.flatMap Found.dimCols) (found.flatMap Found.propCols))

/-- A value is a float, everything else a text. -/
def structuredDest (query : Query) (ct : ColumnType) : Dest :=
  if (findColumn letters ct.name query.metrics).isValue then .float else .string

/-- The type that the database reports. -/
def expressionDest (ct : ColumnType) : Dest :=
  match ct.scanType with
  | .time => .time
  | .number => .float
  | .bool => .bool
  | .string => .string
  | .other => .any

/-- The metrics are validated even where the types come from the database. -/
def newRowSlice (query : Query) (cts : List ColumnType) : Except RowError (List Dest) :=
  (validateStructuredMetrics letters query cts).map fun _ =>
    if query.datapointExpressions.isEmpty then cts.map (structuredDest letters query) else cts.map expressionDest

end

def index {α : Type} (l : List α) (i : Nat) : Outcome Empty Panic α :=
  match l[i]? with
  | some a => .ok a
  | none => .error (.panic .indexOutOfRange)

/-! ### Expressions -/

def scannedToValue (driver : Driver V F T) : Scanned V F T → ExprValue F T
  | .time v => v.elim .null .time
  | .float v => v.elim .null .float
  | .bool v => v.elim .null .bool
  | .string v => v.elim .null .string
  | .any v => (driver.bytes v).elim .null .string

/-- The row under the names of its columns. -/
def newExprEnv (driver : Driver V F T) (row : List (Scanned V F T)) (columnNames : List Str) :
    Outcome Empty Panic (List (Str × ExprValue F T)) :=
  columnNames.zipIdx.foldlM (fun out e => (index (row.map (scannedToValue driver)) e.2).map fun v => put e.1 v out) []

namespace Querier

section
variable (driver : Driver V F T) (exprs : Exprs P F T) (letters : Letters) (q : Querier P)

def convertCurrentRowExpressions (row : List (Scanned V F T)) (columnNames : List Str) :
    Outcome Empty Panic (List (Datapoint F)) :=
  (q.compiledExprs.mapM fun compiled => (newExprEnv driver row columnNames).map fun env =>
    match exprs.run compiled env with
    | .datapoint dp => [dp]
    | _ => []).map List.flatten

/-! ### Metrics -/

/-- A column may give a dimension its value and its properties. -/
def setDimension (columnName dimVal : Str) (dim : Dimension) : Dimension :=
  { name := if equalFold letters dim.name columnName then columnName else dim.name
    value := if equalFold letters dim.name columnName then dimVal else dim.value
    properties := dim.properties.map fun p =>
      if equalFold letters columnName p.1 then (p.1, truncateDimensionValue dimVal) else p }

/-- What a text does to the metric `j`. -/
def setDimensions (columnName dimVal : Str) (s : List (Datapoint F) × List (List Dimension)) (j : Nat) :
    Outcome Empty Panic (List (Datapoint F) × List (List Dimension)) := do
  let dims ← index s.2 j
  let columnSet ← index q.dimensionColumnSets j
  let dimensions := s.2.set j (dims.map (setDimension letters columnName dimVal))
  if toLower letters columnName ∈ columnSet then
    let dp ← index s.1 j
    return (s.1.set j { dp with dimensions := put columnName dimVal dp.dimensions }, dimensions)
  else return (s.1, dimensions)

/-- The loop over the row from column `i` on. There are no datapoints if a value is null. -/
def convertColumns (columnNames : List Str) : Nat → List (Scanned V F T) → List (Datapoint F) × List (List Dimension) →
    Outcome Empty Panic (List (List Dimension) × Option (List (Datapoint F)))
  | _, [], s => .ok (s.2, some s.1)
  | _, .float none :: _, s => .ok (s.2, none)
  | i, .float (some x) :: row, s => do
    let columnName ← index columnNames i
    match find (toLower letters columnName) q.valueColumnNamesToMetrics with
    | none => .error (.panic .valueColumnNotMapped)
    | some metric => do
      let dp ← index s.1 metric
      convertColumns columnNames (i + 1) row (s.1.set metric { dp with value := some x }, s.2)
  | i, .string v :: row, s => do
    let columnName ← index columnNames i
    let s ← (List.range q.query.metrics.length).foldlM (q.setDimensions letters columnName (v.getD [])) s
    convertColumns columnNames (i + 1) row s
  | i, _ :: row, s => convertColumns columnNames (i + 1) row s

/-- A metric without a value is left out. -/
def convertCurrentRowStructured (row : List (Scanned V F T)) (columnNames : List Str) :
    Outcome Empty Panic (List (List Dimension) × Option (List (Datapoint F))) :=
  (q.convertColumns letters columnNames 0 row
    (q.query.metrics.map Metric.newDatapoint, q.dimensions.map (List.map Dimension.clone))).map fun r =>
      (r.1, r.2.map (List.filter fun dp => dp.value.isSome))

/-! ### Rows -/

/-- A cached slice is not compared with the types of the row. -/
def getRowSlice (columnTypes : Except RowError (List ColumnType)) : Except RowError (List Dest) :=
  match q.rowSliceCached with
  | some rowSlice => .ok rowSlice
  | none => columnTypes >>= newRowSlice letters q.query

structure Converted (P F : Type) where
  q : Querier P
  dps : List (Datapoint F)
  dims : List (List Dimension)

/-- The dimensions are kept for the next row, but not sent if a value is null. -/
def convertMetrics (row : List (Scanned V F T)) (columnNames : List Str) : Outcome Empty Panic (Converted P F) :=
  if q.query.metrics.isEmpty then .ok ⟨q, [], []⟩
  else (q.convertCurrentRowStructured letters row columnNames).map fun r =>
    ⟨{ q with dimensions := r.1 }, r.2.getD [], r.2.elim [] fun _ => r.1⟩

def convertScanned (row : List (Scanned V F T)) (columnNames : List Str) : Outcome Empty Panic (Converted P F) := do
  let c ← q.convertMetrics letters row columnNames
  if q.query.datapointExpressions.isEmpty then return c
  let exprDPs ← q.convertCurrentRowExpressions driver exprs row columnNames
  return { c with dps := c.dps ++ exprDPs }

def convertCurrentRowToDatapointAndDimensions (rs : ResultSet V) (row : Row V) :
    Outcome Empty Panic (Querier P × Except RowError (List (Datapoint F) × List (List Dimension))) :=
  match q.getRowSlice letters (if row.columnTypesErr then .error .closed else .ok rs.columns) with
  | .error e => .ok (q, .error e)
  | .ok rowSlice =>
    let q := { q with rowSliceCached := some rowSlice }
    if row.columnsErr then .ok (q, .error .closed)
    else match scan driver rowSlice row.values with
      | none => .ok (q, .error .scan)
      | some scanned =>
        (q.convertScanned driver exprs letters scanned rs.columnNames).map fun c => (c.q, .ok (c.dps, c.dims))

/-- The loop of `doQuery`, with what it sends to the output for each row. -/
def convertRows (rs : ResultSet V) :
    List (Row V) → Querier P → Outcome Empty Panic (Querier P × List (List (Datapoint F) × List (List Dimension)))
  | [], q => .ok (q, [])
  | row :: rows, q => do
    let r ← q.convertCurrentRowToDatapointAndDimensions driver exprs letters rs row
    match r.2 with
    | .error _ => return (r.1, [])
    | .ok sent => (convertRows rs rows r.1).map fun r' => (r'.1, sent :: r'.2)

def doQuery (rs : ResultSet V) :
    Outcome Empty Panic (Querier P × List (List (Datapoint F) × List (List Dimension))) :=
  convertRows driver exprs letters rs rs.rows q

/-- The querier after a query for each result. -/
def runs (results : List (ResultSet V)) : Outcome Empty Panic (Querier P) :=
  results.foldlM (fun q rs => (q.doQuery driver exprs letters rs).map Prod.fst) q

end

end Querier

end Collector.SQL
