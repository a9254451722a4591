import Collector.SQL.Querier

/-!
# Rows that crash the SQL monitor

Every float destination is taken for the value of a metric. Columns are compared up to their case when the destinations
are made, and in lower case when the metric is looked up.
-/

namespace Collector.SQL

open Lib Outcome List

variable {V F T P : Type} {driver : Driver V F T} {exprs : Exprs P F T} {letters : Letters}
variable {row : List (Scanned V F T)} {slice : List Dest} {rows : List (Row V)}

def Mapped (letters : Letters) (query : Query) (columnName : Str) : Prop :=
  ∃ m ∈ query.metrics, toLower letters m.valueColumn = toLower letters columnName

def Stray (letters : Letters) (query : Query) (e : Str × Scanned V F T) : Prop :=
  (∃ x, e.2 = .float (some x)) ∧ ¬ Mapped letters query e.1

def Passes (letters : Letters) (query : Query) (e : Str × Scanned V F T) : Prop :=
  e.2 ≠ .float none ∧ ¬ Stray letters query e

def Crashes (letters : Letters) (query : Query) (columnNames : List Str) (row : List (Scanned V F T)) : Prop :=
  query.metrics ≠ [] ∧ Hits (Passes letters query) (Stray letters query) (columnNames.zip row)

theorem index_of_lt {α : Type} {l : List α} {i : Nat} (h : i < l.length) : index l i = .ok l[i] := by
  rw [index, getElem?_eq_getElem h]

/-! ## The querier -/

structure Querier.Sized (q : Querier P) (letters : Letters) (query : Query) : Prop where
  same : q.query = query
  columnSets : q.dimensionColumnSets.length = query.metrics.length
  dimensions : q.dimensions.length = query.metrics.length
  metrics : ∀ columnName metric, find columnName q.valueColumnNamesToMetrics = some metric →
    metric < query.metrics.length
  mapped : ∀ columnName, find (toLower letters columnName) q.valueColumnNamesToMetrics ≠ none ↔
    Mapped letters query columnName

theorem sized_newQuerier {query : Query} {q : Querier P} (h : newQuerier letters exprs query = some q) :
    q.Sized letters query := by
  unfold newQuerier at h
  rw [Option.map_eq_some_iff] at h
  obtain ⟨compiledExprs, -, rfl⟩ := h
  refine ⟨rfl, by simp, by simp, ?_, ?_⟩
  · intro columnName metric hf
    have hmem := mem_putAll (find_mem _ _ _ hf)
    simp only [mem_map, not_mem_nil, or_false, Prod.mk.injEq] at hmem
    obtain ⟨⟨m, i⟩, hm, -, rfl⟩ := hmem
    exact (mem_zipIdx' hm).1
  · intro columnName
    have hk : keys (query.metrics.zipIdx.map fun e => (toLower letters e.1.valueColumn, e.2)) =
        query.metrics.map fun m => toLower letters m.valueColumn := by
      rw [Lib.keys, map_map, ← zipIdx_map_fst 0 query.metrics, map_map]
      simp [Function.comp_def]
    rw [ne_eq, find_none, not_not, mem_keys_putAll, hk, Mapped, mem_map]
    simp [Lib.keys]

/-- The datapoints and the dimensions of the loop have an element for every metric. -/
def Fits (query : Query) (s : List (Datapoint F) × List (List Dimension)) : Prop :=
  s.1.length = query.metrics.length ∧ s.2.length = query.metrics.length

namespace Querier

variable {q : Querier P} {query : Query} {columnNames : List Str} (hq : q.Sized letters query)
include hq

variable {s : List (Datapoint F) × List (List Dimension)}

theorem setDimensions_ok {columnName dimVal : Str} {j : Nat}
    (hs : Fits query s) (hj : j < query.metrics.length) :
    ∃ s', q.setDimensions letters columnName dimVal s j = .ok s' ∧ Fits query s' := by
  unfold setDimensions
  rw [index_of_lt (hs.2 ▸ hj), index_of_lt (hq.columnSets ▸ hj), index_of_lt (hs.1 ▸ hj)]
  simp only [bind, Except.bind, pure, Except.pure]
  split
  · exact ⟨_, rfl, by simp [Fits, hs.1, hs.2]⟩
  · exact ⟨_, rfl, by simp [Fits, hs.1, hs.2]⟩

theorem foldlM_setDimensions_ok (columnName dimVal : Str)
    (hs : Fits query s) :
    ∃ s', (List.range q.query.metrics.length).foldlM (q.setDimensions letters columnName dimVal) s = .ok s' ∧
      Fits query s' := by
  refine foldlM_ok_inv (P := fun j => j < query.metrics.length) (fun _ s => Fits query s) ?_ hs ?_
  · exact fun j _ s hs hj => setDimensions_ok hq hs hj
  · simp [hq.same]

theorem ends_convertColumns {i : Nat}
    (hi : i + row.length = columnNames.length) (hs : Fits query s) :
    Ends (q.convertColumns letters columnNames i row s)
      (Hits (Passes letters query) (Stray letters query) ((columnNames.drop i).zip row))
      (fun r => r.1.length = query.metrics.length) := by
  induction row generalizing i s with
  | nil =>
    rw [convertColumns, zip_nil_right]
    exact .of_ok id hs.2
  | cons v row ih =>
    rw [length_cons] at hi
    have hlt : i < columnNames.length := by omega
    rw [drop_eq_getElem_cons hlt, zip_cons_cons]
    have hn {s} (hs : Fits query s) := ih (i := i + 1) (s := s) (by omega) hs
    cases v with
    | float v =>
      cases v with
      | none =>
        rw [convertColumns]
        exact .of_ok (by simp [Hits, Stray, Passes]) hs.2
      | some x =>
        have hm := hq.mapped columnNames[i]
        rw [convertColumns, index_of_lt hlt, ok_bind]
        cases hf : find (toLower letters columnNames[i]) q.valueColumnNamesToMetrics with
        | none =>
          have hst : ¬ Mapped letters query columnNames[i] := by simp [← hm, hf]
          exact ⟨fun _ => not_safe_panic _, fun h => absurd (.inl ⟨⟨x, rfl⟩, hst⟩) h⟩
        | some metric =>
          have hme := hq.metrics _ _ hf
          have hp : Mapped letters query columnNames[i] := by simp [← hm, hf]
          simp only [index_of_lt (hs.1 ▸ hme), ok_bind]
          refine (hn (by simp [Fits, hs.1, hs.2])).congr ?_
          simp [Hits, Stray, Passes, hp]
    | string v =>
      obtain ⟨s', hs', hfi⟩ := foldlM_setDimensions_ok hq columnNames[i] (v.getD []) hs
      rw [convertColumns, index_of_lt hlt, ok_bind, hs', ok_bind]
      refine (hn hfi).congr ?_
      simp [Hits, Stray, Passes]
    | time v | bool v | any v =>
      rw [convertColumns]
      · refine (hn hs).congr ?_
        simp [Hits, Stray, Passes]
      all_goals simp

theorem Sized.with_dimensions {dims : List (List Dimension)} (hd : dims.length = query.metrics.length) :
    ({ q with dimensions := dims } : Querier P).Sized letters query :=
  ⟨hq.same, hq.columnSets, hd, hq.metrics, hq.mapped⟩

variable (hrow : row.length = columnNames.length)
include hrow

theorem ends_convertCurrentRowStructured : Ends (q.convertCurrentRowStructured letters row columnNames)
      (Hits (Passes letters query) (Stray letters query) (columnNames.zip row))
      (fun r => r.1.length = query.metrics.length) := by
  have hs : Fits (F := F) query
      (query.metrics.map Metric.newDatapoint, q.dimensions.map (List.map Dimension.clone)) := by
    simp [Fits, hq.dimensions]
  unfold convertCurrentRowStructured
  rw [hq.same]
  exact (ends_convertColumns hq (by omega) hs).map fun r hr => hr

theorem ends_convertMetrics : Ends (q.convertMetrics letters row columnNames) (Crashes letters query columnNames row)
      (fun c => c.q.Sized letters query ∧ c.q.rowSliceCached = q.rowSliceCached) := by
  obtain rfl := hq.same
  unfold convertMetrics Crashes
  cases he : q.query.metrics.isEmpty with
  | true => exact .of_ok (by simp [isEmpty_iff.mp he]) ⟨hq, rfl⟩
  | false =>
    have hne : q.query.metrics ≠ [] := by simpa using he
    refine ((ends_convertCurrentRowStructured hq hrow).map fun r hr => ?_).congr (and_iff_right hne)
    exact ⟨hq.with_dimensions hr, rfl⟩

omit hq

omit hrow in
theorem convertCurrentRowExpressions_ok (driver : Driver V F T) (exprs : Exprs P F T) (q : Querier P)
    (hrow : row.length = columnNames.length) :
    ∃ dps, q.convertCurrentRowExpressions driver exprs row columnNames = .ok dps := by
  have henv : ∃ env, newExprEnv driver row columnNames = .ok env := by
    refine foldlM_ok (P := fun e => e.2 < row.length) (fun _ _ => True) ?_ trivial ?_
    · intro e _ out _ he
      rw [index_of_lt (by simpa using he)]
      exact ⟨_, rfl, trivial⟩
    · intro e he
      rw [hrow]
      exact (mem_zipIdx' he).1
  obtain ⟨env, henv⟩ := henv
  unfold convertCurrentRowExpressions
  rw [henv]
  exact ⟨_, map_eq_ok.mpr ⟨_, mapM_pure, rfl⟩⟩

include hq

theorem ends_convertScanned :
    Ends (q.convertScanned driver exprs letters row columnNames) (Crashes letters query columnNames row)
      (fun c => c.q.Sized letters query ∧ c.q.rowSliceCached = q.rowSliceCached) := by
  obtain ⟨dps, hdps⟩ := convertCurrentRowExpressions_ok driver exprs q hrow
  refine ((ends_convertMetrics hq hrow).bind fun c hc => ?_).congr (or_iff_left id).symm
  rw [hdps]
  split
  · exact .of_ok id hc
  · exact .of_ok id hc

end Querier

/-! ## Result sets -/

def Row.Scans (driver : Driver V F T) (slice : List Dest) (row : Row V) : Prop :=
  row.columnsErr = false ∧ scan driver slice row.values ≠ none

def Row.Crashes (driver : Driver V F T) (letters : Letters) (query : Query) (columnNames : List Str)
    (slice : List Dest) (row : Row V) : Prop :=
  row.columnsErr = false ∧
    ∃ scanned, scan driver slice row.values = some scanned ∧ SQL.Crashes letters query columnNames scanned

def sliceAfter (letters : Letters) (query : Query) (cached : Option (List Dest)) (rs : ResultSet V) :
    Option (List Dest) :=
  match cached, rs.rows with
  | some slice, _ => some slice
  | none, [] => none
  | none, row :: _ => if row.columnTypesErr then none else (newRowSlice letters query rs.columns).toOption

def ResultSet.Crashes (driver : Driver V F T) (letters : Letters) (query : Query) (rs : ResultSet V)
    (slice : List Dest) : Prop :=
  Hits (Row.Scans driver slice) (Row.Crashes driver letters query rs.columnNames slice) rs.rows

theorem length_of_scan {values : List V} {scanned : List (Scanned V F T)}
    (h : scan driver slice values = some scanned) : scanned.length = values.length := by
  have hmm (l : List (Dest × V)) (scanned) (h : (l.mapM fun e => scanOne driver e.1 e.2) = some scanned) :
      scanned.length = l.length := by
    induction l generalizing scanned with
    | nil =>
      cases h
      rfl
    | cons e l ih =>
      simp only [mapM_cons, Option.bind_eq_bind, Option.bind_eq_some_iff] at h
      obtain ⟨v, -, rest, hr, hs⟩ := h
      cases hs
      rw [length_cons, length_cons, ih rest hr]
  rw [scan, Option.ite_none_right_eq_some] at h
  rw [hmm _ _ h.2, length_zip, h.1, min_self]

namespace Querier

variable {q : Querier P} {query : Query} {rs : ResultSet V} (hq : q.Sized letters query)
include hq

theorem Sized.with_slice (slice : List Dest) :
    ({ q with rowSliceCached := some slice } : Querier P).Sized letters query :=
  ⟨hq.same, hq.columnSets, hq.dimensions, hq.metrics, hq.mapped⟩

variable {row : Row V}

theorem ends_convertCurrentRow (hs : q.rowSliceCached = some slice)
    (hrow : row.values.length = rs.columns.length) :
    Ends (q.convertCurrentRowToDatapointAndDimensions driver exprs letters rs row)
      (row.Crashes driver letters query rs.columnNames slice)
      (fun r => r.1.Sized letters query ∧ r.1.rowSliceCached = some slice ∧
        ((∃ sent, r.2 = .ok sent) ↔ row.Scans driver slice)) := by
  unfold convertCurrentRowToDatapointAndDimensions Row.Crashes Row.Scans
  rw [getRowSlice, hs]
  simp only
  have hq' := hq.with_slice slice
  cases hco : row.columnsErr with
  | true => exact .of_ok (by simp) ⟨hq', rfl, by simp⟩
  | false =>
    simp only [Bool.false_eq_true, if_false, true_and]
    cases hsc : scan driver slice row.values with
    | none => exact .of_ok (by simp) ⟨hq', rfl, by simp⟩
    | some scanned =>
      have hl : scanned.length = rs.columnNames.length := by
        rw [length_of_scan hsc, hrow, ResultSet.columnNames, length_map]
      refine ((ends_convertScanned hq' hl).map fun c hc => ?_).congr (by simp)
      exact ⟨hc.1, hc.2, by simp⟩

theorem ends_convertRows (hs : q.rowSliceCached = some slice)
    (hro : ∀ row ∈ rows, row.values.length = rs.columns.length) :
    Ends (convertRows driver exprs letters rs rows q)
      (Hits (Row.Scans driver slice) (Row.Crashes driver letters query rs.columnNames slice) rows)
      (fun r => r.1.Sized letters query ∧ r.1.rowSliceCached = some slice) := by
  induction rows generalizing q with
  | nil => exact .of_ok id ⟨hq, hs⟩
  | cons row rows ih =>
    rw [forall_mem_cons] at hro
    rw [convertRows, Hits]
    refine (ends_convertCurrentRow hq hs hro.1).bind fun r hr => ?_
    obtain ⟨hr, hc, hsc⟩ := hr
    cases hse : r.2 with
    | error e =>
      have hnot : ¬ row.Scans driver slice := by simp [← hsc, hse]
      exact .of_ok (fun h => hnot h.1) ⟨hr, hc⟩
    | ok sent =>
      have hsca : row.Scans driver slice := by simp [← hsc, hse]
      exact ((ih hr hc hro.2).map fun r hr => hr).congr (and_iff_right hsca)

omit hq in
theorem convertRows_cons_of_slice
    (hs : q.getRowSlice letters (if row.columnTypesErr then .error .closed else .ok rs.columns) = .ok slice) :
    convertRows driver exprs letters rs (row :: rows) q =
      convertRows driver exprs letters rs (row :: rows) { q with rowSliceCached := some slice } := by
  have hrow : q.convertCurrentRowToDatapointAndDimensions driver exprs letters rs row =
      ({ q with rowSliceCached := some slice } : Querier P).convertCurrentRowToDatapointAndDimensions driver exprs
        letters rs row := by
    unfold convertCurrentRowToDatapointAndDimensions
    rw [hs, getRowSlice]
  rw [convertRows, convertRows, hrow]

omit hq in
theorem convertRows_cons_of_error {e : RowError}
    (he : q.getRowSlice letters (if row.columnTypesErr then .error .closed else .ok rs.columns) = .error e) :
    convertRows driver exprs letters rs (row :: rows) q = .ok (q, []) := by
  rw [convertRows, convertCurrentRowToDatapointAndDimensions, he]
  rfl

theorem sliceAfter_cons (hn : q.rowSliceCached = none) (hr : rs.rows = row :: rows) :
    sliceAfter letters query q.rowSliceCached rs =
      (q.getRowSlice letters (if row.columnTypesErr then .error .closed else .ok rs.columns)).toOption := by
  simp only [sliceAfter, getRowSlice, hn, hr, hq.same]
  cases row.columnTypesErr <;> rfl

theorem ends_doQuery : Ends (q.doQuery driver exprs letters rs)
    (∃ slice, sliceAfter letters query q.rowSliceCached rs = some slice ∧ rs.Crashes driver letters query slice)
    (fun r => r.1.Sized letters query ∧ r.1.rowSliceCached = sliceAfter letters query q.rowSliceCached rs) := by
  unfold doQuery
  cases hc : q.rowSliceCached with
  | some slice =>
    simp only [sliceAfter, Option.some.injEq, exists_eq_left']
    exact ends_convertRows hq hc rs.fits
  | none =>
    rw [← hc]
    cases hr : rs.rows with
    | nil =>
      have hn : sliceAfter letters query q.rowSliceCached rs = none := by simp only [sliceAfter, hc, hr]
      rw [hn]
      exact .of_ok (by simp) ⟨hq, hc⟩
    | cons row rows =>
      rw [sliceAfter_cons hq hc hr]
      cases hs : q.getRowSlice letters (if row.columnTypesErr then .error .closed else .ok rs.columns) with
      | error e =>
        rw [convertRows_cons_of_error hs]
        exact .of_ok (by simp [Except.toOption]) ⟨hq, hc⟩
      | ok slice =>
        simp only [Except.toOption, Option.some.injEq, exists_eq_left']
        rw [convertRows_cons_of_slice hs, ResultSet.Crashes, hr]
        exact ends_convertRows (hq.with_slice slice) rfl (hr ▸ rs.fits)

end Querier

/-! ## Runs -/

def CrashesFrom (driver : Driver V F T) (letters : Letters) (query : Query) :
    Option (List Dest) → List (ResultSet V) → Prop
  | _, [] => False
  | cached, rs :: results =>
    (∃ slice, sliceAfter letters query cached rs = some slice ∧ rs.Crashes driver letters query slice) ∨
      CrashesFrom driver letters query (sliceAfter letters query cached rs) results

theorem crashesFrom_iff {query : Query} {cached : Option (List Dest)} {results : List (ResultSet V)} :
    CrashesFrom driver letters query cached results ↔ ∃ front rs rest slice, results = front ++ rs :: rest ∧
      (front ++ [rs]).foldl (sliceAfter letters query) cached = some slice ∧ rs.Crashes driver letters query slice := by
  induction results generalizing cached with
  | nil => simp [CrashesFrom]
  | cons rs results ih =>
    rw [CrashesFrom, ih]
    constructor
    · rintro (⟨slice, hs, hc⟩ | ⟨front, rs', rest, slice, rfl, hs, hc⟩)
      · exact ⟨[], rs, results, slice, rfl, hs, hc⟩
      · exact ⟨rs :: front, rs', rest, slice, rfl, hs, hc⟩
    · rintro ⟨front, rs', rest, slice, hr, hs, hc⟩
      cases front with
      | nil =>
        cases hr
        exact .inl ⟨slice, hs, hc⟩
      | cons rs front =>
        cases hr
        exact .inr ⟨front, rs', rest, slice, rfl, hs, hc⟩

theorem Querier.ends_runs {q : Querier P} {query : Query} (hq : q.Sized letters query) (results : List (ResultSet V)) :
    Ends (q.runs driver exprs letters results) (CrashesFrom driver letters query q.rowSliceCached results)
      (fun q' => q'.Sized letters query) := by
  induction results generalizing q with
  | nil => exact .of_ok id hq
  | cons rs results ih =>
    have hqu : Ends ((q.doQuery driver exprs letters rs).map Prod.fst)
        (∃ slice, sliceAfter letters query q.rowSliceCached rs = some slice ∧ rs.Crashes driver letters query slice)
        (fun q' => q'.Sized letters query ∧ q'.rowSliceCached = sliceAfter letters query q.rowSliceCached rs) :=
      (ends_doQuery hq).map fun r hr => hr
    rw [runs, foldlM_cons]
    refine hqu.bind fun q' hq' => ?_
    rw [← hq'.2]
    exact ih hq'.1

/-- A querier does not panic in any sequence of runs just if no row that is scanned has a value without a metric
before its first null value, by the slice that was made for the first row of all. -/
theorem safe_runs_iff (driver : Driver V F T) (exprs : Exprs P F T) (letters : Letters) (results : List (ResultSet V)) :
    ∀ c : Config, c.validate = .ok () → ∀ query ∈ c.queries, ∀ q, newQuerier letters exprs query = some q →
      (Safe (q.runs driver exprs letters results) ↔ ∀ front rs rest slice, results = front ++ rs :: rest →
        (front ++ [rs]).foldl (sliceAfter letters query) none = some slice →
          ¬ rs.Crashes driver letters query slice) := by
  intro c _ query _ q hq
  have hc : q.rowSliceCached = none := by
    unfold newQuerier at hq
    rw [Option.map_eq_some_iff] at hq
    obtain ⟨-, -, rfl⟩ := hq
    rfl
  rw [(Querier.ends_runs (sized_newQuerier hq) results).safe_iff, hc, crashesFrom_iff]
  push Not
  rfl

/-! A query with a metric and an expression, and a row of two columns. -/

def numbers : Driver Nat Nat Unit :=
  ⟨fun _ => none, fun n => some (some n), fun _ => none, fun _ => some (some []), fun _ => none⟩

def ascii : Letters := ⟨Char.toLower, Char.toLower⟩

def noDatapoints : Exprs Unit Nat Unit := ⟨fun _ => some (), fun _ _ => .null⟩

def countQuery : Query := ⟨[⟨['m'], ['c', 'o', 'u', 'n', 't'], [], false, []⟩], [['x']]⟩

def countConfig : Config := ⟨['m', 'y', 's', 'q', 'l'], [countQuery]⟩

def countQuerier : Querier Unit := ⟨countQuery, [(['c', 'o', 'u', 'n', 't'], 0)], [[]], [[]], [()], none⟩

def countAndOther (scanType : ScanType) : ResultSet Nat where
  columns := [⟨['C', 'O', 'U', 'N', 'T'], .number⟩, ⟨['o', 't', 'h', 'e', 'r'], scanType⟩]
  rows := [⟨false, false, [1, 2]⟩]
  fits := by simp

theorem not_crashes_stringColumn : ¬ (countAndOther .string).Crashes numbers ascii countQuery [.float, .string] := by
  have hm : Mapped ascii countQuery ['C', 'O', 'U', 'N', 'T'] := ⟨_, mem_singleton_self _, by decide⟩
  have hs : scan numbers [.float, .string] [1, 2] = some [.float (some 1), .string (some [])] := rfl
  simp [ResultSet.Crashes, countAndOther, ResultSet.columnNames, Hits, Row.Crashes, hs, Crashes, Stray, hm]

theorem safe_runs_stringColumn :
    countConfig.validate = .ok () ∧ newQuerier ascii noDatapoints countQuery = some countQuerier ∧
    Safe (countQuerier.runs numbers noDatapoints ascii [countAndOther .string]) := by
  refine ⟨by decide +kernel, rfl, ?_⟩
  refine (safe_runs_iff numbers noDatapoints ascii [countAndOther .string] countConfig (by decide +kernel) countQuery
    (by simp [countConfig]) countQuerier rfl).mpr ?_
  intro front rs rest slice hr hs
  cases front with
  | nil =>
    cases hr
    cases hs
    exact not_crashes_stringColumn
  | cons => simp at hr

theorem not_safe_runs_numberColumn :
    countConfig.validate = .ok () ∧ newQuerier ascii noDatapoints countQuery = some countQuerier ∧
    ¬ Safe (countQuerier.runs numbers noDatapoints ascii [countAndOther .number]) := by
  refine ⟨by decide +kernel, rfl, ?_⟩
  rw [safe_iff_not_panics]
  decide +kernel

/-! ## Missing columns -/

def Metric.propertyColumns (m : Metric) : List Str := m.dimensionPropertyColumns.flatMap Prod.snd

def Query.dimensionColumns (query : Query) : List Str := query.metrics.flatMap Metric.dimensionColumns

def Query.columns (query : Query) : List Str :=
  query.dimensionColumns ++ query.metrics.flatMap Metric.propertyColumns

def Query.ValuesApart (letters : Letters) (query : Query) : Prop :=
  ∀ m ∈ query.metrics, ∀ c ∈ query.columns, equalFold letters c m.valueColumn = false

def Returned (letters : Letters) (cts : List ColumnType) (c : Str) : Prop :=
  ∃ ct ∈ cts, equalFold letters ct.name c = true

/-- A metric with the property column is reached before one with a dimension column of this name. -/
def PropertyShown (letters : Letters) (c : Str) : List Metric → Prop
  | [] => False
  | m :: metrics =>
    c ∈ m.propertyColumns ∨ (∀ d ∈ m.dimensionColumns, equalFold letters c d = false) ∧ PropertyShown letters c metrics

structure Query.Shown (letters : Letters) (query : Query) : Prop where
  dimensions : ∀ c ∈ query.dimensionColumns, query.dimensionColumns.find? (equalFold letters c) = some c
  properties : ∀ c ∈ query.metrics.flatMap Metric.propertyColumns, PropertyShown letters c query.metrics

def Query.Accurate (letters : Letters) (query : Query) : Prop :=
  ∀ cts, (validateStructuredMetrics letters query cts = .ok () ↔ ∀ c ∈ query.columns, Returned letters cts c) ∧
    ((∃ slice, newRowSlice letters query cts = .ok slice) ↔ ∀ c ∈ query.columns, Returned letters cts c)

section
variable {name c : Str} {metrics : List Metric} {query : Query} {cts : List ColumnType}

theorem equalFold_congr (h : equalFold letters name c = true) : equalFold letters name = equalFold letters c := by
  funext d
  simp only [equalFold, decide_eq_true_eq] at h ⊢
  rw [h]

section

variable (hv : ∀ m ∈ metrics, equalFold letters c m.valueColumn = false)
include hv

theorem mem_dimCols : c ∈ (findColumn letters name metrics).dimCols ↔
      equalFold letters name c = true ∧
        (metrics.flatMap Metric.dimensionColumns).find? (equalFold letters c) = some c := by
  induction metrics with
  | nil => simp [findColumn]
  | cons m metrics ih =>
    rw [forall_mem_cons] at hv
    rw [findColumn, flatMap_cons, find?_append]
    by_cases hc : equalFold letters name c = true
    · have hcc : equalFold letters c c = true := by simp [equalFold]
      rw [equalFold_congr hc, hv.1]
      cases hd : m.dimensionColumns.find? (equalFold letters c) with
      | none => simp [ih hv.2, hc, hcc]
      | some d => simp [hcc, eq_comm]
    · cases hd : m.dimensionColumns.find? (equalFold letters name) with
      | none =>
        split
        · simp [hc]
        · simp [ih hv.2, hc]
      | some d =>
        have hne : c ≠ d := by
          rintro rfl
          exact hc (find?_some hd)
        split <;> simp [hc, hne]

theorem mem_propCols : c ∈ (findColumn letters name metrics).propCols ↔
      equalFold letters name c = true ∧ PropertyShown letters c metrics := by
  induction metrics with
  | nil => simp [findColumn, PropertyShown]
  | cons m metrics ih =>
    rw [forall_mem_cons] at hv
    rw [findColumn, PropertyShown, ← Metric.propertyColumns]
    by_cases hc : equalFold letters name c = true
    · have hcc : equalFold letters c c = true := by simp [equalFold]
      rw [equalFold_congr hc, hv.1]
      cases hd : m.dimensionColumns.find? (equalFold letters c) with
      | none =>
        rw [find?_eq_none] at hd
        simp_all
      | some d =>
        have hno : ¬ ∀ d ∈ m.dimensionColumns, equalFold letters c d = false := by
          intro hall
          simpa [find?_some hd] using hall d (mem_of_find?_eq_some hd)
        simp [hcc, hno]
    · cases hd : m.dimensionColumns.find? (equalFold letters name) <;> split <;> simp_all

end

theorem missing_ok_iff {dims props : List Str} {m : Metric} : m.missing dims props = .ok () ↔
    (∀ c ∈ m.dimensionColumns, c ∈ dims) ∧ ∀ c ∈ m.propertyColumns, c ∈ props := by
  rw [Metric.missing, ← Metric.propertyColumns]
  cases hd : m.dimensionColumns.find? (· ∉ dims) <;> cases hp : m.propertyColumns.find? (· ∉ props) <;>
    grind [find?_eq_none, find?_eq_some_iff_append]

theorem forM_missing (dims props : List Str) : metrics.forM (Metric.missing dims props) = .ok () ↔
    (∀ c ∈ metrics.flatMap Metric.dimensionColumns, c ∈ dims) ∧
      ∀ c ∈ metrics.flatMap Metric.propertyColumns, c ∈ props := by
  induction metrics with
  | nil => simp [pure, Except.pure]
  | cons m metrics ih =>
    rw [forM_eq_forM] at ih ⊢
    rw [forM_cons, flatMap_cons, flatMap_cons, forall_mem_append, forall_mem_append, and_and_and_comm, ← missing_ok_iff,
      ← ih]
    cases m.missing dims props <;> simp [bind, Except.bind]

theorem validateStructuredMetrics_ok_iff (hv : query.ValuesApart letters) :
    validateStructuredMetrics letters query cts = .ok () ↔
      (∀ c ∈ query.columns, Returned letters cts c) ∧ query.Shown letters := by
  have hd (c) (hc : c ∈ query.dimensionColumns) :
      c ∈ (cts.map fun ct => findColumn letters ct.name query.metrics).flatMap Found.dimCols ↔
        Returned letters cts c ∧ query.dimensionColumns.find? (equalFold letters c) = some c := by
    simp only [mem_flatMap, mem_map, exists_exists_and_eq_and, mem_dimCols fun m hm => hv m hm c (mem_append_left _ hc),
      ← and_assoc, exists_and_right, Returned, Query.dimensionColumns]
  have hp (c) (hc : c ∈ query.metrics.flatMap Metric.propertyColumns) :
      c ∈ (cts.map fun ct => findColumn letters ct.name query.metrics).flatMap Found.propCols ↔
        Returned letters cts c ∧ PropertyShown letters c query.metrics := by
    simp only [mem_flatMap, mem_map, exists_exists_and_eq_and,
      mem_propCols fun m hm => hv m hm c (mem_append_right _ hc), ← and_assoc, exists_and_right, Returned]
  rw [validateStructuredMetrics, forM_missing, Query.columns, forall_mem_append]
  constructor
  · rintro ⟨hdims, hprops⟩
    exact ⟨⟨fun c hc => ((hd c hc).mp (hdims c hc)).1, fun c hc => ((hp c hc).mp (hprops c hc)).1⟩,
      fun c hc => ((hd c hc).mp (hdims c hc)).2, fun c hc => ((hp c hc).mp (hprops c hc)).2⟩
  · rintro ⟨⟨hdims, hprops⟩, hs⟩
    exact ⟨fun c hc => (hd c hc).mpr ⟨hdims c hc, hs.dimensions c hc⟩,
      fun c hc => (hp c hc).mpr ⟨hprops c hc, hs.properties c hc⟩⟩

/-- Where no value column is also another column, the errors are accurate just if the first dimension column of a name
has the spelling of all others, and no property column is hidden by a dimension column of an earlier metric. -/
theorem accurate_iff_shown (letters : Letters) (query : Query) (hvalues : query.ValuesApart letters) :
    query.Accurate letters ↔ query.Shown letters := by
  have hslice (cts) : (∃ slice, newRowSlice letters query cts = .ok slice) ↔
      validateStructuredMetrics letters query cts = .ok () := by
    rw [newRowSlice]
    cases validateStructuredMetrics letters query cts <;> simp [Except.map]
  constructor
  · intro h
    -- every column is returned
    refine ((validateStructuredMetrics_ok_iff hvalues).mp ((h (query.columns.map (⟨·, .other⟩))).1.mpr ?_)).2
    intro c hc
    exact ⟨_, mem_map_of_mem hc, by simp [equalFold]⟩
  · intro h cts
    rw [hslice, validateStructuredMetrics_ok_iff hvalues]
    exact ⟨and_iff_left h, and_iff_left h⟩

end

def hostMetric (dimensionColumn : Str) : Metric := ⟨['m'], ['v'], [dimensionColumn], false, [(['p'], [['q']])]⟩

theorem accurate_sameSpelling : Query.Accurate ascii ⟨[hostMetric ['a'], hostMetric ['a']], []⟩ :=
  (accurate_iff_shown ascii _ (by unfold Query.ValuesApart; decide)).mpr
    ⟨by decide, by simp [hostMetric, Metric.propertyColumns, PropertyShown]⟩

theorem validateStructuredMetrics_otherSpelling :
    validateStructuredMetrics ascii ⟨[hostMetric ['a'], hostMetric ['A']], []⟩
      [⟨['v'], .number⟩, ⟨['a'], .string⟩, ⟨['A'], .string⟩, ⟨['q'], .string⟩] =
    .error (.dimensionColumn ['A']) := rfl

end Collector.SQL
