import Collector.Confmap
import Collector.ConfigSource.Close
import Collector.ConfigSource.Scan

/-!
# Resolving config sources

`internal/configsource/source.go`. The functions pass the history of the outside calls along and return a value, a close
function and an error.
-/

namespace Collector.ConfigSource

open Lib Strings Confmap

/-- The environment, the compatibility switch, YAML, the `%v` format and `cast.ToString`. -/
structure Externals where
  env : Str → Str
  ddBackwardCompatible : Bool
  yamlUnmarshal : Str → Except Err Value
  yamlUnmarshalMap : Str → Except Err Fields
  sprint : Value → Str
  castToString : Value → Str

def plainExternals : Externals where
  env := fun _ => []
  ddBackwardCompatible := false
  yamlUnmarshal := fun s => .ok (.str s)
  yamlUnmarshalMap := fun _ => .ok []
  sprint := fun _ => []
  castToString := fun _ => []

/-! ## Invocations -/

def unhex (c : Char) : Option Nat :=
  if '0' ≤ c ∧ c ≤ '9' then some (c.toNat - '0'.toNat)
  else if 'a' ≤ c ∧ c ≤ 'f' then some (c.toNat - 'a'.toNat + 10)
  else if 'A' ≤ c ∧ c ≤ 'F' then some (c.toNat - 'A'.toNat + 10)
  else none

def queryUnescape : Str → Option Str
  | [] => some []
  | '%' :: a :: b :: s =>
    match unhex a, unhex b with
    | some x, some y => (queryUnescape s).map (Char.ofNat (16 * x + y) :: ·)
    | _, _ => none
  | '%' :: _ => none
  | '+' :: s => (queryUnescape s).map (' ' :: ·)
  | c :: s => (queryUnescape s).map (c :: ·)

def parseQueryPair (values : List (Str × List Str)) (pair : Str) : Option (List (Str × List Str)) :=
  if ';' ∈ pair then none
  else if pair = [] then some values
  else
    let (key, value) := (cut '=' pair).getD (pair, [])
    match queryUnescape key, queryUnescape value with
    | some key, some value => some (put key ((find key values).getD [] ++ [value]) values)
    | _, _ => none

def parseQuery (query : Str) : Except Err (List (Str × List Str)) :=
  match (query.splitOn '&').foldlM parseQueryPair [] with
  | some values => .ok values
  | none => .error (.external "invalid query")

def parseParamsAsURLQuery (ext : Externals) (s : Str) : Except Err Fields := do
  let values ← parseQuery s
  let params ← values.mapM fun (k, v) =>
    match v with
    | [] => .ok (k, Value.null)
    | [x] => do return (k, ← ext.yamlUnmarshal x)
    | xs => do return (k, .list (← xs.mapM ext.yamlUnmarshal))
  return newFromStringMap params

def parseCfgSrcInvocation (ext : Externals) (s : Str) : Except Err (Str × Str × Option Fields) :=
  match cut ':' s with
  | none => .error (.invalidSyntax s)
  | some (name, afterCfgSrcName) =>
    match cut '\n' afterCfgSrcName with
    | some (first, rest) =>
      if rest = [] then .ok (trim name, trim first, none)
      else
        match ext.yamlUnmarshalMap rest with
        | .error e => .error e
        | .ok data => .ok (trim name, trim first, some (newFromStringMap data))
    | none =>
      match cut '?' afterCfgSrcName with
      | none => .ok (trim name, trim afterCfgSrcName, none)
      | some (first, paramsPart) =>
        match parseParamsAsURLQuery ext paramsPart with
        | .error e => .error (.invalidParams s e)
        | .ok params => .ok (trim name, trim first, some params)

/-! ## Outside calls -/

inductive Request where
  | source (cfgSrcName selector : Str) (params : Option Fields)
  | provider (uri : Str)

inductive Event where
  | retrieved (id : Nat) (req : Request)
  | failed (req : Request)
  | closed (id : Nat)

abbrev History := List Event

/-- What `Retrieve` returns: an error, or a `Retrieved` by what its `AsRaw` gives. -/
abbrev Raw := Except Err (Except Err Value)

/-- A config source. Its answer may depend on all that happened before. -/
abbrev Source := History → Str → Option Fields → Raw

abbrev Provider := History → Str → Raw

/-- `configSources` and `confmapProviders`. A provider in the map may be nil. -/
structure Sources where
  configSources : Str → Option Source
  confmapProviders : Str → Option (Option Provider)

def noSources : Sources := ⟨fun _ => none, fun _ => none⟩

structure Res (α : Type) where
  value : α
  close : Option CloseFunc
  err : Option Err

def Res.fail {α : Type} (zero : α) (e : Err) : Res α := ⟨zero, none, some e⟩

def Res.into {α β : Type} (f : α → β) (zero : β) (r : Res α) : Res β :=
  match r.err with
  | some e => .fail zero e
  | none => ⟨f r.value, r.close, none⟩

/-- `if closeFunc != nil { closeFuncs = append(closeFuncs, closeFunc) }` -/
def appendClose (closeFuncs : List (Option CloseFunc)) (closeFunc : Option CloseFunc) : List (Option CloseFunc) :=
  if closeFunc.isSome then closeFuncs ++ [closeFunc] else closeFuncs

/-! ## Values -/

abbrev ResolveString := Str → History → Res Value × History

section
variable (resolveString : ResolveString)

mutual
def resolveConfigValue : Value → History → Res Value × History
  | .str s, h => resolveString s h
  | .list vs, h =>
    match resolveElems vs [] [] h with
    | (r, h) => (r.into .list .null, h)
  | .map m, h =>
    match resolveFields m [] [] h with
    | (r, h) => (r.into .imap .null, h)
  | v, h => (⟨v, none, none⟩, h)

def resolveElems : List Value → List Value → List (Option CloseFunc) → History → Res (List Value) × History
  | [], nslice, closeFuncs, h => (⟨nslice, mergeCloseFuncs closeFuncs, none⟩, h)
  | v :: vs, nslice, closeFuncs, h =>
    match resolveConfigValue v h with
    | (r, h) =>
      match r.err with
      | some e => (.fail [] e, h)
      | none => resolveElems vs (nslice ++ [r.value]) (appendClose closeFuncs r.close) h

def resolveFields : Fields → List (Value × Value) → List (Option CloseFunc) → History →
    Res (List (Value × Value)) × History
  | [], nmap, closeFuncs, h => (⟨nmap, mergeCloseFuncs closeFuncs, none⟩, h)
  | (k, v) :: m, nmap, closeFuncs, h =>
    match resolveConfigValue v h with
    | (r, h) =>
      match r.err with
      | some e => (.fail [] e, h)
      | none => resolveFields m (nmap ++ [(.str k, r.value)]) (appendClose closeFuncs r.close) h
end

def resolveKeys (conf : Fields) : List Str → Fields → List (Option CloseFunc) → History → Res Fields × History
  | [], resolved, closeFuncs, h => (⟨resolved, mergeCloseFuncs closeFuncs, none⟩, h)
  | k :: ks, resolved, closeFuncs, h =>
    match resolveConfigValue resolveString (get conf k) h with
    | (r, h) =>
      match r.err with
      | some e => (.fail [] e, h)
      | none => resolveKeys conf ks (put k r.value resolved) (appendClose closeFuncs r.close) h

def resolveConf (ext : Externals) (conf : Fields) (h : History) : Res Fields × History :=
  match resolveKeys resolveString conf (allKeys conf) [] [] h with
  | (r, h) => (r.into (fun m => newFromStringMap (intfaceKeysToStrings ext.sprint m)) [], h)

/-- The loop that a list, a map and a configuration have in common. -/
def resolveEach {ι γ : Type} (value : ι → Value) (add : List γ → ι → Value → List γ) :
    List ι → List γ → List (Option CloseFunc) → History → Res (List γ) × History
  | [], acc, closeFuncs, h => (⟨acc, mergeCloseFuncs closeFuncs, none⟩, h)
  | x :: xs, acc, closeFuncs, h =>
    match resolveConfigValue resolveString (value x) h with
    | (r, h) =>
      match r.err with
      | some e => (.fail [] e, h)
      | none => resolveEach value add xs (add acc x r.value) (appendClose closeFuncs r.close) h

theorem resolveElems_eq (vs : List Value) :
    resolveElems resolveString vs = resolveEach resolveString (fun v => v) (fun acc _ v => acc ++ [v]) vs := by
  funext nslice closeFuncs h
  induction vs generalizing nslice closeFuncs h with
  | nil => rw [resolveElems, resolveEach]
  | cons v vs ih => simp only [resolveElems, resolveEach, ih]

theorem resolveFields_eq (m : Fields) :
    resolveFields resolveString m = resolveEach resolveString (·.2) (fun acc e v => acc ++ [(.str e.1, v)]) m := by
  funext nmap closeFuncs h
  induction m generalizing nmap closeFuncs h with
  | nil => rw [resolveFields, resolveEach]
  | cons e m ih => simp only [resolveFields, resolveEach, ih]

theorem resolveKeys_eq (conf : Fields) (ks : List Str) :
    resolveKeys resolveString conf ks = resolveEach resolveString (get conf) (fun acc k v => put k v acc) ks := by
  funext resolved closeFuncs h
  induction ks generalizing resolved closeFuncs h with
  | nil => rfl
  | cons k ks ih => simp only [resolveKeys, resolveEach, ih]

end

/-! ## Retrieving -/

section
variable (ext : Externals) (srcs : Sources)

def retrieveFromProvider (provider : Option Provider) (cfgSrcName selector : Str) (h : History) :
    Res Value × History :=
  match provider with
  | none => (.fail .null (.nilProvider cfgSrcName), h)
  | some p =>
    let uri := cfgSrcName ++ ':' :: selector
    match p h uri with
    | .error e => (.fail .null (.providerRetrieve cfgSrcName e), h ++ [.failed (.provider uri)])
    | .ok raw =>
      let h' := h ++ [.retrieved h.length (.provider uri)]
      match raw with
      | .error e => (.fail .null e, h')
      | .ok v => (⟨v, some (retrievedClose h.length), none⟩, h')

def retrieveFromSource (source : Source) (cfgSrcName selector : Str) (params : Option Fields)
    (closeFuncs : List (Option CloseFunc)) (h : History) : Res Value × History :=
  let req := Request.source cfgSrcName selector params
  match source h selector params with
  | .error e => (.fail .null (.sourceRetrieve cfgSrcName e), h ++ [.failed req])
  | .ok raw =>
    let close := mergeCloseFuncs (closeFuncs ++ [some (retrievedClose h.length)])
    let h' := h ++ [.retrieved h.length req]
    match raw with
    | .error e => (⟨.null, close, some e⟩, h')
    | .ok v => (⟨v, close, none⟩, h')

def resolveParams (resolveString : ResolveString) (cfgSrcName cfgSrcInvocation : Str)
    (params : Option Fields) (h : History) : Res (Option Fields) × History :=
  match params with
  | none => (⟨none, none, none⟩, h)
  | some params =>
    match resolveConf resolveString ext params h with
    | (r, h) =>
      match r.err with
      | some e => (.fail none (.params cfgSrcName cfgSrcInvocation e), h)
      | none => (⟨some (newFromStringMap (toStringMap r.value)), r.close, none⟩, h)

def retrieveConfigSourceData (resolveString : ResolveString) (cfgSrcName cfgSrcInvocation : Str)
    (h : History) : Res Value × History :=
  match srcs.configSources cfgSrcName with
  | none =>
    match srcs.confmapProviders cfgSrcName with
    | none => (.fail .null (.unknownConfigSource cfgSrcName), h)
    | some provider =>
      match parseCfgSrcInvocation ext cfgSrcInvocation with
      | .error e => (.fail .null e, h)
      | .ok (name, selector, _) => retrieveFromProvider provider name selector h
  | some source =>
    match parseCfgSrcInvocation ext cfgSrcInvocation with
    | .error e => (.fail .null e, h)
    | .ok (name, selector, params) =>
      match resolveString selector h with
      | (sel, h) =>
        match sel.err with
        | some e => (.fail .null (.selector name selector e), h)
        | none =>
          match sel.value with
          | .str selector =>
            match resolveParams ext resolveString name cfgSrcInvocation params h with
            | (par, h) =>
              match par.err with
              | some e => (.fail .null e, h)
              | none =>
                retrieveFromSource source name selector par.value (appendClose (appendClose [] sel.close) par.close) h
          | v => (.fail .null (.selectorNotString v), h)

/-! ## Strings -/

/-- A value that is all of the string: YAML where it is text, and a string-keyed map. -/
def wholeValue (v : Value) : Value :=
  let retrieved := match v with
    | .bytes s => match ext.yamlUnmarshal s with
      | .ok w => w
      | .error _ => .bytes s
    | .str s => match ext.yamlUnmarshal s with
      | .ok w => w
      | .error _ => .str s
    | v => v
  match retrieved with
  | .imap m => .map (m.foldl (fun out e => put (ext.castToString e.1) e.2 out) [])
  | v => v

def spliced : Value → Str
  | .null => []
  | v => sprintV ext.sprint v

/-- The loop of `resolveStringValue`: `pending` is `s[i:j]`, `rest` is `s[j:]`, and `skip` characters are consumed. -/
def resolveStringLoop (retrieve : Str → Str → History → Res Value × History) :
    Nat → Str → Option Str → List (Option CloseFunc) → Str → History → Res Value × History
  | _, pending, none, closeFuncs, [], h => (⟨.str pending, mergeCloseFuncs closeFuncs, none⟩, h)
  | _, pending, some buf, closeFuncs, [], h =>
    (⟨.str (buf ++ pending), mergeCloseFuncs closeFuncs, none⟩, h)
  | skip + 1, pending, buf, closeFuncs, _ :: rest, h =>
    resolveStringLoop retrieve skip pending buf closeFuncs rest h
  | 0, pending, buf, closeFuncs, c :: rest, h =>
    if c = '$' ∧ rest ≠ [] then
      let b := buf.getD [] ++ pending
      let e := expandableAt ext.ddBackwardCompatible rest
      if e.cfgSrcName = [] then
        resolveStringLoop retrieve e.consumed []
          (some (b ++ osExpandEnv ext.env e.content e.consumed)) closeFuncs rest h
      else
        match retrieve e.cfgSrcName e.content h with
        | (r, h) =>
          match r.err with
          | some err => (.fail .null err, h)
          | none =>
            let closeFuncs := appendClose closeFuncs r.close
            if e.consumed = rest.length ∧ b = [] then
              (⟨wholeValue ext r.value, mergeCloseFuncs closeFuncs, none⟩, h)
            else
              resolveStringLoop retrieve e.consumed [] (some (b ++ spliced ext r.value)) closeFuncs rest h
    else resolveStringLoop retrieve 0 (pending ++ [c]) buf closeFuncs rest h

/-- `fuel` bounds how deep invocations are nested in invocations. -/
def resolveStringValue : Nat → ResolveString
  | 0, s, h => resolveStringLoop ext (fun _ _ h => (.fail .null .depth, h)) 0 [] none [] s h
  | fuel + 1, s, h =>
    resolveStringLoop ext (retrieveConfigSourceData ext srcs (resolveStringValue fuel)) 0 [] none [] s h

def resolveWithConfigSources (fuel : Nat) (conf : Fields) (h : History) : Res Fields × History :=
  resolveConf (resolveStringValue ext srcs fuel) ext conf h

end

end Collector.ConfigSource
