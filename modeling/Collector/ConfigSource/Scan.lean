import Collector.Lib.Template
import Collector.Strings

/-!
# The text after a `$`

The scanners of `internal/configsource/source.go`.
-/

namespace Collector.ConfigSource

open Lib Strings

def isShellSpecialVar (c : Char) : Bool :=
  c ∈ ['*', '#', '$', '@', '!', '?', '-', '0', '1', '2', '3', '4', '5', '6', '7', '8', '9']

def isAlphaNum (c : Char) : Bool :=
  c = '_' || ('0' ≤ c && c ≤ '9') || ('a' ≤ c && c ≤ 'z') || ('A' ≤ c && c ≤ 'Z')

/-- The text between the brackets, from the opening one on, and the number of characters consumed. -/
def scanToClosingBracket (s : Str) : Str × Nat :=
  match cut '}' (s.drop 1) with
  | none => ([], 1)
  | some ([], _) => ([], 2)
  | some (name, _) => (name, name.length + 2)

def scanTokenName : Str → Nat → Option Nat → Nat × Option Nat
  | [], i, firstNameSepIdx => (i, firstNameSepIdx)
  | c :: s, i, firstNameSepIdx =>
    if isAlphaNum c then scanTokenName s (i + 1) firstNameSepIdx
    else if c = '/' ∧ firstNameSepIdx = none then scanTokenName s (i + 1) (some i)
    else (i, firstNameSepIdx)

def getTokenName (s : Str) : Str × Nat :=
  if s.head?.any isShellSpecialVar then (s.take 1, 1)
  else
    match scanTokenName s 0 none with
    | (i, some k) => if s[i]? ≠ some ':' then (s.take k, k) else (s.take i, i)
    | (i, none) => (s.take i, i)

/-- What the text after a `$` asks for. -/
structure Expandable where
  content : Str
  consumed : Nat
  cfgSrcName : Str

def getBracketedExpandableContent (s : Str) : Expandable :=
  let (content, consumed) := scanToClosingBracket s
  let content := trim content
  match cut ':' content with
  | some (name, _) =>
    if content.length > 1 then ⟨content, consumed, name⟩ else ⟨content, consumed, []⟩
  | none => ⟨content, consumed, []⟩

def getBareExpandableContent (s : Str) : Expandable :=
  let (name, consumed) := getTokenName s
  if s[consumed]? = some ':' then ⟨s, s.length, name⟩ else ⟨name, consumed, []⟩

/-- The first `switch` of the loop of `resolveStringValue`. `s` is the text after the `$`. -/
def expandableAt (ddBackwardCompatible : Bool) (s : Str) : Expandable :=
  match s with
  | '$' :: t =>
    -- The compatibility switch reads `$$name:selector` as `$name:selector`.
    let e := if t.head? = some '{' then getBracketedExpandableContent t
      else getBareExpandableContent t
    let required := ddBackwardCompatible && s.length > 2 && e.cfgSrcName ≠ [] &&
      (t.head? = some '{' || '$' ∉ e.content.drop (e.cfgSrcName.length + 1) &&
        e.content.length > e.cfgSrcName.length + 1)
    if required then ⟨e.content, e.consumed + 1, e.cfgSrcName⟩ else ⟨['$'], 1, []⟩
  | '{' :: _ => getBracketedExpandableContent s
  | _ => getBareExpandableContent s

def dollarTails (ddBackwardCompatible : Bool) (s : Str) : List Str :=
  markedTails '$' (fun t => (expandableAt ddBackwardCompatible t).consumed) 0 s

def NoConfigSource (ddBackwardCompatible : Bool) (s : Str) : Prop :=
  ∀ t ∈ dollarTails ddBackwardCompatible s, (expandableAt ddBackwardCompatible t).cfgSrcName = []

/-- `os.Getenv`. No variable has the empty name. -/
def getenv (env : Str → Str) (name : Str) : Str := if name = [] then [] else env name

def osExpandEnv (env : Str → Str) (name : Str) (w : Nat) : Str :=
  if name = [] ∧ w > 0 then []
  else if name = [] ∨ name = ['$'] then ['$']
  else getenv env name

/-! ## `os.Expand` -/

def getShellName (s : Str) : Str × Nat :=
  match s with
  | '{' :: c :: '}' :: _ => if isShellSpecialVar c then ([c], 3) else scanToClosingBracket s
  | '{' :: _ => scanToClosingBracket s
  | c :: _ =>
    if isShellSpecialVar c then ([c], 1)
    else (s.takeWhile isAlphaNum, (s.takeWhile isAlphaNum).length)
  | [] => ([], 0)

/-- The loop of `os.Expand`: `pending` is `s[i:j]`, `rest` is `s[j:]`, and `skip` characters belong to a reference. -/
def osExpandLoop (mapping : Str → Str) : Nat → Str → Option Str → Str → Str
  | _, pending, none, [] => pending
  | _, pending, some buf, [] => buf ++ pending
  | skip + 1, pending, buf, _ :: rest => osExpandLoop mapping skip pending buf rest
  | 0, pending, buf, c :: rest =>
    if c = '$' ∧ rest ≠ [] then
      let b := buf.getD [] ++ pending
      let (name, w) := getShellName rest
      if name = [] ∧ w > 0 then osExpandLoop mapping w [] (some b) rest
      else if name = [] then osExpandLoop mapping w [] (some (b ++ [c])) rest
      else osExpandLoop mapping w [] (some (b ++ mapping name)) rest
    else osExpandLoop mapping 0 (pending ++ [c]) buf rest

def osExpand (s : Str) (mapping : Str → Str) : Str := osExpandLoop mapping 0 [] none s

end Collector.ConfigSource
