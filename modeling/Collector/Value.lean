import Collector.Lib.Assoc
import Collector.Lib.MapTree

/-!
# Configuration values

What a Go `any` holds in a configuration. A Go string is the list of its runes, or of its bytes where the code looks at
bytes only.
-/

namespace Collector

open Lib List

abbrev Str := List Char

instance : LawfulBEq Str := inferInstance

instance : Coe String Str := ⟨String.toList⟩

inductive Value where
  | null
  | bool (b : Bool)
  | int (i : Int)
  | float (text : Str)
  | str (s : Str)
  | bytes (s : Str)
  | list (vs : List Value)
  /-- A `map[string]any`. -/
  | map (m : List (Str × Value))
  /-- A `map[any]any`. -/
  | imap (m : List (Value × Value))

abbrev Fields := List (Str × Value)

variable (m : Fields)

/-! ## Induction through lists and maps -/

section
variable {P : Value → Prop} (null : P .null) (bool : ∀ b, P (.bool b)) (int : ∀ i, P (.int i))
  (float : ∀ text, P (.float text)) (str : ∀ s, P (.str s)) (bytes : ∀ s, P (.bytes s))
  (list : ∀ vs, (∀ v ∈ vs, P v) → P (.list vs))
  (map : ∀ m : Fields, (∀ e ∈ m, P e.2) → P (.map m))
  (imap : ∀ m : List (Value × Value), (∀ e ∈ m, P e.2) → P (.imap m))
include null bool int float str bytes list map imap
set_option linter.unusedSectionVars false

mutual
theorem Value.induct : (v : Value) → P v
  | .null => null
  | .bool b => bool b
  | .int i => int i
  | .float text => float text
  | .str s => str s
  | .bytes s => bytes s
  | .list vs => list vs (Value.induct_elems vs)
  | .map m => map m (Value.induct_fields m)
  | .imap m => imap m (Value.induct_entries m)

theorem Value.induct_elems : (vs : List Value) → ∀ v ∈ vs, P v
  | [], _, h => nomatch h
  | v :: vs, w, h => (mem_cons.mp h).elim (fun he => he ▸ Value.induct v) (Value.induct_elems vs w)

theorem Value.induct_fields : (m : Fields) → ∀ e ∈ m, P e.2
  | [], _, h => nomatch h
  | (_, v) :: m, e, h => (mem_cons.mp h).elim (fun he => he ▸ Value.induct v) (Value.induct_fields m e)

theorem Value.induct_entries : (m : List (Value × Value)) → ∀ e ∈ m, P e.2
  | [], _, h => nomatch h
  | (_, v) :: m, e, h => (mem_cons.mp h).elim (fun he => he ▸ Value.induct v) (Value.induct_entries m e)
end
end

/-!
## A value as a tree of maps

`tree` forgets the order of the entries.
-/

mutual
def Value.tree : Value → MapTree Str Value
  | .map m => .node (fieldsTree m)
  | v => .leaf v

def fieldsTree : Fields → Str → MapTree Str Value
  | [], _ => .absent
  | (k', v) :: m, k => if k' = k then v.tree else fieldsTree m k
end

@[simp] theorem tree_map : (Value.map m).tree = .node (fieldsTree m) := by
  rw [Value.tree]

theorem fieldsTree_eq (k : Str) : fieldsTree m k = match find k m with
      | none => .absent
      | some v => v.tree := by
  induction m with
  | nil => rw [fieldsTree]; rfl
  | cons e m ih =>
    obtain ⟨k', v⟩ := e
    rw [fieldsTree, find]
    split
    · rfl
    · exact ih

/-!
## What a value is, whatever the order of its maps

`deep` looks into lists too.
-/

inductive Step where
  | field (k : Str)
  | elem (i : Nat)
  /-- Leads to the type of a value that has parts. -/
  | kind
  deriving DecidableEq

inductive Atom where
  | null
  | bool (b : Bool)
  | int (i : Int)
  | float (text : Str)
  | str (s : Str)
  | bytes (s : Str)
  | list (length : Nat)
  | map
  | imap

mutual
def Value.deep : Value → MapTree Step Atom
  | .null => .leaf .null
  | .bool b => .leaf (.bool b)
  | .int i => .leaf (.int i)
  | .float text => .leaf (.float text)
  | .str s => .leaf (.str s)
  | .bytes s => .leaf (.bytes s)
  | .list vs => .node fun step => match step with
    | .kind => .leaf (.list vs.length)
    | .elem i => deepElems vs i
    | .field _ => .absent
  | .map m => .node fun step => match step with
    | .kind => .leaf .map
    | .elem _ => .absent
    | .field k => deepFields m k
  | .imap m => .node fun step => match step with
    | .kind => .leaf .imap
    | .elem _ => .absent
    | .field k => deepEntries m k

def deepElems : List Value → Nat → MapTree Step Atom
  | [], _ => .absent
  | v :: _, 0 => v.deep
  | _ :: vs, i + 1 => deepElems vs i

def deepFields : Fields → Str → MapTree Step Atom
  | [], _ => .absent
  | (k', v) :: m, k => if k' = k then v.deep else deepFields m k

def deepEntries : List (Value × Value) → Str → MapTree Step Atom
  | [], _ => .absent
  | (.str k', v) :: m, k => if k' = k then v.deep else deepEntries m k
  | _ :: m, k => deepEntries m k
end

theorem deep_list_iff (vs ws : List Value) :
    (Value.list vs).deep = (Value.list ws).deep ↔ vs.map Value.deep = ws.map Value.deep := by
  have he (vs : List Value) (i : Nat) : deepElems vs i = (vs.map Value.deep)[i]?.getD .absent := by
    induction vs generalizing i with
    | nil => rw [deepElems]; rfl
    | cons v vs ih => cases i <;> simp [deepElems, ih]
  rw [Value.deep, Value.deep, MapTree.node.injEq]
  constructor
  · intro h
    have hlen : vs.length = ws.length := by simpa using congrFun h .kind
    refine ext_getElem (by simpa using hlen) fun i hi hi' => ?_
    have hel : deepElems vs i = deepElems ws i := congrFun h (.elem i)
    rwa [he, he, getElem?_eq_getElem hi, getElem?_eq_getElem hi'] at hel
  · intro h
    have hlen : vs.length = ws.length := by simpa using congrArg length h
    funext step
    cases step <;> simp [he, h, hlen]

theorem deep_map_iff (m' : Fields) : (Value.map m).deep = (Value.map m').deep ↔
    ∀ k, (find k m).elim .absent Value.deep = (find k m').elim .absent Value.deep := by
  have hf (m : Fields) (k : Str) : deepFields m k = (find k m).elim .absent Value.deep := by
    induction m with
    | nil => rw [deepFields]; rfl
    | cons e m ih =>
      obtain ⟨k', v⟩ := e
      rw [deepFields, find, ih]
      split <;> rfl
  simp only [← hf]
  rw [Value.deep, Value.deep, MapTree.node.injEq]
  constructor
  · exact fun h k => congrFun h (.field k)
  · intro h
    funext step
    cases step with
    | field k => exact h k
    | _ => rfl

theorem deep_imap_ne_map (m : List (Value × Value)) (m' : Fields) : (Value.imap m).deep ≠ (Value.map m').deep := by
  rw [Value.deep, Value.deep]
  intro h
  have := congrFun (MapTree.node.inj h) .kind
  simp at this

end Collector
