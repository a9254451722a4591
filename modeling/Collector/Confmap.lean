import Collector.Lib.Delimited
import Collector.Value

/-!
# `confmap.Conf`

The parts of koanf and `confmap` that are used. A `Conf` is its tree of string-keyed maps, `Fields`.
-/

namespace Collector.Confmap

open Lib

/-- `fmt.Sprintf("%v", v)`. A string prints as itself. -/
def sprintV (sprint : Value → Str) : Value → Str
  | .str s => s
  | v => sprint v

/-! ## Flat keys -/

def joinKey (path : List Str) : Str := joinDouble ':' path

def splitKey (key : Str) : List Str := splitDouble ':' key

mutual
/-- The leaf paths of a value, each with its leaf. An empty map is a leaf. -/
def flattenValue : Value → List (List Str × Value)
  | .map m => if m.isEmpty then [([], .map [])] else flattenFields m
  | v => [([], v)]

def flattenFields : Fields → List (List Str × Value)
  | [] => []
  | (k, v) :: m => (flattenValue v).map (fun e => (k :: e.1, e.2)) ++ flattenFields m
end

def flatten (conf : Fields) : Fields :=
  (flattenFields conf).foldl (fun out e => put (joinKey e.1) e.2 out) []

def allKeys (conf : Fields) : List Str := keys (flatten conf)

def get (conf : Fields) (key : Str) : Value := (find key (flatten conf)).getD .null

/-- One key of `maps.Unflatten`. A path that runs into a leaf goes on in the map around it. -/
def insertPath : List Str → Value → Fields → Fields
  | [], _, m => m
  | [k], v, m => put k v m
  | k :: k' :: ks, v, m =>
    match find k m with
    | none => put k (.map (insertPath (k' :: ks) v [])) m
    | some (.map sub) => put k (.map (insertPath (k' :: ks) v sub)) m
    | some _ => insertPath (k' :: ks) v m

theorem insertPath_skip (k k' : Str) (ks : List Str) (v w : Value) (m : Fields)
    (hf : find k m = some w) (hw : ∀ sub, w ≠ .map sub) :
    insertPath (k :: k' :: ks) v m = insertPath (k' :: ks) v m := by
  rw [insertPath, hf]
  split
  · rename_i h; simp at h
  · rename_i sub h; exact absurd (by simpa using h) (hw sub)
  · rfl

def unflatten (flat : Fields) : Fields :=
  flat.foldl (fun out e => insertPath (splitKey e.1) e.2 out) []

def newFromStringMap (data : Fields) : Fields := unflatten data

def toStringMap (conf : Fields) : Fields := unflatten (flatten conf)

/-! ## Merges -/

mutual
def mergeInto : Fields → Fields → Fields
  | [], dst => dst
  | (k, v) :: src, dst => mergeInto src (put k (mergeValue v (find k dst)) dst)

def mergeValue : Value → Option Value → Value
  | .map src, some (.map dst) => .map (mergeInto src dst)
  | v, _ => v
end

/-- `MergeMaps`: the new content of `dst`. A `::` in a key ends up as a step of the path. -/
def mergeMaps (dst src : Fields) : Fields :=
  (toStringMap (mergeInto (newFromStringMap src) (newFromStringMap dst))).foldl (fun dst e => put e.1 e.2 dst) dst

/-!
## `maps.IntfaceKeysToStrings`

It converts the values of a map and the elements of a list, but not those of a list in a list.
-/

section
variable (sprint : Value → Str)

mutual
def intfaceKeysToStrings : Fields → Fields
  | [] => []
  | (k, v) :: m => (k, intfaceValue v) :: intfaceKeysToStrings m

def intfaceValue : Value → Value
  | .imap m => .map (intfaceEntries m [])
  | .list vs => .list (intfaceElems vs)
  | .map m => .map (intfaceKeysToStrings m)
  | v => v

def intfaceElems : List Value → List Value
  | [] => []
  | v :: vs => intfaceElem v :: intfaceElems vs

def intfaceElem : Value → Value
  | .imap m => .map (intfaceEntries m [])
  | .map m => .map (intfaceKeysToStrings m)
  | v => v

def intfaceEntries : List (Value × Value) → Fields → Fields
  | [], x => x
  | (k, v) :: m, x => intfaceEntries m (put (sprintV sprint k) (intfaceValue v) x)
end

theorem intfaceKeysToStrings_eq (m : Fields) :
    intfaceKeysToStrings sprint m = m.map fun e => (e.1, intfaceValue sprint e.2) := by
  induction m with
  | nil => rw [intfaceKeysToStrings, List.map_nil]
  | cons e m ih => rw [intfaceKeysToStrings, ih, List.map_cons]

theorem intfaceElems_eq (vs : List Value) : intfaceElems sprint vs = vs.map (intfaceElem sprint) := by
  induction vs with
  | nil => rw [intfaceElems, List.map_nil]
  | cons v vs ih => rw [intfaceElems, ih, List.map_cons]

end

end Collector.Confmap
