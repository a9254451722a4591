import Mathlib.Data.List.Lex

/-!
# JSON trees and how Go decodes them

An object is the list of its members in the order of the text. A Go map is kept in the order of its names, in which it
is also encoded.
-/

namespace Collector.Lib

inductive Json (N : Type) where
  | null
  | bool (b : Bool)
  | num (n : N)
  | str (s : List Char)
  | arr (js : List (Json N))
  | obj (es : List (List Char × Json N))

namespace Json

variable {N : Type}

section
variable {P : Json N → Prop} (null : P .null) (bool : ∀ b, P (.bool b)) (num : ∀ n, P (.num n)) (str : ∀ s, P (.str s))
  (arr : ∀ js, (∀ j ∈ js, P j) → P (.arr js)) (obj : ∀ es, (∀ e ∈ es, P e.2) → P (.obj es))
include null bool num str arr obj
set_option linter.unusedSectionVars false

mutual
theorem induct : (j : Json N) → P j
  | .null => null
  | .bool b => bool b
  | .num n => num n
  | .str s => str s
  | .arr js => arr js (induct_elems js)
  | .obj es => obj es (induct_members es)

theorem induct_elems : (js : List (Json N)) → ∀ j ∈ js, P j
  | [], _, h => nomatch h
  | j :: js, j', h => (List.mem_cons.mp h).elim (fun he => he ▸ induct j) (induct_elems js j')

theorem induct_members : (es : List (List Char × Json N)) → ∀ e ∈ es, P e.2
  | [], _, h => nomatch h
  | (_, j) :: es, e, h => (List.mem_cons.mp h).elim (fun he => he ▸ induct j) (induct_members es e)
end
end

def isObject : Json N → Bool
  | .obj _ => true
  | _ => false

/-! ## Decoding into an `interface{}` -/

/-- What Go makes of the text of a number: an int64, or a float64, given by its text. -/
structure Numbers (N : Type) where
  int64 : N → Option Int
  float64 : N → Option N

def assign (k : List Char) (v : Json N) : List (List Char × Json N) → List (List Char × Json N)
  | [] => [(k, v)]
  | (k', v') :: m =>
    if k = k' then (k, v) :: m else if k < k' then (k, v) :: (k', v') :: m else (k', v') :: assign k v m

variable (nums : Numbers N)

mutual
/-- The value, unless it has a number that is no float64. -/
def toInterface : Json N → Option (Json N)
  | .null => some .null
  | .bool b => some (.bool b)
  | .num n => (nums.float64 n).map .num
  | .str s => some (.str s)
  | .arr js => (elemsToInterface js).map .arr
  | .obj es => (membersToInterface es []).map .obj

def elemsToInterface : List (Json N) → Option (List (Json N))
  | [] => some []
  | j :: js => (toInterface j).bind fun v => (elemsToInterface js).map (v :: ·)

def membersToInterface : List (List Char × Json N) → List (List Char × Json N) → Option (List (List Char × Json N))
  | [], m => some m
  | (k, j) :: es, m => (toInterface j).bind fun v => membersToInterface es (assign k v m)
end

/-! ## Decoding into the fields of a struct -/

/-- Up to its case. U+017F is an s and U+212A a k. -/
def foldRune (c : Char) : Char :=
  if c.toNat = 0x17f then 'S' else if c.toNat = 0x212a then 'K' else c.toUpper

def fieldValues (name : List Char) (es : List (List Char × Json N)) : List (Json N) :=
  (es.filter fun e => e.1.map foldRune = name.map foldRune).map Prod.snd

/-- A value for a field of type `*int64`: `none` is an error. -/
def toInt64Pointer : Json N → Option (Option Int)
  | .null => some none
  | .num n => (nums.int64 n).map some
  | _ => none

/-- An error of one of the values is an error, whatever comes after it. -/
def int64Field (name : List Char) (es : List (List Char × Json N)) : Option (Option Int) :=
  ((fieldValues name es).mapM (toInt64Pointer nums)).map fun vs => vs.getLast?.join

/-- The value of a field of type `interface{}`, which is nil without one. -/
def lastField (name : List Char) (es : List (List Char × Json N)) : Json N :=
  (fieldValues name es).getLast?.getD .null

end Json

end Collector.Lib
