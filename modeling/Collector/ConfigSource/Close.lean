import Collector.Component

/-!
# Close functions

A `confmap.CloseFunc` is the list of `Retrieved` values that a call of it closes, and the errors that it returns.
-/

namespace Collector.ConfigSource

variable {idss : List (List Nat)}

/-- The errors of `internal/configsource`, with what their text names. -/
inductive Err where
  /-- An error that an outside function returned. -/
  | external (text : Str)
  /-- The recursion of the model ran out of fuel. The code does not return it. -/
  | depth
  | unknownConfigSource (cfgSrcName : Str)
  | invalidSyntax (s : Str)
  | invalidParams (s : Str) (err : Err)
  | nilProvider (cfgSrcName : Str)
  | providerRetrieve (cfgSrcName : Str) (err : Err)
  | selector (cfgSrcName selector : Str) (err : Err)
  | selectorNotString (v : Value)
  | params (cfgSrcName cfgSrcInvocation : Str) (err : Err)
  | sourceRetrieve (cfgSrcName : Str) (err : Err)
  | subKind (key : Str) (v : Value)
  | invalidKey (key : Str) (err : IDErr)
  | unknownType (id : ComponentID)
  | unmarshalSettings (id : ComponentID) (err : Err)
  | duplicateName (fullName : Str)
  | unknownSourceType (fullName : Str)
  | createSource (fullName : Str) (err : Err)
  | nilSource (fullName : Str)
  | notConf (v : Value)
  /-- An error of a call, with the text that its caller puts before it. -/
  | wrapped (text : Str) (err : Err)

abbrev CloseErrs := Nat → Option Err

variable (errs : CloseErrs)

abbrev CloseFunc := CloseErrs → List Nat × List Err

variable {fs : List (Option CloseFunc)}

def retrievedClose (id : Nat) : CloseFunc := fun errs => ([id], (errs id).toList)

def callNext (errs : CloseErrs) (acc : List Nat × List Err) (f : Option CloseFunc) : List Nat × List Err :=
  match f with
  | none => acc
  | some f => (acc.1 ++ (f errs).1, acc.2 ++ (f errs).2)

def mergeCloseFuncs : List (Option CloseFunc) → Option CloseFunc
  | [] => none
  | [f] => f
  | fs => some fun errs => fs.foldl (callNext errs) ([], [])

/-! ## What a close function owns -/

/-- A call closes the values `ids`, each once and in this order, and returns the errors of all of them. A nil function
owns nothing. -/
def Owns (f : Option CloseFunc) (ids : List Nat) : Prop :=
  match f with
  | none => ids = []
  | some f => ∀ errs, f errs = (ids, ids.filterMap errs)

theorem owns_retrievedClose (id : Nat) : Owns (some (retrievedClose id)) [id] := by
  intro errs
  cases h : errs id <;> simp [retrievedClose, h]

theorem callNext_owns (acc : List Nat × List Err) {f : Option CloseFunc} {ids : List Nat} (h : Owns f ids) :
    callNext errs acc f = (acc.1 ++ ids, acc.2 ++ ids.filterMap errs) := by
  cases f with
  | none => rw [show ids = [] from h]; simp [callNext]
  | some f => simp [callNext, h errs]

theorem foldl_callNext (h : List.Forall₂ Owns fs idss) (acc : List Nat × List Err) :
    fs.foldl (callNext errs) acc = (acc.1 ++ idss.flatten, acc.2 ++ idss.flatten.filterMap errs) := by
  induction h generalizing acc with
  | nil => simp
  | cons hf _ ih =>
    rw [List.foldl_cons, callNext_owns errs acc hf, ih]
    simp

theorem owns_mergeCloseFuncs (h : List.Forall₂ Owns fs idss) : Owns (mergeCloseFuncs fs) idss.flatten := by
  match fs, idss, h with
  | [], [], _ => rfl
  | [f], [ids], .cons hf .nil => simpa [mergeCloseFuncs] using hf
  | f :: g :: fs, idss, h =>
    intro errs
    simpa using foldl_callNext errs h ([], [])

end Collector.ConfigSource
