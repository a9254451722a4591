import Collector.DiscoveryReceiver.CorrelationStore
import Collector.Lib.Regex

/-!
# The configuration of the discovery receiver

`Validate` does not look into the patterns of the matches.
-/

namespace Collector.DiscoveryReceiver

open Lib List

structure LogRecord where
  attributes : List (Str × Str)
  severityText : Str
  body : Str
  appendPattern : Bool

structure Match where
  record : Option LogRecord
  strict : Str
  regexp : Str
  expr : Str
  firstOnly : Bool

structure Status where
  metrics : List (Str × List Match)
  statements : List (Str × List Match)

structure ReceiverEntry where
  status : Option Status
  rule : Str

structure Config where
  receivers : List (ComponentID × ReceiverEntry)
  watchObservers : List ComponentID
  embedReceiverConfig : Bool

/-! ## Validation -/

def statusTypes : List Str :=
  [['s', 'u', 'c', 'c', 'e', 's', 's', 'f', 'u', 'l'], ['p', 'a', 'r', 't', 'i', 'a', 'l'],
    ['f', 'a', 'i', 'l', 'e', 'd']]

def receiverCreator : Str := ['r', 'e', 'c', 'e', 'i', 'v', 'e', 'r', '_', 'c', 'r', 'e', 'a', 't', 'o', 'r']

def receiverCreatorRegexp : Regex.Pattern Char := Regex.lit (receiverCreator ++ ['/'])

/-- The pattern for `endpoint=` and a target in braces, with a slash after it. -/
def endpointTargetRegexp : Regex.Pattern Char :=
  Regex.seq (Regex.lit ['\x7b', 'e', 'n', 'd', 'p', 'o', 'i', 'n', 't', '='])
    (Regex.seq (Regex.star (· ≠ '\x7d')) (Regex.lit ['\x7d', '/']))

inductive SourceType where
  | metrics
  | statements
deriving DecidableEq

inductive MatchType where
  | strict
  | regexp
  | expr
deriving DecidableEq

inductive StatusError where
  | undefined
  | empty
  | invalidStatus (status : Str)
  | matchTypes (source : SourceType) (status : Str) (received : List MatchType)
deriving DecidableEq

inductive ConfigError where
  | receiverCreator (name : Str)
  | receiverCreatorSeparator (name : Str)
  | endpointSeparator (name : Str)
  | status (name : Str) (e : StatusError)
  | watchObservers
deriving DecidableEq

def Match.types (m : Match) : List MatchType :=
  (if m.strict ≠ [] then [.strict] else []) ++ (if m.regexp ≠ [] then [.regexp] else []) ++
    if m.expr ≠ [] then [.expr] else []

def validateMatches (source : SourceType) (e : Str × List Match) : List StatusError :=
  if e.1 ∉ statusTypes then [.invalidStatus e.1]
  else e.2.flatMap fun m => if m.types.length ≠ 1 then [.matchTypes source e.1 m.types] else []

def Status.validate : Option Status → List StatusError
  | none => [.undefined]
  | some s =>
    if s.metrics.isEmpty && s.statements.isEmpty then [.empty]
    else s.metrics.flatMap (validateMatches .metrics) ++ s.statements.flatMap (validateMatches .statements)

def validateReceiver (e : ComponentID × ReceiverEntry) : List ConfigError :=
  let name := e.1.string
  if e.1.type = receiverCreator then [.receiverCreator name]
  else (if (Regex.search receiverCreatorRegexp name).isSome then [.receiverCreatorSeparator name] else []) ++
    (if (Regex.search endpointTargetRegexp name).isSome then [.endpointSeparator name] else []) ++
    (Status.validate e.2.status).map (.status name)

def Config.validate (cfg : Config) : List ConfigError :=
  cfg.receivers.flatMap validateReceiver ++ if cfg.watchObservers.isEmpty then [.watchObservers] else []

theorem Config.types_length {cfg : Config} (h : cfg.validate = []) {e : ComponentID × ReceiverEntry}
    (he : e ∈ cfg.receivers) {s : Status} (hs : e.2.status = some s) {status : Str} {ms : List Match}
    (hms : (status, ms) ∈ s.metrics ++ s.statements) {m : Match} (hm : m ∈ ms) : m.types.length = 1 := by
  have hr : validateReceiver e = [] := by
    rw [validate, append_eq_nil_iff, flatMap_eq_nil_iff] at h
    exact h.1 e he
  have hst : Status.validate (some s) = [] := by
    unfold validateReceiver at hr
    simp only at hr
    split at hr
    · cases hr
    · rw [append_eq_nil_iff, map_eq_nil_iff, hs] at hr
      exact hr.2
  have hma (source : SourceType) (h : validateMatches source (status, ms) = []) : m.types.length = 1 := by
    unfold validateMatches at h
    split at h
    · cases h
    · rw [flatMap_eq_nil_iff] at h
      by_contra hne
      simpa [hne] using h m hm
  rw [Status.validate] at hst
  split at hst
  · cases hst
  · rw [append_eq_nil_iff, flatMap_eq_nil_iff, flatMap_eq_nil_iff] at hst
    rcases mem_append.mp hms with hmem | hmem
    · exact hma .metrics (hst.1 _ hmem)
    · exact hma .statements (hst.2 _ hmem)

end Collector.DiscoveryReceiver
