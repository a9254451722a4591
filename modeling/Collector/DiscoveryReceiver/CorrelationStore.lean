import Collector.Component
import Collector.Lib.Runs

/-!
# The correlation store

`internal/receiver/discoveryreceiver/correlation.go`. The calls run in threads of their own, and a step is one operation
on a lock or on a map.
-/

namespace Collector.DiscoveryReceiver

open Lib

def noType : ComponentID := ⟨"SENTINEL_FOR_DISCOVERY_RECEIVER___", []⟩

/-- The zero value of the Go type is `unset`. -/
inductive EndpointState where
  | unset
  | added
  | removed
  | changed
  deriving DecidableEq

structure Endpoint (Details : Type) where
  id : Str
  target : Str
  details : Option Details

structure Correlation (Details : Type) where
  lastState : EndpointState
  lastUpdated : Nat
  endpoint : Endpoint Details
  receiverID : ComponentID
  observerID : ComponentID

variable {Details : Type}

def newCorrelation : Correlation Details where
  lastState := .unset
  lastUpdated := 0
  endpoint := ⟨[], [], none⟩
  receiverID := noType
  observerID := noType

structure Update (Details : Type) where
  endpoint : Endpoint Details
  state : EndpointState
  observerID : ComponentID

structure Info (Details : Type) where
  endpoint : Endpoint Details
  observerID : ComponentID
  lastState : EndpointState

def Update.info (u : Update Details) : Info Details := ⟨u.endpoint, u.observerID, u.state⟩

def Correlation.info (c : Correlation Details) : Info Details := ⟨c.endpoint, c.observerID, c.lastState⟩

def Correlation.update (c : Correlation Details) (u : Update Details) (now : Nat) : Correlation Details :=
  { c with endpoint := u.endpoint, observerID := u.observerID, lastUpdated := now, lastState := u.state }

/-! ## Threads

Each position is named after the operation that comes next. A receiver map is known by its number. -/

inductive Pc (Details : Type) where
  | idle
  | panicked
  | updateLock (u : Update Details)
  | updateLoadOrStore (u : Update Details)
  | updateStore (u : Update Details) (receiverMap : Nat)
  | updateRange (u : Update Details) (receiverMap : Nat)
  | updateUnlock (u : Update Details)
  | getLock (receiverID : ComponentID) (endpointID : Str)
  | getLoadOrStore (receiverID : ComponentID) (endpointID : Str)
  | getStoreNoType (receiverID : ComponentID) (endpointID : Str) (receiverMap : Nat)
  | getLockReceiver (receiverID : ComponentID) (endpointID : Str) (receiverMap : Nat)
  | getUnlock (receiverID : ComponentID) (endpointID : Str) (receiverMap : Nat)
  | getLoad (receiverID : ComponentID) (receiverMap : Nat)
  | getLoadNoType (receiverID : ComponentID) (receiverMap : Nat)
  | getCopy (receiverID : ComponentID) (receiverMap : Nat)
  | getStore (receiverID : ComponentID) (receiverMap : Nat) (corr : Correlation Details)
  | getUnlockReceiver (receiverID : ComponentID) (result : Correlation Details)
  | reapRange (visited : List Str)
  | reapLock (visited : List Str) (endpointID : Str) (receiverMap : Nat)
  | reapLoad (visited : List Str) (endpointID : Str) (receiverMap : Nat)
  | reapDelete (visited : List Str) (endpointID : Str)
  | reapUnlock (visited : List Str) (endpointID : Str)

inductive Event (Details : Type) where
  | updated (u : Update Details)
  | created (endpointID : Str)

structure Store (Details : Type) where
  correlations : Str → Option Nat
  /-- The receiver maps. One that was deleted may still be in the hands of a thread. -/
  maps : Nat → ComponentID → Option (Correlation Details)
  nextMap : Nat
  endpointLocks : Str → Option Nat
  receiverLocks : ComponentID → Option Nat
  threads : Nat → Pc Details
  now : Nat
  log : List (Event Details)

def newCorrelationStore : Store Details where
  correlations := fun _ => none
  maps := fun _ _ => none
  nextMap := 0
  endpointLocks := fun _ => none
  receiverLocks := fun _ => none
  threads := fun _ => .idle
  now := 0
  log := []

namespace Store

def goto (s : Store Details) (t : Nat) (pc : Pc Details) : Store Details :=
  { s with threads := Function.update s.threads t pc }

def put (s : Store Details) (m : Nat) (receiverID : ComponentID) (c : Correlation Details) : Store Details :=
  { s with maps := Function.update s.maps m (Function.update (s.maps m) receiverID (some c)) }

def lockEndpoint (s : Store Details) (endpointID : Str) (t : Nat) : Option (Store Details) :=
  match s.endpointLocks endpointID with
  | none => some { s with endpointLocks := Function.update s.endpointLocks endpointID (some t) }
  | some _ => none

def unlockEndpoint (s : Store Details) (endpointID : Str) : Store Details :=
  { s with endpointLocks := Function.update s.endpointLocks endpointID none }

def lockReceiver (s : Store Details) (receiverID : ComponentID) (t : Nat) : Option (Store Details) :=
  match s.receiverLocks receiverID with
  | none => some { s with receiverLocks := Function.update s.receiverLocks receiverID (some t) }
  | some _ => none

def unlockReceiver (s : Store Details) (receiverID : ComponentID) : Store Details :=
  { s with receiverLocks := Function.update s.receiverLocks receiverID none }

def allocate (s : Store Details) (endpointID : Str) : Store Details :=
  { s with
    correlations := Function.update s.correlations endpointID (some s.nextMap)
    nextMap := s.nextMap + 1 }

/-- `LoadOrStore` of an empty receiver map. The flag says whether the endpoint was there. -/
def loadOrStore (s : Store Details) (endpointID : Str) : Store Details × Nat × Bool :=
  match s.correlations endpointID with
  | some m => (s, m, true)
  | none => (s.allocate endpointID, s.nextMap, false)

def record (s : Store Details) (e : Event Details) : Store Details := { s with log := s.log ++ [e] }

def updateAll (s : Store Details) (m : Nat) (u : Update Details) : Store Details :=
  { s with maps := Function.update s.maps m fun receiverID =>
      (s.maps m receiverID).map fun c => c.update u s.now }

def delete (s : Store Details) (endpointID : Str) : Store Details :=
  { s with correlations := Function.update s.correlations endpointID none }

def first (s : Store Details) (u : Update Details) : Correlation Details where
  lastState := u.state
  lastUpdated := s.now
  endpoint := u.endpoint
  receiverID := noType
  observerID := u.observerID

end Store

/-! ## Steps -/

inductive Call (Details : Type) where
  | updateEndpoint (u : Update Details)
  | getOrCreate (receiverID : ComponentID) (endpointID : Str)
  | reap

def Call.start : Call Details → Pc Details
  | .updateEndpoint u => .updateLock u
  | .getOrCreate receiverID endpointID => .getLock receiverID endpointID
  | .reap => .reapRange []

inductive Action (Details : Type) where
  | call (t : Nat) (c : Call Details)
  | step (t : Nat)
  /-- The `Range` of `reap` comes to an endpoint, or to its end. -/
  | visit (t : Nat) (endpointID : Str)
  | rangeEnd (t : Nat)
  | tick (d : Nat)

/-- The next operation of a thread. It is `none` where the thread has to wait. -/
def next (ttl : Nat) (s : Store Details) (t : Nat) : Option (Store Details) :=
  match s.threads t with
  | .idle | .panicked | .reapRange _ => none
  | .updateLock u => (s.lockEndpoint u.endpoint.id t).map fun s => s.goto t (.updateLoadOrStore u)
  | .updateLoadOrStore u =>
    let (s, m, ok) := s.loadOrStore u.endpoint.id
    some (s.goto t (if ok then .updateRange u m else .updateStore u m))
  | .updateStore u m => some (((s.put m noType (s.first u)).record (.updated u)).goto t (.updateUnlock u))
  | .updateRange u m => some (((s.updateAll m u).record (.updated u)).goto t (.updateUnlock u))
  | .updateUnlock u => some ((s.unlockEndpoint u.endpoint.id).goto t .idle)
  | .getLock r e => (s.lockEndpoint e t).map fun s => s.goto t (.getLoadOrStore r e)
  | .getLoadOrStore r e =>
    let (s, m, ok) := s.loadOrStore e
    some (s.goto t (if ok then .getLockReceiver r e m else .getStoreNoType r e m))
  | .getStoreNoType r e m =>
    some (((s.put m noType newCorrelation).record (.created e)).goto t (.getLockReceiver r e m))
  | .getLockReceiver r e m => (s.lockReceiver r t).map fun s => s.goto t (.getUnlock r e m)
  | .getUnlock r e m => some ((s.unlockEndpoint e).goto t (.getLoad r m))
  | .getLoad r m =>
    match s.maps m r with
    | some c => some (s.goto t (.getUnlockReceiver r c))
    | none => some (s.goto t (.getLoadNoType r m))
  | .getLoadNoType r m =>
    match s.maps m noType with
    | some _ => some (s.goto t (.getCopy r m))
    | none => some (s.goto t .panicked)
  | .getCopy r m => (s.maps m noType).map fun c => s.goto t (.getStore r m { c with receiverID := r })
  | .getStore r m c => some ((s.put m r c).goto t (.getUnlockReceiver r c))
  | .getUnlockReceiver r _ => some ((s.unlockReceiver r).goto t .idle)
  | .reapLock visited e m => (s.lockEndpoint e t).map fun s => s.goto t (.reapLoad visited e m)
  | .reapLoad visited e m =>
    match s.maps m noType with
    | some c =>
      if c.lastState = .removed ∧ ttl < s.now - c.lastUpdated then some (s.goto t (.reapDelete visited e))
      else some (s.goto t (.reapUnlock visited e))
    | none => some (s.goto t (.reapUnlock visited e))
  | .reapDelete visited e => some ((s.delete e).goto t (.reapUnlock visited e))
  | .reapUnlock visited e => some ((s.unlockEndpoint e).goto t (.reapRange (visited ++ [e])))

def act (ttl : Nat) (s : Store Details) : Action Details → Option (Store Details)
  | .call t c =>
    match s.threads t with
    | .idle => some (s.goto t c.start)
    | _ => none
  | .step t => next ttl s t
  | .visit t e =>
    match s.threads t, s.correlations e with
    | .reapRange visited, some m => if e ∈ visited then none else some (s.goto t (.reapLock visited e m))
    | _, _ => none
  | .rangeEnd t =>
    match s.threads t with
    | .reapRange _ => some (s.goto t .idle)
    | _ => none
  | .tick d => some { s with now := s.now + d }

/-! ## What the correlations of an endpoint should say -/

/-- What the last update of the endpoint said, since the endpoint was created. -/
def latest (endpointID : Str) (log : List (Event Details)) : Info Details :=
  log.foldl (fun info e =>
    match e with
    | .updated u => if u.endpoint.id = endpointID then u.info else info
    | .created e => if e = endpointID then newCorrelation.info else info) newCorrelation.info

def Agree (s : Store Details) : Prop :=
  ∀ e m, s.correlations e = some m → ∀ r c, s.maps m r = some c → c.info = latest e s.log

end Collector.DiscoveryReceiver
