import Collector.Lib.Channel
import Collector.Lib.Runs

/-!
# The remote-write receiver

`receiver.go` and `server.go` of `internal/receiver/signalfxgatewayprometheusremotewritereceiver`. The server, channel,
context and loop of a call of `Start` are known by one number. Each position is named after the operation that comes
next.
-/

namespace Collector.RemoteWrite

open Lib Function

variable {M : Type}

/-- The metrics of one request. No two handlers share them. -/
structure Batch (M : Type) where
  handler : Nat
  metrics : M
  deriving DecidableEq

/-! ## Handlers -/

inductive Handler (M : Type) where
  | idle
  | decode
  | convert
  | send (metrics : M)
  | respond (metrics : M)
  | badRequest
  | noContent
  | accepted (metrics : M)
  | panicked
  deriving DecidableEq

inductive Decoded where
  | malformed
  /-- There are neither time series nor metadata. -/
  | empty
  | request

inductive HandlerMove (M : Type) where
  | decode (result : Decoded)
  | convert (results : Option M)
  | send
  | respond

def newHandler (h : Nat) (mc : Chan (Batch M)) : Handler M → HandlerMove M → Option (Handler M × Chan (Batch M))
  | .decode, .decode .malformed => some (.badRequest, mc)
  | .decode, .decode .empty => some (.noContent, mc)
  | .decode, .decode .request => some (.convert, mc)
  | .convert, .convert none => some (.badRequest, mc)
  | .convert, .convert (some results) => some (.send results, mc)
  | .send results, .send =>
    if mc.closed then some (.panicked, mc)
    else (mc.send ⟨h, results⟩).map fun mc => (.respond results, mc)
  | .respond results, .respond => some (.accepted results, mc)
  | _, _ => none

/-! ## The loop -/

inductive Loop (M : Type) where
  | notStarted
  | select
  | flush (batch : Batch M)
  | returned
  deriving DecidableEq

inductive LoopMove where
  | receive
  | receiveClosed
  | ctxDone
  | flushed (failed : Bool)

def manageServerLifecycle (ctxDone : Bool) (mc : Chan (Batch M)) :
    Loop M → LoopMove → Option (Loop M × Chan (Batch M))
  | .select, .receive => mc.recv.map fun e => (.flush e.1, e.2)
  | .select, .receiveClosed => if mc.closed && mc.queue.isEmpty then some (.returned, mc) else none
  | .select, .ctxDone => if ctxDone then some (.returned, mc) else none
  | .flush _, .flushed failed => some (if failed then .returned else .select, mc)
  | _, _ => none

/-! ## Servers -/

inductive Http where
  | idle
  | serving
  | closed
  deriving DecidableEq

/-- A `sync.Once`, with the caller that runs its function. -/
inductive Once where
  | fresh
  | busy (caller : Nat)
  | done

structure Server (M : Type) where
  mc : Chan (Batch M)
  /-- How often `close(prw.Mc)` was called. -/
  closes : Nat
  http : Http
  closeChannel : Once
  ctxDone : Bool
  loop : Loop M

inductive Closing where
  | serverClose
  | onceDo (failed : Bool)
  | closeMc (failed : Bool)
  | onceDone (failed : Bool)
  | returned (failed : Bool)
  | panicked

def close (t : Nat) (failed : Bool) (prw : Server M) : Closing → Option (Closing × Server M)
  | .serverClose => some (.onceDo failed, { prw with http := .closed })
  | .onceDo failed =>
    match prw.closeChannel with
    | .fresh => some (.closeMc failed, { prw with closeChannel := .busy t })
    | .busy _ => none
    | .done => some (.returned failed, prw)
  | .closeMc failed =>
    if prw.mc.closed then some (.panicked, { prw with closes := prw.closes + 1 })
    else some (.onceDone failed, { prw with mc := prw.mc.close, closes := prw.closes + 1 })
  | .onceDone failed => some (.returned failed, { prw with closeChannel := .done })
  | .returned _ | .panicked => none

/-! ## The receiver -/

/-- What comes after `close`: the rest of `Start` or of `Shutdown`. -/
inductive Rest where
  | start (server : Nat)
  | shutdown (context : Nat)

inductive Caller where
  | idle
  | close (server : Nat) (rest : Rest) (closing : Closing)
  | cancelOld (server : Nat)
  | withCancel (server : Nat)
  | newServer (server : Nat)
  | setServer (server : Nat)
  | launch (server : Nat)
  | cancel (context : Nat)

structure Request (M : Type) where
  server : Nat
  pc : Handler M
  deriving DecidableEq

structure Receiver (M : Type) where
  server : Option Nat
  /-- The context that `receiver.cancel` cancels. -/
  cancel : Option Nat
  /-- Those from `nextServer` on are as `Start` will make them. -/
  servers : Nat → Server M
  nextServer : Nat
  callers : Nat → Caller
  starting : Nat
  handlers : Nat → Request M

def newReceiver (bufferSize : Nat) : Receiver M where
  server := none
  cancel := none
  servers := fun _ => ⟨.make bufferSize, 0, .idle, .fresh, false, .notStarted⟩
  nextServer := 0
  callers := fun _ => .idle
  starting := 0
  handlers := fun _ => ⟨0, .idle⟩

inductive Action (M : Type) where
  | start (t : Nat)
  | shutdown (t : Nat)
  /-- The next step of a call. `failed` is the outcome of an operation that may fail. -/
  | call (t : Nat) (failed : Bool)
  | startServer (failed : Bool)
  | serveError (server : Nat)
  | cancelContext (server : Nat)
  | accept (h : Nat) (server : Nat)
  | handler (h : Nat) (move : HandlerMove M)
  | loop (server : Nat) (move : LoopMove)
  /-- A handler sends while the loop waits. -/
  | handoff (server : Nat) (h : Nat)

namespace Receiver

def setServer (s : Receiver M) (g : Nat) (v : Server M) : Receiver M :=
  { s with servers := Function.update s.servers g v }

def goto (s : Receiver M) (t : Nat) (pc : Caller) : Receiver M :=
  { s with callers := Function.update s.callers t pc }

def handle (s : Receiver M) (h : Nat) (g : Nat) (pc : Handler M) : Receiver M :=
  { s with handlers := Function.update s.handlers h ⟨g, pc⟩ }

def cancelContext (s : Receiver M) (g : Nat) : Receiver M := s.setServer g { s.servers g with ctxDone := true }

def callStep (s : Receiver M) (t : Nat) (failed : Bool) : Option (Receiver M) :=
  match s.callers t with
  | .idle => none
  -- `Start` returns an error of `close`, and `Shutdown` goes on
  | .close _ (.start g) (.returned failed) => some (s.goto t (if failed then .idle else .cancelOld g))
  | .close _ (.shutdown c) (.returned _) => some (s.goto t (.cancel c))
  | .close g rest closing => (RemoteWrite.close t failed (s.servers g) closing).map fun e =>
      (s.setServer g e.2).goto t (.close g rest e.1)
  | .cancelOld g =>
    match s.cancel with
    | none => some (s.goto t (.withCancel g))
    | some c => some ((s.cancelContext c).goto t (.withCancel g))
  | .withCancel g => some ({ s with cancel := some g }.goto t (.newServer g))
  | .newServer g => some (s.goto t (if failed then .idle else .setServer g))
  | .setServer g => some ({ s with server := some g }.goto t (.launch g))
  | .launch g =>
    some ({ s.setServer g { s.servers g with loop := .select } with starting := s.starting + 1 }.goto t .idle)
  | .cancel c => some ((s.cancelContext c).goto t .idle)

def step (s : Receiver M) : Action M → Option (Receiver M)
  | .start t =>
    match s.callers t, s.server with
    | .idle, none => some ({ s with nextServer := s.nextServer + 1 }.goto t (.cancelOld s.nextServer))
    | .idle, some old =>
      some ({ s with nextServer := s.nextServer + 1 }.goto t (.close old (.start s.nextServer) .serverClose))
    | _, _ => none
  | .shutdown t =>
    match s.callers t, s.cancel, s.server with
    | .idle, none, _ => some s
    | .idle, some c, none => some (s.goto t (.cancel c))
    | .idle, some c, some g => some (s.goto t (.close g (.shutdown c) .serverClose))
    | _, _, _ => none
  | .call t failed => s.callStep t failed
  | .startServer failed =>
    match s.starting, s.server with
    | n + 1, some g =>
      -- a server that is closed does not listen
      if failed || (s.servers g).http = .closed then some { s with starting := n }
      else some { s.setServer g { s.servers g with http := .serving } with starting := n }
    | _, _ => none
  | .serveError g =>
    match (s.servers g).http with
    | .serving => some (s.setServer g { s.servers g with http := .idle })
    | _ => none
  | .cancelContext g => some (s.cancelContext g)
  | .accept h g =>
    match (s.handlers h).pc, (s.servers g).http with
    | .idle, .serving => some (s.handle h g .decode)
    | _, _ => none
  | .handler h move =>
    let g := (s.handlers h).server
    (newHandler h (s.servers g).mc (s.handlers h).pc move).map fun e =>
      (s.setServer g { s.servers g with mc := e.2 }).handle h g e.1
  | .loop g move =>
    (manageServerLifecycle (s.servers g).ctxDone (s.servers g).mc (s.servers g).loop move).map fun e =>
      s.setServer g { s.servers g with loop := e.1, mc := e.2 }
  | .handoff g h =>
    match (s.servers g).loop, s.handlers h with
    | .select, ⟨g', .send metrics⟩ =>
      if g' = g ∧ (s.servers g).mc.closed = false then
        ((s.servers g).mc.handoff ⟨h, metrics⟩).map fun mc =>
          (s.setServer g { s.servers g with loop := .flush ⟨h, metrics⟩, mc }).handle h g (.respond metrics)
      else none
    | _, _ => none

section
variable (s : Receiver M) (g t h : Nat) (v : Server M) (pc : Caller) (at' : Handler M)

@[simp] theorem servers_setServer (g' : Nat) : (s.setServer g v).servers g' = if g' = g then v else s.servers g' :=
  update_apply ..

@[simp] theorem handlers_setServer : (s.setServer g v).handlers = s.handlers := rfl

@[simp] theorem servers_goto : (s.goto t pc).servers = s.servers := rfl

@[simp] theorem callers_goto (t' : Nat) : (s.goto t pc).callers t' = if t' = t then pc else s.callers t' :=
  update_apply ..

@[simp] theorem handlers_goto : (s.goto t pc).handlers = s.handlers := rfl

@[simp] theorem servers_handle : (s.handle h g at').servers = s.servers := rfl

@[simp] theorem handlers_handle (h' : Nat) :
    (s.handle h g at').handlers h' = if h' = h then ⟨g, at'⟩ else s.handlers h' :=
  update_apply ..

end

end Receiver

end Collector.RemoteWrite
