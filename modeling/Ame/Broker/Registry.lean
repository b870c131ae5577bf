import Ame.Broker.Wire
import Mathlib

/-!
# The requests a connection has open (`journal_broker/service/active.rs`)

A request is registered until its handler finishes it. A read is accepted first and executed by a worker later; in between it is
queued, and it may be cancelled or run out of time. A queued read that is found so is retired: its terminal is recorded, and the
host picks the recorded terminals up when it reaps the connection.

The clock is a number. The registry is a map behind a mutex, so each operation is one step. Where the code iterates over a hash
map, the order is an argument.
-/

namespace Ame

/-- `MAX_ACTIVE_REQUESTS_PER_CONNECTION` -/
def maxActiveRequestsPerConnection : Nat := 8

/-- `MAX_CONTROL_REQUESTS_PER_CONNECTION` -/
def maxControlRequestsPerConnection : Nat := 2

/-- `MAX_RECORDED_TERMINALS_PER_CONNECTION` -/
def maxRecordedTerminalsPerConnection : Nat := 16

/-- `ActiveRequestKey` -/
structure ActiveRequestKey where
  connectionId : BitVec 128
  connectionGeneration : UInt64
  authenticationNamespace : BitVec 256
  clientInstance : BitVec 128
  requestId : UInt64
  deriving DecidableEq, Repr

/-- `RequestNamespace`: a key on its connection. -/
structure RequestNamespace where
  authenticationNamespace : BitVec 256
  clientInstance : BitVec 128
  requestId : UInt64
  deriving DecidableEq, Repr

/-- `RequestNamespace::from` -/
def ActiveRequestKey.namespace (key : ActiveRequestKey) : RequestNamespace :=
  ⟨key.authenticationNamespace, key.clientInstance, key.requestId⟩

/-- `ActiveRequestError` -/
inductive ActiveRequestError where
  | alreadyActive
  | limitExceeded
  | notActive
  | connectionNotOpen
  | connectionGenerationMismatch
  | terminalDeliveryBackpressure
  | cancelled
  | timedOut
  deriving DecidableEq, Repr

/-- `RequestTerminal` -/
inductive RequestTerminal where
  | completed
  | cancelled
  | timedOut
  | aborted
  deriving DecidableEq, Repr

/-- `RecordedTerminal` -/
structure RecordedTerminal where
  key : ActiveRequestKey
  terminal : RequestTerminal
  deriving DecidableEq, Repr

/-- `ActiveRequest`; `ρ` is what an accepted read asks for. -/
structure ActiveRequest (ρ : Type) where
  deadline : Nat
  isCancelled : Bool
  acceptedRead : Option ρ
  deriving DecidableEq, Repr

/-- `ConnectionLifecycle` -/
structure ConnectionLifecycle (ρ : Type) where
  generation : UInt64
  requests : AList fun _ : RequestNamespace => ActiveRequest ρ
  activeControls : Nat
  recordedTerminals : List RecordedTerminal
  mustClose : Bool

/-- `RegistryState` -/
abbrev RegistryState (ρ : Type) := AList fun _ : BitVec 128 => ConnectionLifecycle ρ

variable {ρ α : Type}

namespace Registry

/-! ## Connections -/

variable (state : RegistryState ρ) (connectionId : BitVec 128) (generation : UInt64)

/-- `connection_ref` and `connection_mut` -/
def connectionRef : Except ActiveRequestError (ConnectionLifecycle ρ) :=
  match state.lookup connectionId with
  | none => .error .connectionNotOpen
  | some connection =>
    if connection.generation ≠ generation then .error .connectionGenerationMismatch else .ok connection

/-- An operation on a connection that is open. -/
def onConnection (operation : ConnectionLifecycle ρ → Except ActiveRequestError α × ConnectionLifecycle ρ) :
    Except ActiveRequestError α × RegistryState ρ :=
  match connectionRef state connectionId generation with
  | .error error => (.error error, state)
  | .ok connection => ((operation connection).1, state.insert connectionId (operation connection).2)

/-- `open_connection` -/
def openConnection : Except ActiveRequestError Unit × RegistryState ρ :=
  if connectionId = 0 ∨ generation = 0 then (.error .connectionNotOpen, state)
  else
    match state.lookup connectionId with
    | some connection =>
      (if connection.generation = generation then .ok () else .error .connectionGenerationMismatch, state)
    | none => (.ok (), state.insert connectionId ⟨generation, ∅, 0, [], false⟩)

/-- `disconnect` -/
def disconnect : RegistryState ρ :=
  match connectionRef state connectionId generation with
  | .error _ => state
  | .ok _ => state.erase connectionId

/-! ## Retiring queued reads -/

/-- `ConnectionLifecycle::record` -/
def record (connection : ConnectionLifecycle ρ) (terminal : RecordedTerminal) :
    Except ActiveRequestError Unit × ConnectionLifecycle ρ :=
  if connection.recordedTerminals.length = maxRecordedTerminalsPerConnection then
    (.error .terminalDeliveryBackpressure, { connection with mustClose := true })
  else
    let recorded := connection.recordedTerminals ++ [terminal]
    (.ok (), { connection with
      recordedTerminals := recorded
      mustClose := connection.mustClose || recorded.length == maxRecordedTerminalsPerConnection })

/-- The terminal of a queued read that is cancelled or out of time. -/
def staleTerminal (request : ActiveRequest ρ) (now : Nat) : Option RequestTerminal :=
  if request.acceptedRead.isNone then none
  else if request.isCancelled then some .cancelled
  else if request.deadline ≤ now then some .timedOut
  else none

/-- The second loop of `reap_accepted_locked`. It ends early when no more terminals can be recorded. -/
def retire (connectionId : BitVec 128) (generation : UInt64) :
    List (RequestNamespace × RequestTerminal) → ConnectionLifecycle ρ → ConnectionLifecycle ρ
  | [], connection => connection
  | (name, terminal) :: rest, connection =>
    let key := ⟨connectionId, generation, name.authenticationNamespace, name.clientInstance, name.requestId⟩
    match record connection ⟨key, terminal⟩ with
    | (.error _, connection) => connection
    | (.ok (), connection) =>
      retire connectionId generation rest { connection with requests := connection.requests.erase name }

/-- The list that `reap_accepted_locked` returns: the terminals the loop records. -/
def retired (connectionId : BitVec 128) (generation : UInt64) :
    List (RequestNamespace × RequestTerminal) → ConnectionLifecycle ρ → List RecordedTerminal
  | [], _ => []
  | (name, terminal) :: rest, connection =>
    let key := ⟨connectionId, generation, name.authenticationNamespace, name.clientInstance, name.requestId⟩
    match record connection ⟨key, terminal⟩ with
    | (.error _, _) => []
    | (.ok (), connection) =>
      ⟨key, terminal⟩ :: retired connectionId generation rest { connection with requests := connection.requests.erase name }

/-- The first loop of `reap_accepted_locked`: the queued reads to retire. -/
def staleReads (connection : ConnectionLifecycle ρ) (now : Nat) (order : List RequestNamespace) :
    List (RequestNamespace × RequestTerminal) :=
  order.filterMap fun name =>
    ((connection.requests.lookup name).bind (staleTerminal · now)).map fun terminal => (name, terminal)

/-- `reap_accepted_locked`; no caller uses the list it returns. -/
def reapAcceptedLocked (connection : ConnectionLifecycle ρ) (connectionId : BitVec 128) (generation : UInt64) (now : Nat)
    (order : List RequestNamespace) : ConnectionLifecycle ρ :=
  retire connectionId generation (staleReads connection now order) connection

/-! ## The operations -/

variable (key : ActiveRequestKey)

/-- `register`, also `begin_query`, `accept_read` and `accept_volume_read` -/
def register (deadline : Nat) (acceptedRead : Option ρ) (now : Nat)
    (order : List RequestNamespace) : Except ActiveRequestError Unit × RegistryState ρ :=
  onConnection state key.connectionId key.connectionGeneration fun connection =>
    let connection := reapAcceptedLocked connection key.connectionId key.connectionGeneration now order
    if connection.mustClose then (.error .terminalDeliveryBackpressure, connection)
    else if key.namespace ∈ connection.requests then (.error .alreadyActive, connection)
    else if maxActiveRequestsPerConnection ≤ connection.requests.keys.length then (.error .limitExceeded, connection)
    else (.ok (), { connection with requests := connection.requests.insert key.namespace ⟨deadline, false, acceptedRead⟩ })

/-- `begin_control` -/
def beginControl : Except ActiveRequestError Unit × RegistryState ρ :=
  onConnection state key.connectionId key.connectionGeneration fun connection =>
    if maxControlRequestsPerConnection ≤ connection.activeControls then (.error .limitExceeded, connection)
    else (.ok (), { connection with activeControls := connection.activeControls + 1 })

/-- `finish_control`, which the guard of `begin_control` calls when it is dropped -/
def finishControl : RegistryState ρ :=
  (onConnection state connectionId generation fun connection =>
    (.ok (), { connection with activeControls := connection.activeControls - 1 })).2

/-- `begin_execution`: the worker takes the read out of the queue; the request stays registered. -/
def beginExecution (now : Nat) : Except ActiveRequestError (ρ × Nat) × RegistryState ρ :=
  onConnection state key.connectionId key.connectionGeneration fun connection =>
    match connection.requests.lookup key.namespace with
    | none => (.error .notActive, connection)
    | some request =>
      if request.isCancelled then
        (.error .cancelled, { connection with requests := connection.requests.erase key.namespace })
      else if request.deadline ≤ now then
        (.error .timedOut, { connection with requests := connection.requests.erase key.namespace })
      else
        match request.acceptedRead with
        | none => (.error .notActive, connection)
        | some read =>
          (.ok (read, request.deadline),
            { connection with
              requests := connection.requests.insert key.namespace { request with acceptedRead := none } })

/-- `abort_accepted` -/
def abortAccepted (now : Nat) : Except ActiveRequestError RecordedTerminal × RegistryState ρ :=
  onConnection state key.connectionId key.connectionGeneration fun connection =>
    match connection.requests.lookup key.namespace with
    | none => (.error .notActive, connection)
    | some request =>
      if request.acceptedRead.isNone then (.error .notActive, connection)
      else
        let terminal :=
          if request.isCancelled then .cancelled else if request.deadline ≤ now then .timedOut else .aborted
        (.ok ⟨key, terminal⟩, { connection with requests := connection.requests.erase key.namespace })

/-- `reap_accepted`: the recorded terminals, and whether the connection has to be closed. -/
def reapAccepted (now : Nat)
    (order : List RequestNamespace) : Except ActiveRequestError (List RecordedTerminal × Bool) × RegistryState ρ :=
  onConnection state connectionId generation fun connection =>
    let connection := reapAcceptedLocked connection connectionId generation now order
    (.ok (connection.recordedTerminals, connection.mustClose), { connection with recordedTerminals := [] })

/-- `cancel` -/
def cancel : Except ActiveRequestError Unit × RegistryState ρ :=
  onConnection state key.connectionId key.connectionGeneration fun connection =>
    match connection.requests.lookup key.namespace with
    | none => (.error .notActive, connection)
    | some request =>
      (.ok (), { connection with
        requests := connection.requests.insert key.namespace { request with isCancelled := true } })

/-- `finish` -/
def finish (now : Nat) : Except ActiveRequestError RequestTerminal × RegistryState ρ :=
  onConnection state key.connectionId key.connectionGeneration fun connection =>
    match connection.requests.lookup key.namespace with
    | none => (.error .notActive, connection)
    | some request =>
      (.ok (if request.isCancelled then .cancelled else if request.deadline ≤ now then .timedOut else .completed),
        { connection with requests := connection.requests.erase key.namespace })

end Registry

end Ame
