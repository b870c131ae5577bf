import Ame.Broker.Registry

/-!
# Reads, their workers and the frames they end in (`journal_broker/service.rs`, `windows/host.rs`)

The host accepts a read, answers that it did, and starts a worker for it that runs `execute_accepted_read_frame` once. The worker
takes the read from the registry, executes it and finishes it, and returns one frame. The host also sends a frame for every
terminal that it gets when it reaps the connection, and for a read that it aborts. The steps of the workers and of the host
interleave in any order.
-/

namespace Ame

open Registry

/-- `map_active_failure` -/
def mapActiveFailure : ActiveRequestError → BrokerFailureCode
  | .alreadyActive | .limitExceeded => .activeLimitExceeded
  | .terminalDeliveryBackpressure => .terminalDeliveryBackpressure
  | .notActive | .connectionNotOpen | .connectionGenerationMismatch => .requestNotActive
  | .cancelled => .cancelled
  | .timedOut => .timedOut

/-- The code in the frame of a recorded terminal (`encode_recorded_terminal`). -/
def terminalFailureCode : RequestTerminal → BrokerFailureCode
  | .cancelled => .cancelled
  | .timedOut => .timedOut
  | .aborted => .requestNotActive
  | .completed => .internal

/-- What the last frame of a request says: a failure, or the response `σ` of the read. -/
inductive TerminalResponse (σ : Type) where
  | failure (code : BrokerFailureCode)
  | response (response : σ)
  deriving DecidableEq, Repr

/-- A frame that ends a request. -/
structure TerminalFrame (σ : Type) where
  key : ActiveRequestKey
  response : TerminalResponse σ
  deriving DecidableEq, Repr

/-- `encode_recorded_terminal`: a failure can always be encoded. -/
def encodeRecordedTerminal {σ : Type} (terminal : RecordedTerminal) : TerminalFrame σ :=
  ⟨terminal.key, .failure (terminalFailureCode terminal.terminal)⟩

/-- How far the worker of an accepted read has come. -/
inductive WorkerPhase where
  | started
  | executing
  deriving DecidableEq, Repr

/-- A worker that has not returned yet. -/
structure ReadWorker where
  key : ActiveRequestKey
  phase : WorkerPhase
  deriving DecidableEq, Repr

/-- The broker: its registry, the reads that were accepted so far, the workers that are left, and the frames so far, those of
the workers and those of recorded or aborted reads. A worker whose response cannot be encoded returns no frame; the host closes
the connection when it learns of it. -/
structure BrokerSession (ρ σ : Type) where
  registry : RegistryState ρ
  accepted : List ActiveRequestKey
  workers : List ReadWorker
  workerFrames : List (TerminalFrame σ)
  retiredFrames : List (TerminalFrame σ)
  undelivered : List ActiveRequestKey

/-- One step of the broker. The result of executing a read is whatever the journal and the authorizer make of it. -/
inductive SessionStep (ρ σ : Type) where
  | openConnection (connectionId : BitVec 128) (generation : UInt64)
  | disconnect (connectionId : BitVec 128) (generation : UInt64)
  | beginQuery (key : ActiveRequestKey) (deadline now : Nat) (order : List RequestNamespace)
  | acceptRead (key : ActiveRequestKey) (deadline : Nat) (read : ρ) (now : Nat) (order : List RequestNamespace)
  | finish (key : ActiveRequestKey) (now : Nat)
  | cancel (key : ActiveRequestKey)
  | beginControl (key : ActiveRequestKey)
  | finishControl (connectionId : BitVec 128) (generation : UInt64)
  | beginExecution (worker now : Nat)
  | finishExecution (worker now : Nat) (result : Except BrokerFailureCode σ)
  | abort (key : ActiveRequestKey) (now : Nat)
  | reap (connectionId : BitVec 128) (generation : UInt64) (now : Nat) (order : List RequestNamespace)

variable {ρ σ : Type}

/-- The requests of a connection that is open. -/
def requestNames (registry : RegistryState ρ) (connectionId : BitVec 128) (generation : UInt64) : List RequestNamespace :=
  match connectionRef registry connectionId generation with
  | .ok connection => connection.requests.keys
  | .error _ => []

/-- The response of a worker that has executed its read. -/
def finishedResponse (terminal : Except ActiveRequestError RequestTerminal) (result : Except BrokerFailureCode σ) :
    TerminalResponse σ :=
  match terminal with
  | .ok .cancelled => .failure .cancelled
  | .ok .timedOut => .failure .timedOut
  | .ok .completed =>
    match result with
    | .ok response => .response response
    | .error code => .failure code
  | .ok .aborted => .failure .requestNotActive
  | .error _ => .failure .requestNotActive

/-- Whether a response can be encoded; `encodes` says so for the responses of reads. -/
def TerminalResponse.encodes (encodes : σ → Bool) : TerminalResponse σ → Bool
  | .failure _ => true
  | .response value => encodes value

namespace BrokerSession

section

variable (encodes : σ → Bool) (session : BrokerSession ρ σ)

/-- A worker returns: with its frame, or without one if the response cannot be encoded. -/
def endWorker (worker : Nat) (key : ActiveRequestKey) (response : TerminalResponse σ) : BrokerSession ρ σ :=
  let session := { session with workers := session.workers.eraseIdx worker }
  if response.encodes encodes then { session with workerFrames := session.workerFrames ++ [⟨key, response⟩] }
  else { session with undelivered := session.undelivered ++ [key] }

/-- What one step does, if it can be taken. -/
def step : SessionStep ρ σ → Option (BrokerSession ρ σ)
  | .openConnection connectionId generation =>
    some { session with registry := (Registry.openConnection session.registry connectionId generation).2 }
  | .disconnect connectionId generation =>
    some { session with registry := Registry.disconnect session.registry connectionId generation }
  | .beginQuery key deadline now order =>
    if order.Perm (requestNames session.registry key.connectionId key.connectionGeneration) then
      some { session with registry := (register session.registry key deadline none now order).2 }
    else none
  | .acceptRead key deadline read now order =>
    if order.Perm (requestNames session.registry key.connectionId key.connectionGeneration) then
      let (result, registry) := register session.registry key deadline (some read) now order
      match result with
      | .ok () =>
        some { session with
          registry := registry
          accepted := session.accepted ++ [key]
          workers := session.workers ++ [⟨key, .started⟩] }
      | .error _ => some { session with registry := registry }
    else none
  | .finish key now => some { session with registry := (Registry.finish session.registry key now).2 }
  | .cancel key => some { session with registry := (Registry.cancel session.registry key).2 }
  | .beginControl key => some { session with registry := (Registry.beginControl session.registry key).2 }
  | .finishControl connectionId generation =>
    some { session with registry := Registry.finishControl session.registry connectionId generation }
  | .beginExecution worker now =>
    match session.workers[worker]? with
    | some ⟨key, .started⟩ =>
      let (result, registry) := Registry.beginExecution session.registry key now
      let session := { session with registry := registry }
      match result with
      | .ok _ => some { session with workers := session.workers.set worker ⟨key, .executing⟩ }
      | .error error => some (session.endWorker encodes worker key (.failure (mapActiveFailure error)))
    | _ => none
  | .finishExecution worker now result =>
    match session.workers[worker]? with
    | some ⟨key, .executing⟩ =>
      let (terminal, registry) := Registry.finish session.registry key now
      some ({ session with registry := registry }.endWorker encodes worker key (finishedResponse terminal result))
    | _ => none
  | .abort key now =>
    let (result, registry) := abortAccepted session.registry key now
    match result with
    | .ok terminal =>
      some { session with
        registry := registry
        retiredFrames := session.retiredFrames ++ [encodeRecordedTerminal terminal] }
    | .error _ => some { session with registry := registry }
  | .reap connectionId generation now order =>
    if order.Perm (requestNames session.registry connectionId generation) then
      let (result, registry) := reapAccepted session.registry connectionId generation now order
      match result with
      | .ok (terminals, _) =>
        some { session with
          registry := registry
          retiredFrames := session.retiredFrames ++ terminals.map encodeRecordedTerminal }
      | .error _ => some { session with registry := registry }
    else none

end

end BrokerSession

end Ame
