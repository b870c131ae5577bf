import Mathlib

/-!
# The admission of writes (`sqlite_catalog/write_admission.rs`)

The writers of the catalog take turns. A write waits in the queue of its priority until no permit is out, the queues of all
higher priorities are empty and it is the first of its own. A reservation waits in the same way, but a permit does not take it out
of its queue: it stays there until it is dropped.

Tokens are compared by identity, so each registration takes a new number. A step is what one thread does while it holds the
lock; when the condition variable wakes a thread is left open, and a waiting write may look at the state at any time.
-/

namespace Ame

/-- A priority: the index of a queue, the most urgent first. -/
abbrev WritePriority := Fin 5

/-- The identity of an `Arc<()>`. -/
abbrev WriteToken := Nat

/-- `SqliteWriteAdmissionState`; a preemption callback is named by a number. -/
structure SqliteWriteAdmissionState where
  isActive : Bool := false
  activePriority : WritePriority := 0
  activePreempt : Option Nat := none
  waiting : WritePriority → List WriteToken := fun _ => []
  completedWriteEpoch : UInt64 := 0

/-- `PendingWrite` while it has its token, and whether a `ReservedWrite` holds it. -/
structure PendingWrite where
  priority : WritePriority
  token : WriteToken
  isReserved : Bool
  deriving DecidableEq

section

variable (state : SqliteWriteAdmissionState) (priority : WritePriority) (preempt : Option Nat) (pending : PendingWrite)

/-- `preemption_callback` -/
def preemptionCallback : Option Nat :=
  if state.isActive && decide (priority < state.activePriority) then state.activePreempt else none

/-- `register`, for a new token: the queue with it, and the callback of the permit it preempts. -/
def SqliteWriteAdmissionState.register (token : WriteToken) : SqliteWriteAdmissionState × Option Nat :=
  let state := { state with waiting := Function.update state.waiting priority (state.waiting priority ++ [token]) }
  (state, preemptionCallback state priority)

/-- The state in which a permit is out. -/
def SqliteWriteAdmissionState.activate : SqliteWriteAdmissionState :=
  { state with isActive := true, activePriority := priority, activePreempt := preempt }

/-- `try_acquire_priority` -/
def SqliteWriteAdmissionState.tryAcquirePriority : Option SqliteWriteAdmissionState :=
  if state.isActive = true ∨ ∃ p ≤ priority, state.waiting p ≠ [] then none else some (state.activate priority preempt)

/-- `SqliteWritePermit::drop` -/
def SqliteWriteAdmissionState.release : SqliteWriteAdmissionState :=
  { state with
    isActive := false, activePriority := 0, activePreempt := none, completedWriteEpoch := state.completedWriteEpoch + 1 }

/-- `can_admit` -/
def PendingWrite.canAdmit : Bool :=
  !state.isActive && decide (∀ p < pending.priority, state.waiting p = []) &&
    (state.waiting pending.priority).head? == some pending.token

/-- `admit` -/
def PendingWrite.admit : SqliteWriteAdmissionState :=
  { state with
    waiting := Function.update state.waiting pending.priority (state.waiting pending.priority).tail }.activate
      pending.priority preempt

/-- `PendingWrite::drop` -/
def PendingWrite.drop : SqliteWriteAdmissionState :=
  { state with
    waiting := Function.update state.waiting pending.priority
      ((state.waiting pending.priority).filter (· != pending.token)) }

end

/-- The admission and what its callers hold: the registered writes in the order in which they came, and the number of permits
that are out. -/
structure WriteSystem where
  state : SqliteWriteAdmissionState := {}
  writes : List PendingWrite := []
  permits : Nat := 0
  nextToken : WriteToken := 0

/-- What a thread does while it holds the lock: register a write (`acquire`, timed or not, and `reserve`), look whether a waiting
write can be admitted, try to get a permit for a reservation or without waiting, drop a permit, or drop a write (a timeout, or
the end of a reservation). -/
inductive WriteCall where
  | register (priority : WritePriority) (isReserved : Bool)
  | look (write : PendingWrite) (preempt : Option Nat)
  | attempt (write : PendingWrite)
  | tryAcquire (priority : WritePriority) (preempt : Option Nat)
  | dropPermit
  | dropWrite (write : PendingWrite)
  deriving DecidableEq

/-- One step, and whether it gave out a permit. A step on a write that is not registered does nothing. -/
def WriteSystem.apply (s : WriteSystem) : WriteCall → WriteSystem × Bool
  | .register priority isReserved =>
    ({ s with
      state := (s.state.register priority s.nextToken).1
      writes := s.writes ++ [⟨priority, s.nextToken, isReserved⟩]
      nextToken := s.nextToken + 1 }, false)
  | .look write preempt =>
    if write ∈ s.writes ∧ write.isReserved = false ∧ write.canAdmit s.state = true then
      ({ s with
        state := write.admit s.state preempt
        writes := s.writes.filter (· != write)
        permits := s.permits + 1 }, true)
    else (s, false)
  | .attempt write =>
    if write ∈ s.writes ∧ write.isReserved = true ∧ write.canAdmit s.state = true then
      -- the position survives a rolled-back attempt
      ({ s with state := s.state.activate write.priority none, permits := s.permits + 1 }, true)
    else (s, false)
  | .tryAcquire priority preempt =>
    match s.state.tryAcquirePriority priority preempt with
    | some state => ({ s with state := state, permits := s.permits + 1 }, true)
    | none => (s, false)
  | .dropPermit =>
    if s.permits = 0 then (s, false) else ({ s with state := s.state.release, permits := s.permits - 1 }, false)
  | .dropWrite write =>
    if write ∈ s.writes then
      ({ s with state := write.drop s.state, writes := s.writes.filter (· != write) }, false)
    else (s, false)

/-- The system after some steps. -/
def WriteSystem.run (calls : List WriteCall) : WriteSystem :=
  calls.foldl (fun s call => (s.apply call).1) {}

end Ame
