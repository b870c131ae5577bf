import Ame.Broker.Registry
import Ame.Lib.Transition

/-!
# The registry over whole runs

What the registry is for is stated as a ledger of each connection: which requests are active, and which terminals wait to be picked
up. A request enters the ledger when it is registered and leaves it once; a request that is reaped leaves behind the terminal it
ended with, and a terminal is handed out once, in order. Every run of the registry is a run of its ledgers, and stays within the
bounds of a connection.
-/

namespace Ame

open List Registry Transition AList Option

/-! ## The ledger of a connection -/

/-- What happens on a connection. -/
inductive LedgerEvent where
  | registered (name : RequestNamespace)
  | cancelled (name : RequestNamespace)
  /-- The request ends other than by a reap. -/
  | removed (name : RequestNamespace)
  /-- The request is retired and its terminal recorded. -/
  | reaped (terminal : RecordedTerminal)
  /-- A reap hands the terminal out. -/
  | returned (terminal : RecordedTerminal)
  /-- The connection is closed before the terminal is handed out. -/
  | dropped (terminal : RecordedTerminal)

/-- The active requests, with whether they have been cancelled, and the terminals that wait, the oldest first. -/
structure Ledger where
  life : RequestNamespace → Option Bool
  pending : List RecordedTerminal

namespace Ledger

/-- The ledger of a connection that is not open. -/
def empty : Ledger := ⟨fun _ => none, []⟩

/-- How a request is marked, or taken out. -/
def set (ledger : Ledger) (name : RequestNamespace) (life : Option Bool) : Ledger :=
  { ledger with life := Function.update ledger.life name life }

/-- What may happen, and what it does. -/
inductive Step : Ledger → LedgerEvent → Ledger → Prop where
  | registered {ledger : Ledger} {name : RequestNamespace} (h : ledger.life name = none) :
      Step ledger (.registered name) (ledger.set name (some false))
  | cancelled {ledger : Ledger} {name : RequestNamespace} (h : ledger.life name ≠ none) :
      Step ledger (.cancelled name) (ledger.set name (some true))
  | removed {ledger : Ledger} {name : RequestNamespace} (h : ledger.life name ≠ none) :
      Step ledger (.removed name) (ledger.set name none)
  | reaped {ledger : Ledger} {terminal : RecordedTerminal} {wasCancelled : Bool}
      (h : ledger.life terminal.key.namespace = some wasCancelled)
      (hterminal : terminal.terminal = if wasCancelled then .cancelled else .timedOut) :
      Step ledger (.reaped terminal) { ledger.set terminal.key.namespace none with pending := ledger.pending ++ [terminal] }
  | returned {life : RequestNamespace → Option Bool} {terminal : RecordedTerminal} {rest : List RecordedTerminal} :
      Step ⟨life, terminal :: rest⟩ (.returned terminal) ⟨life, rest⟩
  | dropped {life : RequestNamespace → Option Bool} {terminal : RecordedTerminal} {rest : List RecordedTerminal} :
      Step ⟨life, terminal :: rest⟩ (.dropped terminal) ⟨life, rest⟩

theorem run_single {ledger ledger' : Ledger} {ev : LedgerEvent} (h : Step ledger ev ledger') : Run Step ledger [ev] ledger' :=
  Run.nil.snoc h

/-- All waiting terminals go the same way. -/
theorem run_pending (life : RequestNamespace → Option Bool) (pend : List RecordedTerminal) {ev : RecordedTerminal → LedgerEvent}
    (he : ∀ term rest, Step ⟨life, term :: rest⟩ (ev term) ⟨life, rest⟩) :
    Run Step ⟨life, pend⟩ (pend.map ev) ⟨life, []⟩ := by
  induction pend with
  | nil => exact .nil
  | cons term rest ih => exact (run_single (he term rest)).append ih

end Ledger

variable {ρ : Type}

/-- The ledger a connection stands for. -/
def ledgerOf (connection : ConnectionLifecycle ρ) : Ledger :=
  ⟨fun name => (connection.requests.lookup name).map (·.isCancelled), connection.recordedTerminals⟩

section

variable (conn : ConnectionLifecycle ρ) (name : RequestNamespace)

/-- To remove a request ends its life. -/
theorem ledgerOf_erase : ledgerOf { conn with requests := conn.requests.erase name } = (ledgerOf conn).set name none := by
  unfold ledgerOf Ledger.set
  congr 1
  funext o
  rcases eq_or_ne o name with rfl | hne
  · rw [Function.update_self, lookup_erase, map_none]
  · rw [Function.update_of_ne hne, lookup_erase_ne hne]

/-- To add a request starts one. -/
theorem ledgerOf_insert (req : ActiveRequest ρ) : ledgerOf { conn with requests := conn.requests.insert name req } =
      (ledgerOf conn).set name (some req.isCancelled) := by
  unfold ledgerOf Ledger.set
  congr 1
  funext o
  rcases eq_or_ne o name with rfl | hne
  · rw [Function.update_self, lookup_insert, map_some]
  · rw [Function.update_of_ne hne, lookup_insert_ne hne]

end

/-! ## What an operation does to its connection -/

/-- An operation on an open connection: its events on the ledger, and what it keeps of the bounds. -/
structure ConnectionEffect (connection : ConnectionLifecycle ρ) (events : List LedgerEvent) (after : ConnectionLifecycle ρ) :
    Prop where
  generation : after.generation = connection.generation
  ledger : Run Ledger.Step (ledgerOf connection) events (ledgerOf after)
  requests : connection.requests.keys.length ≤ maxActiveRequestsPerConnection →
    after.requests.keys.length ≤ maxActiveRequestsPerConnection
  terminals : connection.recordedTerminals.length ≤ maxRecordedTerminalsPerConnection →
    after.recordedTerminals.length ≤ maxRecordedTerminalsPerConnection
  mustClose : connection.mustClose = true → after.mustClose = true
  controls : after.activeControls = connection.activeControls

section

variable {conn middle after : ConnectionLifecycle ρ} {name : RequestNamespace} {req : ActiveRequest ρ}

theorem ConnectionEffect.refl (conn : ConnectionLifecycle ρ) : ConnectionEffect conn [] conn :=
  ⟨rfl, .nil, id, id, id, rfl⟩

theorem ConnectionEffect.trans {evs more : List LedgerEvent} (h : ConnectionEffect conn evs middle)
    (h' : ConnectionEffect middle more after) : ConnectionEffect conn (evs ++ more) after :=
  ⟨h'.generation.trans h.generation, h.ledger.append h'.ledger, h'.requests ∘ h.requests, h'.terminals ∘ h.terminals,
    h'.mustClose ∘ h.mustClose, h'.controls.trans h.controls⟩

section

variable (h : conn.requests.lookup name = some req)

include h

theorem life_ne_none : (ledgerOf conn).life name ≠ none := by
  simp [ledgerOf, h]

/-- A request is taken out. -/
theorem effect_erase : ConnectionEffect conn [.removed name] { conn with requests := conn.requests.erase name } where
  generation := rfl
  ledger := by
    rw [ledgerOf_erase]
    exact Ledger.run_single (.removed (life_ne_none h))
  requests hle := by
    rw [keys_erase]
    exact le_trans (length_erase_le) hle
  terminals := id
  mustClose := id
  controls := rfl

/-- A request is changed. -/
theorem effect_update {req' : ActiveRequest ρ} {evs : List LedgerEvent}
    (hr : Run Ledger.Step (ledgerOf conn) evs ((ledgerOf conn).set name (some req'.isCancelled))) :
    ConnectionEffect conn evs { conn with requests := conn.requests.insert name req' } where
  generation := rfl
  ledger := by rwa [ledgerOf_insert]
  requests hle := by
    have hm : name ∈ conn.requests.keys := AList.mem_keys.mp (AList.lookup_isSome.mp (by rw [h]; rfl))
    rw [keys_insert, length_cons, length_erase_of_mem hm]
    have := length_pos_of_mem hm
    omega
  terminals := id
  mustClose := id
  controls := rfl

end

/-- A request is registered. -/
theorem effect_register (hn : name ∉ conn.requests)
    (hr : conn.requests.keys.length < maxActiveRequestsPerConnection) (ha : req.isCancelled = false) :
    ConnectionEffect conn [.registered name] { conn with requests := conn.requests.insert name req } where
  generation := rfl
  ledger := by
    rw [ledgerOf_insert, ha]
    exact Ledger.run_single (.registered (by simp [ledgerOf, lookup_eq_none.mpr hn]))
  requests _ := by
    rw [keys_insert, erase_of_not_mem (fun h => hn (AList.mem_keys.mpr h))]
    exact hr
  terminals := id
  mustClose := id
  controls := rfl

/-- A terminal that can be recorded, as `record` and the loop leave the connection. -/
def afterRecord (connection : ConnectionLifecycle ρ) (terminal : RecordedTerminal) : ConnectionLifecycle ρ :=
  { connection with
    requests := connection.requests.erase terminal.key.namespace
    recordedTerminals := connection.recordedTerminals ++ [terminal]
    mustClose := connection.mustClose ||
      (connection.recordedTerminals ++ [terminal]).length == maxRecordedTerminalsPerConnection }

/-- What a stale read ends with. -/
theorem staleTerminal_eq {now : Nat} {term : RequestTerminal} (h : staleTerminal req now = some term) :
    term = if req.isCancelled then .cancelled else .timedOut := by
  unfold staleTerminal at h
  split at h
  · cases h
  · split at h
    · next hc => rw [if_pos hc, Option.some.inj h]
    · next ha =>
      split at h
      · rw [if_neg ha, Option.some.inj h]
      · cases h

/-- A queued read that is cancelled or out of time is retired. -/
theorem afterRecord_effect (term : RecordedTerminal) {now : Nat}
    (hf : conn.recordedTerminals.length ≠ maxRecordedTerminalsPerConnection)
    (hl : conn.requests.lookup term.key.namespace = some req) (hs : staleTerminal req now = some term.terminal) :
    ConnectionEffect conn [.reaped term] (afterRecord conn term) where
  generation := rfl
  ledger := by
    have hli : (ledgerOf conn).life term.key.namespace = some req.isCancelled := by simp [ledgerOf, hl]
    have hse : ledgerOf (afterRecord conn term) =
        { (ledgerOf conn).set term.key.namespace none with pending := conn.recordedTerminals ++ [term] } := by
      rw [← ledgerOf_erase]
      rfl
    rw [hse]
    exact Ledger.run_single (.reaped hli (staleTerminal_eq hs))
  requests hle := by
    rw [afterRecord, keys_erase]
    exact le_trans length_erase_le hle
  terminals hle := by
    rw [afterRecord, length_append, length_singleton]
    omega
  mustClose hc := by rw [afterRecord, hc, Bool.true_or]
  controls := rfl

/-- The loop of a reap: it retires queued reads as far as their terminals can be recorded. -/
theorem retire_effect (cid : BitVec 128) (gen : UInt64) (now : Nat) (stale : List (RequestNamespace × RequestTerminal))
    (hn : (stale.map (·.1)).Nodup)
    (hs : ∀ e ∈ stale, ∃ req, conn.requests.lookup e.1 = some req ∧ staleTerminal req now = some e.2) :
    ConnectionEffect conn ((retired cid gen stale conn).map .reaped) (retire cid gen stale conn) := by
  induction stale generalizing conn with
  | nil => exact .refl conn
  | cons e stale ih =>
    obtain ⟨name, term⟩ := e
    obtain ⟨hf, hn⟩ := nodup_cons.mp hn
    obtain ⟨⟨req, hl, ht⟩, hs⟩ := forall_mem_cons.mp hs
    rw [retire, retired]
    unfold record
    by_cases hfu : conn.recordedTerminals.length = maxRecordedTerminalsPerConnection
    · simp only [hfu, ↓reduceIte]
      exact ⟨rfl, .nil, id, id, fun _ => rfl, rfl⟩
    · simp only [hfu, ↓reduceIte, map_cons]
      let key : ActiveRequestKey :=
        ⟨cid, gen, name.authenticationNamespace, name.clientInstance, name.requestId⟩
      have hla : ∀ o ∈ stale, ∃ req, (afterRecord conn ⟨key, term⟩).requests.lookup o.1 = some req ∧
          staleTerminal req now = some o.2 := by
        intro o ho
        have hne : o.1 ≠ name := fun heq => hf (mem_map.mpr ⟨o, ho, heq⟩)
        have hk : (afterRecord conn ⟨key, term⟩).requests.lookup o.1 = conn.requests.lookup o.1 :=
          lookup_erase_ne hne
        rw [hk]
        exact hs o ho
      exact (afterRecord_effect ⟨key, term⟩ hfu hl ht).trans (ih hn hla)

/-- The loop of a reap records what it retires, after what waits already. -/
theorem retire_recordedTerminals (cid : BitVec 128) (gen : UInt64) (stale : List (RequestNamespace × RequestTerminal)) :
    (retire cid gen stale conn).recordedTerminals = conn.recordedTerminals ++ retired cid gen stale conn := by
  induction stale generalizing conn with
  | nil => exact (append_nil _).symm
  | cons e stale ih =>
    rw [retire, retired]
    unfold record
    by_cases hfu : conn.recordedTerminals.length = maxRecordedTerminalsPerConnection
    · simp only [hfu, ↓reduceIte, append_nil]
    · simp only [hfu, ↓reduceIte, ih, append_assoc, singleton_append]

/-- The events of a reap. -/
def reapEvents (connection : ConnectionLifecycle ρ) (connectionId : BitVec 128) (generation : UInt64) (now : Nat)
    (order : List RequestNamespace) : List LedgerEvent :=
  (retired connectionId generation (staleReads connection now order) connection).map .reaped

/-- A reap retires and records. -/
theorem reap_effect (conn : ConnectionLifecycle ρ) (cid : BitVec 128) (gen : UInt64) (now : Nat)
    {order : List RequestNamespace} (ho : order.Perm conn.requests.keys) :
    ConnectionEffect conn (reapEvents conn cid gen now order) (reapAcceptedLocked conn cid gen now order) := by
  have hn : order.Nodup := ho.nodup_iff.mpr conn.requests.keys_nodup
  clear ho
  refine retire_effect cid gen now _ ?_ fun e he => ?_
  · have hna : (staleReads conn now order).map (·.1) = order.filter fun name =>
        ((conn.requests.lookup name).bind (staleTerminal · now)).isSome := by
      unfold staleReads
      induction order with
      | nil => rfl
      | cons name order ih =>
        rw [filterMap_cons, filter_cons]
        cases (conn.requests.lookup name).bind (staleTerminal · now) with
        | none => simpa using ih (nodup_cons.mp hn).2
        | some term => simpa using ih (nodup_cons.mp hn).2
    rw [hna]
    exact hn.filter _
  · obtain ⟨name, -, hnam⟩ := mem_filterMap.mp he
    obtain ⟨term, ht, rfl⟩ := map_eq_some_iff.mp hnam
    obtain ⟨req, hl, hs⟩ := bind_eq_some_iff.mp ht
    exact ⟨req, hl, hs⟩

end

/-! ## Runs of the registry -/

/-- One opening of a connection. -/
abbrev Incarnation := BitVec 128 × UInt64

def ActiveRequestKey.incarnation (key : ActiveRequestKey) : Incarnation := (key.connectionId, key.connectionGeneration)

/-- The registry, the controls that are active, and the connections that were closed. -/
structure RegistryWorld (ρ : Type) where
  state : RegistryState ρ
  controls : List Incarnation
  closed : List Incarnation

/-- No connection has been opened. -/
def RegistryWorld.start : RegistryWorld ρ := ⟨∅, [], []⟩

/-- The events on a connection, if it is open. -/
def onOpen (state : RegistryState ρ) (i : Incarnation) (events : ConnectionLifecycle ρ → List LedgerEvent) :
    List (Incarnation × LedgerEvent) :=
  match connectionRef state i.1 i.2 with
  | .ok connection => (events connection).map (i, ·)
  | .error _ => []

/-- The events of an operation that succeeds. -/
def onSuccess {α : Type} (result : Except ActiveRequestError α) (events : α → List LedgerEvent) : List LedgerEvent :=
  match result with
  | .ok value => events value
  | .error _ => []

/-- The events when a worker takes a read: a read that is cancelled or out of time is taken out. -/
def executionEvents {α : Type} (name : RequestNamespace) : Except ActiveRequestError α → List LedgerEvent
  | .error .cancelled | .error .timedOut => [.removed name]
  | _ => []

/-- The order in which a reap visits the requests of a connection. -/
def Visits (state : RegistryState ρ) (i : Incarnation) (order : List RequestNamespace) : Prop :=
  ∀ connection, connectionRef state i.1 i.2 = .ok connection → order.Perm connection.requests.keys

/-- One operation of the registry. A generation is not used again after its connection was closed, and a control is released
once. -/
inductive RegistryStep : RegistryWorld ρ → List (Incarnation × LedgerEvent) → RegistryWorld ρ → Prop where
  | openConnection (world : RegistryWorld ρ) (i : Incarnation) (hfresh : i ∉ world.closed) :
      RegistryStep world [] { world with state := (Registry.openConnection world.state i.1 i.2).2 }
  | register (world : RegistryWorld ρ) (key : ActiveRequestKey) (deadline : Nat) (acceptedRead : Option ρ) (now : Nat)
      (order : List RequestNamespace) (horder : Visits world.state key.incarnation order) :
      RegistryStep world (onOpen world.state key.incarnation fun connection =>
          reapEvents connection key.connectionId key.connectionGeneration now order ++
            onSuccess (Registry.register world.state key deadline acceptedRead now order).1 fun _ => [.registered key.namespace])
        { world with state := (Registry.register world.state key deadline acceptedRead now order).2 }
  | beginControl (world : RegistryWorld ρ) (key : ActiveRequestKey) (h : (Registry.beginControl world.state key).1 = .ok ()) :
      RegistryStep world []
        { world with
          state := (Registry.beginControl world.state key).2
          controls := key.incarnation :: world.controls }
  | releaseControl (world : RegistryWorld ρ) (i : Incarnation) (h : i ∈ world.controls) : RegistryStep world []
        { world with state := Registry.finishControl world.state i.1 i.2, controls := world.controls.erase i }
  | beginExecution (world : RegistryWorld ρ) (key : ActiveRequestKey) (now : Nat) : RegistryStep world
        (onOpen world.state key.incarnation fun _ =>
          executionEvents key.namespace (Registry.beginExecution world.state key now).1)
        { world with state := (Registry.beginExecution world.state key now).2 }
  | cancel (world : RegistryWorld ρ) (key : ActiveRequestKey) : RegistryStep world (onOpen world.state key.incarnation fun _ =>
          onSuccess (Registry.cancel world.state key).1 fun _ => [.cancelled key.namespace])
        { world with state := (Registry.cancel world.state key).2 }
  | abort (world : RegistryWorld ρ) (key : ActiveRequestKey) (now : Nat) : RegistryStep world
        (onOpen world.state key.incarnation fun _ =>
          onSuccess (Registry.abortAccepted world.state key now).1 fun _ => [.removed key.namespace])
        { world with state := (Registry.abortAccepted world.state key now).2 }
  | reap (world : RegistryWorld ρ) (i : Incarnation) (now : Nat) (order : List RequestNamespace)
      (horder : Visits world.state i order) :
      RegistryStep world (onOpen world.state i fun connection => reapEvents connection i.1 i.2 now order ++
          onSuccess (Registry.reapAccepted world.state i.1 i.2 now order).1 fun drain => drain.1.map .returned)
        { world with state := (Registry.reapAccepted world.state i.1 i.2 now order).2 }
  | finish (world : RegistryWorld ρ) (key : ActiveRequestKey) (now : Nat) : RegistryStep world
        (onOpen world.state key.incarnation fun _ =>
          onSuccess (Registry.finish world.state key now).1 fun _ => [.removed key.namespace])
        { world with state := (Registry.finish world.state key now).2 }
  | disconnect (world : RegistryWorld ρ) (i : Incarnation) : RegistryStep world (onOpen world.state i fun connection =>
          connection.requests.keys.map .removed ++ connection.recordedTerminals.map .dropped)
        { world with
          state := Registry.disconnect world.state i.1 i.2
          closed := if (connectionRef world.state i.1 i.2).isOk then i :: world.closed else world.closed }

/-! ## The connections that are open -/

/-- The connection of an identifier and a generation, if it is open. -/
def openAt (state : RegistryState ρ) (i : Incarnation) : Option (ConnectionLifecycle ρ) :=
  (state.lookup i.1).filter fun connection => connection.generation = i.2

section

variable {st : RegistryState ρ} {i : Incarnation} {conn after : ConnectionLifecycle ρ}

theorem connectionRef_eq : connectionRef st i.1 i.2 = .ok conn ↔ openAt st i = some conn := by
  unfold connectionRef openAt
  cases st.lookup i.1 with
  | none => simp
  | some found =>
    by_cases hg : found.generation = i.2 <;> simp [Option.filter, hg]

theorem openAt_eq_none {error : ActiveRequestError} (h : connectionRef st i.1 i.2 = .error error) : openAt st i = none := by
  refine eq_none_iff_forall_ne_some.mpr fun conn hopen => ?_
  rw [connectionRef_eq.mpr hopen] at h
  cases h

/-- A connection id is open in one generation. -/
theorem openAt_other {j : Incarnation} (hne : j ≠ i) (hid : j.1 = i.1) (hl : st.lookup i.1 = some conn)
    (hg : conn.generation = i.2) : openAt st j = none := by
  have ho : ¬conn.generation = j.2 := fun h => hne (Prod.ext hid (h.symm.trans hg))
  rw [openAt, hid, hl]
  simp [Option.filter, ho]

theorem openAt_generation (h : openAt st i = some conn) : conn.generation = i.2 :=
  of_decide_eq_true (filter_eq_some_iff.mp h).2

theorem openAt_insert (after : ConnectionLifecycle ρ) (hg : after.generation = i.2)
    (hb : st.lookup i.1 = none ∨ ∃ conn, openAt st i = some conn) :
    openAt (st.insert i.1 after) = Function.update (openAt st) i (some after) := by
  funext j
  by_cases hji : j = i
  · subst hji
    rw [openAt]
    simp [Option.filter, hg]
  · rw [Function.update_of_ne hji]
    by_cases hid : j.1 = i.1
    · rw [openAt_other hji hid (lookup_insert _) hg]
      rcases hb with hn | ⟨conn, hopen⟩
      · rw [openAt, hid, hn, filter_none]
      · exact (openAt_other hji hid (filter_eq_some_iff.mp hopen).1 (openAt_generation hopen)).symm
    · rw [openAt, openAt, lookup_insert_ne hid]

theorem openAt_erase (hopen : openAt st i = some conn) : openAt (st.erase i.1) = Function.update (openAt st) i none := by
  funext j
  by_cases hid : j.1 = i.1
  · rw [openAt, hid, lookup_erase, filter_none]
    by_cases hji : j = i
    · rw [hji, Function.update_self]
    · rw [Function.update_of_ne hji, openAt_other hji hid (filter_eq_some_iff.mp hopen).1 (openAt_generation hopen)]
  · rw [Function.update_of_ne fun h => hid (congrArg _ h), openAt, openAt, lookup_erase_ne hid]

end

/-- What the registry has for one connection: the connection if it is open, its active controls, and whether it was closed. -/
structure ConnectionView (ρ : Type) where
  connection : Option (ConnectionLifecycle ρ)
  controls : Nat
  isClosed : Bool

def RegistryWorld.viewAt (world : RegistryWorld ρ) (i : Incarnation) : ConnectionView ρ :=
  ⟨openAt world.state i, world.controls.count i, world.closed.contains i⟩

/-- A connection that is closed loses its requests and its terminals, one after the other. -/
theorem run_close (conn : ConnectionLifecycle ρ) : Run Ledger.Step (ledgerOf conn)
    (conn.requests.keys.map .removed ++ conn.recordedTerminals.map .dropped) .empty := by
  suffices hr : ∀ (names : List RequestNamespace) (life : RequestNamespace → Option Bool), names.Nodup →
      (∀ name, life name ≠ none ↔ name ∈ names) →
      Run Ledger.Step ⟨life, conn.recordedTerminals⟩ (names.map .removed) ⟨fun _ => none, conn.recordedTerminals⟩ by
    refine (hr _ _ conn.requests.keys_nodup fun name => ?_).append (Ledger.run_pending _ _ fun _ _ => .dropped)
    rw [← AList.mem_keys, ← AList.lookup_isSome]
    cases conn.requests.lookup name <;> simp
  intro names
  induction names with
  | nil =>
    intro life _ hl
    have hno : life = fun _ => none := funext fun name => not_not.mp fun h => not_mem_nil ((hl name).mp h)
    exact hno ▸ .nil
  | cons name names ih =>
    intro life hn hl
    obtain ⟨hf, hn⟩ := nodup_cons.mp hn
    refine (Ledger.run_single (.removed ((hl name).mpr mem_cons_self))).append (ih _ hn fun o => ?_)
    rcases eq_or_ne o name with rfl | hne
    · simp [hf]
    · simp [hne, hl o]

/-- What a step may do to a connection, whichever operation it is. -/
inductive ConnectionChange : ConnectionView ρ → List LedgerEvent → ConnectionView ρ → Prop where
  | same (view : ConnectionView ρ) : ConnectionChange view [] view
  | changed {connection after : ConnectionLifecycle ρ} {controls : Nat} {isClosed : Bool} {events : List LedgerEvent}
      (heffect : ConnectionEffect connection events after) :
      ConnectionChange ⟨some connection, controls, isClosed⟩ events ⟨some after, controls, isClosed⟩
  | control {connection : ConnectionLifecycle ρ} {controls : Nat} {isClosed : Bool}
      (hroom : connection.activeControls < maxControlRequestsPerConnection) :
      ConnectionChange ⟨some connection, controls, isClosed⟩ []
        ⟨some { connection with activeControls := connection.activeControls + 1 }, controls + 1, isClosed⟩
  | release {connection : Option (ConnectionLifecycle ρ)} {controls : Nat} {isClosed : Bool} :
      ConnectionChange ⟨connection, controls + 1, isClosed⟩ []
        ⟨connection.map fun c => { c with activeControls := c.activeControls - 1 }, controls, isClosed⟩
  | opened {generation : UInt64} {controls : Nat} :
      ConnectionChange ⟨none, controls, false⟩ [] ⟨some (⟨generation, ∅, 0, [], false⟩ : ConnectionLifecycle ρ), controls, false⟩
  | closed {connection : ConnectionLifecycle ρ} {controls : Nat} {isClosed : Bool} :
      ConnectionChange ⟨some connection, controls, isClosed⟩
        (connection.requests.keys.map .removed ++ connection.recordedTerminals.map .dropped) ⟨none, controls, true⟩

/-- A step changes one connection and leaves the others alone. -/
structure ChangesOne (world : RegistryWorld ρ) (i : Incarnation) (events : List LedgerEvent)
    (world' : RegistryWorld ρ) : Prop where
  change : ConnectionChange (world.viewAt i) events (world'.viewAt i)
  others : ∀ j, j ≠ i → world'.viewAt j = world.viewAt j

section

variable {world : RegistryWorld ρ} {i : Incarnation}

theorem ChangesOne.same (world : RegistryWorld ρ) (i : Incarnation) : ChangesOne world i [] world :=
  ⟨.same _, fun _ _ => rfl⟩

/-- An operation on a connection, from its effect on an open one. -/
theorem change_onConnection {α : Type} (i : Incarnation)
    {op : ConnectionLifecycle ρ → Except ActiveRequestError α × ConnectionLifecycle ρ}
    (evs : Except ActiveRequestError α → ConnectionLifecycle ρ → List LedgerEvent)
    (h : ∀ conn, connectionRef world.state i.1 i.2 = .ok conn → ConnectionEffect conn (evs (op conn).1 conn) (op conn).2) :
    ∃ i' es, onOpen world.state i (fun conn => evs (onConnection world.state i.1 i.2 op).1 conn) =
        es.map (i', ·) ∧ ChangesOne world i' es { world with state := (onConnection world.state i.1 i.2 op).2 } := by
  unfold onOpen onConnection
  cases hopen : connectionRef world.state i.1 i.2 with
  | error error => exact ⟨i, [], rfl, .same world i⟩
  | ok conn =>
    have he := h conn hopen
    rw [connectionRef_eq] at hopen
    have ha := openAt_insert _ (he.generation.trans (openAt_generation hopen)) (.inr ⟨_, hopen⟩)
    refine ⟨i, _, rfl, ?_, fun j hne => ?_⟩
    · simp only [RegistryWorld.viewAt, ha, Function.update_self, hopen]
      exact .changed he
    · simp only [RegistryWorld.viewAt, ha, Function.update_of_ne hne]

end

/-- Every step changes at most one connection, in one of these ways. -/
theorem RegistryStep.change {world world' : RegistryWorld ρ} {evs : List (Incarnation × LedgerEvent)}
    (h : RegistryStep world evs world') : ∃ i es, evs = es.map (i, ·) ∧ ChangesOne world i es world' := by
  cases h with
  | openConnection i hf =>
    unfold Registry.openConnection
    split
    · exact ⟨i, [], rfl, .same world i⟩
    · split
      · exact ⟨i, [], rfl, .same world i⟩
      · next hn =>
        have hb : openAt world.state i = none := by rw [openAt, hn, filter_none]
        have ha := openAt_insert ⟨i.2, ∅, 0, [], false⟩ rfl (.inl hn)
        refine ⟨i, [], rfl, ?_, fun j hne => ?_⟩
        · simp only [RegistryWorld.viewAt, ha, Function.update_self, hb, contains_eq_mem, hf, decide_false]
          exact .opened
        · simp only [RegistryWorld.viewAt, ha, Function.update_of_ne hne]
  | register key deadline acceptedRead now order ho =>
    refine change_onConnection key.incarnation (fun res conn =>
      reapEvents conn key.connectionId key.connectionGeneration now order ++
        onSuccess res fun _ => [.registered key.namespace]) fun conn hopen => ?_
    have hr := reap_effect conn key.connectionId key.connectionGeneration now (ho conn hopen)
    dsimp only
    split
    · exact hr.trans (.refl _)
    · split
      · exact hr.trans (.refl _)
      · next hnew =>
        split
        · exact hr.trans (.refl _)
        · next hro => exact hr.trans (effect_register hnew (not_le.mp hro) rfl)
  | beginControl key h =>
    unfold Registry.beginControl onConnection at h ⊢
    cases hopen : connectionRef world.state key.connectionId key.connectionGeneration with
    | error error => rw [hopen] at h; cases h
    | ok conn =>
      rw [hopen] at h
      dsimp only at h ⊢
      split at h
      · cases h
      · next hro =>
        rw [if_neg hro]
        have hopen' : openAt world.state key.incarnation = some conn := connectionRef_eq.mp hopen
        have ha : openAt (world.state.insert key.connectionId { conn with activeControls := conn.activeControls + 1 }) = _ :=
          openAt_insert { conn with activeControls := conn.activeControls + 1 } (openAt_generation hopen' :) (.inr ⟨_, hopen'⟩)
        refine ⟨key.incarnation, [], rfl, ?_, fun j hne => ?_⟩
        · simp only [RegistryWorld.viewAt, count_cons_self, hopen', ha, Function.update_self]
          exact .control (not_le.mp hro)
        · simp only [RegistryWorld.viewAt, count_cons_of_ne (Ne.symm hne), ha, Function.update_of_ne hne]
  | releaseControl i h =>
    unfold Registry.finishControl onConnection
    obtain ⟨controls, hc⟩ := Nat.exists_eq_add_one_of_ne_zero (Nat.ne_of_gt (count_pos_iff.mpr h))
    have hot : ∀ j, j ≠ i → (world.controls.erase i).count j = world.controls.count j := fun j hne =>
      count_erase_of_ne hne
    cases hopen : connectionRef world.state i.1 i.2 with
    | error error =>
      refine ⟨i, [], rfl, ?_, fun j hne => ?_⟩
      · simp only [RegistryWorld.viewAt, count_erase_self, hc, openAt_eq_none hopen]
        exact .release
      · simp only [RegistryWorld.viewAt, hot j hne]
    | ok conn =>
      rw [connectionRef_eq] at hopen
      have ha := openAt_insert { conn with activeControls := conn.activeControls - 1 }
        (openAt_generation hopen :) (.inr ⟨_, hopen⟩)
      refine ⟨i, [], rfl, ?_, fun j hne => ?_⟩
      · simp only [RegistryWorld.viewAt, count_erase_self, hc, ha, Function.update_self, hopen]
        exact .release
      · simp only [RegistryWorld.viewAt, hot j hne, ha, Function.update_of_ne hne]
  | beginExecution key now =>
    refine change_onConnection key.incarnation (fun res _ => executionEvents key.namespace res) fun conn _ => ?_
    split
    · exact .refl conn
    · next req hl =>
      split
      · exact effect_erase hl
      · split
        · exact effect_erase hl
        · split
          · exact .refl conn
          · have hs : (ledgerOf conn).set key.namespace (some req.isCancelled) = ledgerOf conn := by
              have hli : (ledgerOf conn).life key.namespace = some req.isCancelled := by simp [ledgerOf, hl]
              rw [Ledger.set, ← hli, Function.update_eq_self]
            refine effect_update hl ?_
            rw [hs]
            exact .nil
  | cancel key =>
    refine change_onConnection key.incarnation (fun res _ => onSuccess res fun _ => [.cancelled key.namespace]) fun conn _ => ?_
    split
    · exact .refl conn
    · next req hl => exact effect_update hl (Ledger.run_single (.cancelled (life_ne_none hl)))
  | abort key now =>
    refine change_onConnection key.incarnation (fun res _ => onSuccess res fun _ => [.removed key.namespace]) fun conn _ => ?_
    split
    · exact .refl conn
    · next req hl =>
      split
      · exact .refl conn
      · exact effect_erase hl
  | reap i now order ho =>
    refine change_onConnection i (fun res conn => reapEvents conn i.1 i.2 now order ++
      onSuccess res fun drain : List RecordedTerminal × Bool => drain.1.map .returned) fun conn hopen => ?_
    exact (reap_effect conn i.1 i.2 now (ho conn hopen)).trans
      ⟨rfl, Ledger.run_pending _ _ fun _ _ => .returned, id, fun _ => Nat.zero_le _, id, rfl⟩
  | finish key now =>
    refine change_onConnection key.incarnation (fun res _ => onSuccess res fun _ => [.removed key.namespace]) fun conn _ => ?_
    split
    · exact .refl conn
    · next req hl => exact effect_erase hl
  | disconnect i =>
    unfold onOpen Registry.disconnect
    cases hopen : connectionRef world.state i.1 i.2 with
    | error error => exact ⟨i, [], rfl, .same world i⟩
    | ok conn =>
      rw [connectionRef_eq] at hopen
      refine ⟨i, _, rfl, ?_, fun j hne => ?_⟩
      · simp only [RegistryWorld.viewAt, openAt_erase hopen, Function.update_self, hopen, Except.isOk, Except.toBool, ↓reduceIte,
          contains_cons, beq_self_eq_true, Bool.true_or]
        exact .closed
      · simp only [RegistryWorld.viewAt, openAt_erase hopen, Function.update_of_ne hne, Except.isOk, Except.toBool, ↓reduceIte,
          contains_cons, beq_eq_false_iff_ne.mpr hne, Bool.false_or]

/-! ## What holds in every run -/

/-- The ledger of a connection. -/
def ConnectionView.ledger (view : ConnectionView ρ) : Ledger := view.connection.elim .empty ledgerOf

/-- The invariant: the bounds of a connection, and controls only of connections that are open or closed. -/
structure ConnectionView.Sound (view : ConnectionView ρ) : Prop where
  requests : ∀ connection ∈ view.connection, connection.requests.keys.length ≤ maxActiveRequestsPerConnection
  terminals : ∀ connection ∈ view.connection, connection.recordedTerminals.length ≤ maxRecordedTerminalsPerConnection
  active : ∀ connection ∈ view.connection, connection.activeControls = view.controls
  controls : view.controls ≤ maxControlRequestsPerConnection
  notClosed : view.connection ≠ none → view.isClosed = false
  unused : view.connection = none → view.isClosed = false → view.controls = 0

section

variable {view view' : ConnectionView ρ} {evs : List LedgerEvent}

/-- Soundness of one connection is kept. -/
theorem ConnectionChange.sound (h : ConnectionChange view evs view') (hs : view.Sound) : view'.Sound := by
  obtain ⟨hr, ht, ha, hc, hn, hu⟩ := hs
  cases h with
  | same => exact ⟨hr, ht, ha, hc, hn, hu⟩
  | @changed conn _ _ _ _ he =>
    refine ⟨?_, ?_, ?_, hc, fun _ => hn nofun, nofun⟩
    · rintro _ ⟨⟩
      exact he.requests (hr conn rfl)
    · rintro _ ⟨⟩
      exact he.terminals (ht conn rfl)
    · rintro _ ⟨⟩
      exact he.controls.trans (ha conn rfl)
  | @control conn _ _ hro =>
    have hco := ha conn rfl
    refine ⟨?_, ?_, ?_, (hco ▸ hro :), fun _ => hn nofun, nofun⟩
    · rintro _ ⟨⟩
      exact hr conn rfl
    · rintro _ ⟨⟩
      exact ht conn rfl
    · rintro _ ⟨⟩
      exact congrArg (· + 1) hco
  | @release conn =>
    have hl := Nat.le_of_succ_le hc
    cases conn with
    | none => exact ⟨nofun, nofun, nofun, hl, fun h => absurd rfl h, fun _ hopen => nomatch hu rfl hopen⟩
    | some conn =>
      refine ⟨?_, ?_, ?_, hl, fun _ => hn nofun, nofun⟩
      · rintro _ ⟨⟩
        exact hr conn rfl
      · rintro _ ⟨⟩
        exact ht conn rfl
      · rintro _ ⟨⟩
        exact congrArg (· - 1) (ha conn rfl)
  | opened =>
    obtain rfl := hu rfl rfl
    refine ⟨?_, ?_, ?_, hc, fun _ => rfl, nofun⟩ <;> rintro _ ⟨⟩
    · exact Nat.zero_le _
    · exact Nat.zero_le _
    · rfl
  | closed => exact ⟨nofun, nofun, nofun, hc, fun h => absurd rfl h, nofun⟩

/-- A change of a connection is a run of its ledger. -/
theorem ConnectionChange.ledger (h : ConnectionChange view evs view') : Run Ledger.Step view.ledger evs view'.ledger := by
  cases h with
  | same | control | opened => exact .nil
  | changed he => exact he.ledger
  | @release conn => cases conn <;> exact .nil
  | closed => exact run_close _

/-- A connection that has to be closed, or was. -/
def ConnectionView.Closing (view : ConnectionView ρ) : Prop :=
  view.connection.elim (view.isClosed = true) fun connection => connection.mustClose = true

/-- A connection that must close stays so. -/
theorem ConnectionChange.closing (h : ConnectionChange view evs view') (hc : view.Closing) : view'.Closing := by
  cases h with
  | same | control => exact hc
  | changed he => exact he.mustClose hc
  | @release conn => cases conn <;> exact hc
  | opened => cases hc
  | closed => rfl

end

/-- The events of one connection. -/
def eventsOf (i : Incarnation) (events : List (Incarnation × LedgerEvent)) : List LedgerEvent :=
  (events.filter fun event => event.1 = i).map (·.2)

/-- What a step of the registry is to one connection. -/
theorem RegistryStep.changeAt {world world' : RegistryWorld ρ} {evs : List (Incarnation × LedgerEvent)}
    (h : RegistryStep world evs world') (j : Incarnation) :
    ConnectionChange (world.viewAt j) (eventsOf j evs) (world'.viewAt j) := by
  obtain ⟨i, es, rfl, hc, ho⟩ := h.change
  by_cases hji : j = i
  · subst hji
    have he : eventsOf j (es.map (j, ·)) = es := by simp [eventsOf, List.filter_map, Function.comp_def]
    rwa [he]
  · have he : eventsOf j (es.map (i, ·)) = [] := by simp [eventsOf, List.filter_map, Function.comp_def, Ne.symm hji]
    rw [he, ho j hji]
    exact .same _

/-- A connection that has to be closed registers nothing. -/
theorem register_of_closing {world : RegistryWorld ρ} {key : ActiveRequestKey} (h : (world.viewAt key.incarnation).Closing)
    (deadline : Nat) (acceptedRead : Option ρ) (now : Nat)
    {order : List RequestNamespace} (ho : Visits world.state key.incarnation order) :
    (Registry.register world.state key deadline acceptedRead now order).1 ≠ .ok () := by
  unfold Registry.register onConnection
  cases hopen : connectionRef world.state key.connectionId key.connectionGeneration with
  | error error => exact fun hok => (by cases hok)
  | ok conn =>
    have hopen' : (world.viewAt key.incarnation).connection = some conn := connectionRef_eq.mp hopen
    have hc : conn.mustClose = true := by rwa [ConnectionView.Closing, hopen'] at h
    dsimp only
    rw [if_pos ((reap_effect conn _ _ now (ho conn hopen)).mustClose hc)]
    exact fun hok => (by cases hok)

/-- A reap of an open connection hands out the terminals that wait and those it retires, and leaves none. -/
theorem reapAccepted_drains {st : RegistryState ρ} {i : Incarnation} {conn : ConnectionLifecycle ρ}
    (hopen : openAt st i = some conn) (now : Nat) {order : List RequestNamespace} (ho : Visits st i order) :
    ∃ mustClose after, (reapAccepted st i.1 i.2 now order).1 =
        .ok (conn.recordedTerminals ++ retired i.1 i.2 (staleReads conn now order) conn, mustClose) ∧
      openAt (reapAccepted st i.1 i.2 now order).2 i = some after ∧ after.recordedTerminals = [] := by
  unfold reapAccepted onConnection
  rw [connectionRef_eq.mpr hopen]
  refine ⟨(reapAcceptedLocked conn i.1 i.2 now order).mustClose,
    { reapAcceptedLocked conn i.1 i.2 now order with recordedTerminals := [] }, ?_, ?_, rfl⟩
  · dsimp only
    rw [← retire_recordedTerminals]
    rfl
  · have he := reap_effect conn i.1 i.2 now (ho conn (connectionRef_eq.mpr hopen))
    have ha := openAt_insert { reapAcceptedLocked conn i.1 i.2 now order with recordedTerminals := [] }
      (he.generation.trans (openAt_generation hopen) :) (.inr ⟨_, hopen⟩)
    exact (congrFun ha i).trans (Function.update_self ..)

/-- In every run of the registry each connection stays within its bounds, each ledger follows its rules, a reap hands out every
terminal that waits or that it retires and leaves none, and a connection that has to be closed stays so and registers nothing
more. -/
theorem registry_run_sound {world : RegistryWorld ρ} {steps : List (List (Incarnation × LedgerEvent))}
    (hrun : Run RegistryStep .start steps world) :
    (∀ i, world.controls.count i ≤ maxControlRequestsPerConnection ∧ ∀ connection, openAt world.state i = some connection →
      connection.requests.keys.length ≤ maxActiveRequestsPerConnection ∧ connection.activeControls = world.controls.count i ∧
        connection.recordedTerminals.length ≤ maxRecordedTerminalsPerConnection) ∧
    (∀ i, Run Ledger.Step .empty (eventsOf i steps.flatten) ((openAt world.state i).elim .empty ledgerOf)) ∧
    (∀ i connection, openAt world.state i = some connection → ∀ now order, Visits world.state i order →
      ∃ mustClose after, (Registry.reapAccepted world.state i.1 i.2 now order).1 =
          .ok (connection.recordedTerminals ++ retired i.1 i.2 (staleReads connection now order) connection, mustClose) ∧
        openAt (Registry.reapAccepted world.state i.1 i.2 now order).2 i = some after ∧ after.recordedTerminals = []) ∧
    ∀ i connection, openAt world.state i = some connection → connection.mustClose = true →
      ∀ later world', Run RegistryStep world later world' →
        (∀ after, openAt world'.state i = some after → after.mustClose = true) ∧
        ∀ (key : ActiveRequestKey) (deadline : Nat) (acceptedRead : Option ρ) (now : Nat) (order : List RequestNamespace),
          key.incarnation = i → Visits world'.state i order →
            (Registry.register world'.state key deadline acceptedRead now order).1 ≠ .ok () := by
  have hst : ∀ i, (RegistryWorld.start (ρ := ρ).viewAt i).Sound := fun i => by
    constructor <;> simp [RegistryWorld.viewAt, openAt, RegistryWorld.start]
  have hs : ∀ i, (world.viewAt i).Sound := fun i =>
    hrun.state_invariant (I := fun world => (world.viewAt i).Sound) (hst i) fun _ _ _ hb hste => (hste.changeAt i).sound hb
  refine ⟨fun i => ⟨(hs i).controls, fun connection hopen => ⟨(hs i).requests _ hopen, (hs i).active _ hopen,
    (hs i).terminals _ hopen⟩⟩, fun i => ?_, fun i connection hopen now order ho => reapAccepted_drains hopen now ho, ?_⟩
  · refine hrun.invariant (I := fun steps world => Run Ledger.Step .empty (eventsOf i steps.flatten) (world.viewAt i).ledger) .nil
      fun steps _ events _ hb hste => ?_
    rw [flatten_append, flatten_singleton, eventsOf, filter_append, map_append]
    exact hb.append (hste.changeAt i).ledger
  · intro i connection hopen hcl later world' hl
    have hst : (world.viewAt i).Closing := by rw [RegistryWorld.viewAt, hopen]; exact hcl
    have hc := hl.state_invariant (I := fun world => (world.viewAt i).Closing) hst
      fun _ _ _ hb hste => (hste.changeAt i).closing hb
    refine ⟨fun after ha => ?_, ?_⟩
    · rwa [RegistryWorld.viewAt, ha] at hc
    · rintro key deadline acceptedRead now order rfl ho
      exact register_of_closing hc deadline acceptedRead now ho

/-- A request on the first connection. -/
def firstKey : ActiveRequestKey := ⟨1, 1, 0, 0, 5⟩

/-- A read is accepted and runs out of time; the reap inside the next registration records its terminal, and the reap that follows
hands it out. -/
theorem registry_run_sound_timed_out : ∃ (world : RegistryWorld Unit) (steps : List (List (Incarnation × LedgerEvent))),
    Run RegistryStep .start steps world ∧
      eventsOf (1, 1) steps.flatten = [.registered firstKey.namespace, .reaped ⟨firstKey, .timedOut⟩,
        .registered { firstKey.namespace with requestId := 6 }] ∧
      Run Ledger.Step .empty (eventsOf (1, 1) steps.flatten) ((openAt world.state (1, 1)).elim .empty ledgerOf) ∧
      ∃ mustClose after, (Registry.reapAccepted world.state 1 1 30 [{ firstKey.namespace with requestId := 6 }]).1 =
          .ok ([⟨firstKey, .timedOut⟩], mustClose) ∧
        openAt (Registry.reapAccepted world.state 1 1 30 [{ firstKey.namespace with requestId := 6 }]).2 (1, 1) = some after ∧
        after.recordedTerminals = [] := by
  have hopened := Run.nil.snoc (RegistryStep.openConnection (RegistryWorld.start (ρ := Unit)) (1, 1) (by decide))
  have hr := hopened.snoc (.register _ firstKey 10 (some ()) 0 [] (by
    intro connection hopen
    obtain rfl := Except.ok.inj hopen
    exact .nil))
  have hre := hr.snoc (.register _ { firstKey with requestId := 6 } 50 (some ()) 20 [firstKey.namespace] (by
    intro connection hopen
    obtain rfl := Except.ok.inj hopen
    exact .refl _))
  obtain ⟨-, hl, hd, -⟩ := registry_run_sound hre
  refine ⟨_, _, hre, rfl, hl (1, 1), ?_⟩
  exact hd (1, 1) _ rfl 30 [{ firstKey.namespace with requestId := 6 }] (by
    intro connection hopen
    obtain rfl := Except.ok.inj hopen
    exact .refl _)

end Ame
