import MantaIndexer.Relayer.SubClientPool

/-!
Which backend connections the relay still holds. A client is stored under the id of the connection
that asked for it and is never removed, so it outlives the connection exactly when the connection
closes after the client was stored, or before it.
-/

namespace MantaIndexer.Relayer
open Effects

/-! ### What a call stores -/

/-- The answers a call can get: its subscription belongs to its own connection. -/
def Answers (connId : ConnectionId) : Sem Unit Op.Res
  | _, .accept, key?, _ => ∀ key : SubscriptionKey, key? = some key → key.connId = connId
  | _, _, _, _ => True

abbrev Stores {α : Type} (connId : ConnectionId) (call : Call α) : Prop :=
  Ensures (Answers connId) (fun _ _ => True)
    (fun _ op _ => ∀ id client, op = .insert id client → id = connId) (fun _ _ => True) call ()

theorem getClient_stores {backendUri : String} {key : SubscriptionKey} :
    Stores key.connId (getClient backendUri key) := by
  unfold getClient
  refine fun _ _ present _ _ => ⟨nofun, ?_⟩
  cases present with
  | false =>
    refine fun _ _ built _ _ => ⟨nofun, ?_⟩
    cases built with
    | error error => exact fun _ _ => trivial
    | ok client =>
      refine fun _ _ _ _ _ => ⟨?_, fun _ _ => trivial⟩
      rintro id stored ⟨⟩
      rfl
  | true =>
    refine fun _ _ client _ _ => ⟨nofun, ?_⟩
    cases client <;> exact fun _ _ => trivial

theorem subscribe_stores {connId : ConnectionId} {backendUri subMethod : String}
    {params : Option String} {unsubMethod : String} :
    Stores connId (subscribe backendUri subMethod params unsubMethod) := by
  unfold subscribe
  intro _ _ accepted _ own
  refine ⟨nofun, ?_⟩
  cases accepted with
  | none => exact fun _ _ => trivial
  | some key =>
    obtain rfl := own key rfl
    refine Ensures.bind (p := getClient backendUri key) (fun _ => trivial) ?_
    refine getClient_stores.mono fun out _ _ => ?_
    cases out with
    | error error => exact fun _ _ => trivial
    | ok client =>
      refine fun _ _ subscribed _ _ => ⟨nofun, ?_⟩
      cases subscribed with
      | error error => exact fun _ _ => trivial
      | ok _ => exact fun _ _ _ _ _ => ⟨nofun, fun _ _ => trivial⟩

namespace Relay

variable {r r' : Relay} {event : Event}

theorem answer_answers (r : Relay) (connId : ConnectionId) (error : Option RelayError) (op : Op) :
    Answers connId () op (r.answer connId error op).1 () := by
  cases op with
  | accept =>
    intro key found
    cases error with
    | none =>
      obtain rfl := Option.some.inj found
      rfl
    | some error => cases found
  | _ => trivial

/-! ### What a step changes -/

/-- The connections and the clients after a step: one connection more or less, a client stored, or
no change. -/
inductive Changes (r : Relay) : Event → Relay → Prop where
  | connects {r' : Relay} (ids : r'.connections = r.nextId :: r.connections)
      (next : r'.nextId = r.nextId + 1) (clients : r'.clients = r.clients) :
      Changes r .connect r'
  | closes {connId : ConnectionId} {r' : Relay} (wasOpen : connId ∈ r.connections)
      (ids : r'.connections = r.connections.erase connId) (next : r'.nextId = r.nextId)
      (clients : r'.clients = r.clients) : Changes r (.disconnect connId) r'
  | stores {i : Nat} {error : Option RelayError} {connId id : ConnectionId} {client : WsClient}
      {rest : Unit → Call Unit} {r' : Relay}
      (call : r.calls[i]? = some (connId, .perform (.insert id client) rest))
      (ids : r'.connections = r.connections) (next : r'.nextId = r.nextId)
      (clients : r'.clients = r.clients.insert id client) : Changes r (.proceed i error) r'
  | nothing {event : Event} {r' : Relay} (ids : r'.connections = r.connections)
      (next : r'.nextId = r.nextId) (clients : r'.clients = r.clients)
      (stays : ∀ connId, event ≠ .disconnect connId)
      (no : ∀ i error connId id client rest, event = .proceed i error →
        r.calls[i]? ≠ some (connId, .perform (.insert id client) rest)) : Changes r event r'

theorem endRelay_some {key : SubscriptionKey} (h : r.endRelay key = some r') :
    r' = { r with
      relays := r.relays.erase key
      relayingSubChannelNum := r.relayingSubChannelNum - 1 } ∧ key ∈ r.relays := by
  unfold endRelay at h
  split at h
  · rename_i running
    exact ⟨(Option.some.inj h).symm, running⟩
  · cases h

theorem step_changes (h : r.step event = some r') : Changes r event r' := by
  cases event with
  | connect =>
    obtain rfl := Option.some.inj h
    exact .connects rfl rfl rfl
  | subscribe connId subMethod params unsubMethod =>
    simp only [step] at h
    split at h
    · obtain rfl := Option.some.inj h
      exact .nothing rfl rfl rfl nofun nofun
    · cases h
  | proceed i error =>
    simp only [step] at h
    split at h
    · cases h
    · rename_i call
      obtain rfl := Option.some.inj h
      refine .nothing rfl rfl rfl nofun ?_
      rintro _ _ _ _ _ _ ⟨⟩ other
      cases call.symm.trans other
    · rename_i call
      obtain rfl := Option.some.inj h
      refine .nothing rfl rfl rfl nofun ?_
      rintro _ _ _ _ _ _ ⟨⟩ other
      cases call.symm.trans other
    · rename_i connId op rest call
      obtain rfl := Option.some.inj h
      cases op with
      | insert id client => exact .stores call rfl rfl rfl
      | _ =>
        refine .nothing ?_ ?_ ?_ nofun ?_
        case refine_4 =>
          rintro _ _ _ _ _ _ ⟨⟩ other
          cases call.symm.trans other
        all_goals cases error <;> rfl
  | unsubscribe key =>
    obtain ⟨rfl, -⟩ := endRelay_some h
    exact .nothing rfl rfl rfl nofun nofun
  | streamEnded key closed =>
    obtain ⟨rfl, -⟩ := endRelay_some h
    exact .nothing rfl rfl rfl nofun nofun
  | disconnect connId =>
    simp only [step] at h
    split at h
    · rename_i wasOpen
      obtain rfl := Option.some.inj h
      exact .closes wasOpen rfl rfl rfl
    · cases h

theorem step_calls (h : r.step event = some r') :
    ∀ call ∈ r'.calls, call ∈ r.calls ∨ (call.1 ∈ r.connections ∧ Stores call.1 call.2) ∨
      ∃ op rest error, (call.1, .perform op rest) ∈ r.calls ∧
        call.2 = rest (r.answer call.1 error op).1 := by
  intro call member
  cases event with
  | connect =>
    obtain rfl := Option.some.inj h
    exact .inl member
  | subscribe connId subMethod params unsubMethod =>
    simp only [step] at h
    split at h
    · rename_i isOpen
      obtain rfl := Option.some.inj h
      rcases List.mem_cons.mp member with rfl | old
      · exact .inr (.inl ⟨isOpen, subscribe_stores⟩)
      · exact .inl old
    · cases h
  | proceed i error =>
    simp only [step] at h
    split at h
    · cases h
    · obtain rfl := Option.some.inj h
      exact .inl (List.mem_of_mem_eraseIdx member)
    · obtain rfl := Option.some.inj h
      exact .inl (List.mem_of_mem_eraseIdx member)
    · rename_i connId op rest found
      obtain rfl := Option.some.inj h
      rcases List.mem_or_eq_of_mem_set member with old | rfl
      · exact .inl old
      · exact .inr (.inr ⟨op, rest, error, List.mem_of_getElem? found, rfl⟩)
  | unsubscribe key =>
    obtain ⟨rfl, -⟩ := endRelay_some h
    exact .inl member
  | streamEnded key closed =>
    obtain ⟨rfl, -⟩ := endRelay_some h
    exact .inl member
  | disconnect connId =>
    simp only [step] at h
    split at h
    · obtain rfl := Option.some.inj h
      exact .inl member
    · cases h

/-! ### Ids -/

/-- Connections have different ids, and every id in use was given out. -/
structure Consistent (r : Relay) : Prop where
  nodup : r.connections.Nodup
  connections : ∀ id ∈ r.connections, id < r.nextId
  clients : ∀ id ∈ r.clients.keys, id < r.nextId
  calls : ∀ call ∈ r.calls, call.1 < r.nextId ∧ Stores call.1 call.2

theorem consistent_start (backendUri : String) : Consistent (start backendUri) :=
  ⟨.nil, nofun, nofun, nofun⟩

theorem Changes.nextId_le (changes : Changes r event r') : r.nextId ≤ r'.nextId := by
  cases changes with
  | connects _ next _ => exact next ▸ Nat.le_succ _
  | closes _ _ next _ => exact Nat.le_of_eq next.symm
  | stores _ _ next _ => exact Nat.le_of_eq next.symm
  | nothing _ next _ => exact Nat.le_of_eq next.symm

theorem Consistent.inserts (consistent : Consistent r) {connId id : ConnectionId}
    {client : WsClient} {rest : Unit → Call Unit}
    (member : (connId, .perform (.insert id client) rest) ∈ r.calls) : id < r.nextId := by
  obtain ⟨issued, stores⟩ := consistent.calls _ member
  have own := (stores () trivial () () trivial).1 id client rfl
  exact own ▸ issued

theorem mem_keys_insert {connId id : ConnectionId} {client : WsClient} :
    id ∈ (r.clients.insert connId client).keys ↔ id = connId ∨ id ∈ r.clients.keys :=
  AList.mem_insert r.clients

theorem Consistent.step (consistent : Consistent r) (h : r.step event = some r') :
    Consistent r' := by
  have changes := step_changes h
  have later := changes.nextId_le
  have calls : ∀ call ∈ r'.calls, call.1 < r'.nextId ∧ Stores call.1 call.2 := by
    intro call member
    rcases step_calls h call member with old | ⟨isOpen, stores⟩ | ⟨op, rest, error, old, moved⟩
    · obtain ⟨issued, stores⟩ := consistent.calls call old
      exact ⟨Nat.lt_of_lt_of_le issued later, stores⟩
    · exact ⟨Nat.lt_of_lt_of_le (consistent.connections _ isOpen) later, stores⟩
    · obtain ⟨issued, stores⟩ := consistent.calls _ old
      have answered := stores () trivial _ () (r.answer_answers call.1 error op)
      exact ⟨Nat.lt_of_lt_of_le issued later, moved ▸ answered.2⟩
  cases changes with
  | connects ids next clients =>
    refine ⟨?_, ?_, ?_, calls⟩
    · rw [ids]
      refine List.nodup_cons.mpr ⟨fun member => ?_, consistent.nodup⟩
      exact lt_irrefl _ (consistent.connections _ member)
    · intro id member
      rw [ids] at member
      rcases List.mem_cons.mp member with rfl | old
      · exact next ▸ Nat.lt_succ_self _
      · exact Nat.lt_of_lt_of_le (consistent.connections id old) later
    · intro id member
      rw [clients] at member
      exact Nat.lt_of_lt_of_le (consistent.clients id member) later
  | closes wasOpen ids next clients =>
    refine ⟨?_, ?_, ?_, calls⟩
    · rw [ids]
      exact consistent.nodup.erase _
    · intro id member
      rw [ids] at member
      rw [next]
      exact consistent.connections id (List.mem_of_mem_erase member)
    · rw [clients, next]
      exact consistent.clients
  | stores call ids next clients =>
    refine ⟨ids ▸ consistent.nodup, ?_, ?_, calls⟩
    · rw [ids, next]
      exact consistent.connections
    · intro id member
      rw [clients] at member
      rw [next]
      rcases mem_keys_insert.mp member with rfl | old
      · exact consistent.inserts (List.mem_of_getElem? call)
      · exact consistent.clients id old
  | nothing ids next clients stays no =>
    refine ⟨ids ▸ consistent.nodup, ?_, ?_, calls⟩
    · rw [ids, next]
      exact consistent.connections
    · rw [clients, next]
      exact consistent.clients

/-! ### Leaks -/

def HoldsOpen (r : Relay) : Prop := ∀ id ∈ r.clients.keys, id ∈ r.connections

/-- A client whose connection was given out and is closed. -/
def Leaked (r : Relay) : Prop :=
  ∃ id ∈ r.clients.keys, id ∉ r.connections ∧ id < r.nextId

/-- A connection closes only while the pool has no client for it, and a client is stored only while
its connection is open. -/
def Keeps (r : Relay) : Event → Prop
  | .disconnect connId => connId ∉ r.clients.keys
  | .proceed i _ => ∀ connId id client rest,
      r.calls[i]? = some (connId, .perform (.insert id client) rest) → id ∈ r.connections
  | _ => True

/-- Every step of the run keeps to that. -/
def Meets (r : Relay) : List Event → Prop
  | [] => True
  | event :: events => r.Keeps event ∧ ∀ r', r.step event = some r' → r'.Meets events

theorem HoldsOpen.step (holds : HoldsOpen r) (keeps : r.Keeps event)
    (h : r.step event = some r') : HoldsOpen r' := by
  intro id member
  cases step_changes h with
  | connects ids next clients =>
    rw [clients] at member
    rw [ids]
    exact List.mem_cons_of_mem _ (holds id member)
  | @closes connId _ wasOpen ids next clients =>
    rw [clients] at member
    rw [ids]
    have other : id ≠ connId := fun same => keeps (same ▸ member)
    exact (List.mem_erase_of_ne other).mpr (holds id member)
  | stores call ids next clients =>
    rw [clients] at member
    rw [ids]
    rcases mem_keys_insert.mp member with rfl | old
    · exact keeps _ _ _ _ call
    · exact holds id old
  | nothing ids next clients stays no =>
    rw [clients] at member
    rw [ids]
    exact holds id member

/-- Clients are never removed and ids are never given out again. -/
theorem Leaked.step (leaked : Leaked r) (h : r.step event = some r') : Leaked r' := by
  obtain ⟨id, member, closed, issued⟩ := leaked
  have changes := step_changes h
  refine ⟨id, ?_, ?_, Nat.lt_of_lt_of_le issued changes.nextId_le⟩
  · cases changes with
    | connects _ _ clients => rwa [clients]
    | closes _ _ _ clients => rwa [clients]
    | nothing _ _ clients => rwa [clients]
    | stores _ _ _ clients =>
      rw [clients]
      exact mem_keys_insert.mpr (.inr member)
  · cases changes with
    | connects ids _ _ =>
      rw [ids]
      intro again
      rcases List.mem_cons.mp again with rfl | old
      · exact Nat.lt_irrefl _ issued
      · exact closed old
    | closes _ ids _ _ =>
      rw [ids]
      exact fun again => closed (List.mem_of_mem_erase again)
    | stores _ ids _ _ => rwa [ids]
    | nothing ids _ _ => rwa [ids]

theorem Consistent.leaks (consistent : Consistent r) (breaks : ¬ r.Keeps event)
    (h : r.step event = some r') : Leaked r' := by
  cases step_changes h with
  | connects _ _ _ => exact absurd trivial breaks
  | @closes connId _ wasOpen ids next clients =>
    have stored : connId ∈ r.clients.keys := not_not.mp breaks
    refine ⟨connId, clients ▸ stored, ?_, next ▸ consistent.connections connId wasOpen⟩
    rw [ids]
    exact consistent.nodup.not_mem_erase
  | stores call ids next clients =>
    simp only [Keeps, not_forall] at breaks
    obtain ⟨_, _, _, _, other, closed⟩ := breaks
    cases call.symm.trans other
    refine ⟨_, ?_, ids ▸ closed, next ▸ consistent.inserts (List.mem_of_getElem? call)⟩
    rw [clients]
    exact mem_keys_insert.mpr (.inl rfl)
  | nothing ids next clients stays no =>
    cases event with
    | disconnect connId => exact absurd rfl (stays connId)
    | proceed i error =>
      simp only [Keeps, not_forall] at breaks
      obtain ⟨_, _, _, _, call, -⟩ := breaks
      exact absurd call (no _ _ _ _ _ _ rfl)
    | _ => exact absurd trivial breaks

/-! ### Runs -/

theorem run_cons (r : Relay) (event : Event) (events : List Event) :
    r.run (event :: events) = (r.step event).bind (·.run events) := rfl

theorem run_invariant {inv : Relay → Prop} {events : List Event}
    (kept : ∀ r r' event, inv r → r.step event = some r' → inv r') (holds : inv r)
    (ran : r.run events = some r') : inv r' := by
  induction events generalizing r with
  | nil =>
    obtain rfl := Option.some.inj ran
    exact holds
  | cons event events ih =>
    rw [run_cons, Option.bind_eq_some_iff] at ran
    obtain ⟨mid, first, rest⟩ := ran
    exact ih (kept _ _ _ holds first) rest

theorem Leaked.run {events : List Event} (leaked : Leaked r) (ran : r.run events = some r') :
    Leaked r' :=
  run_invariant (fun _ _ _ => Leaked.step) leaked ran

theorem Consistent.run_iff {events : List Event} (consistent : Consistent r)
    (holds : HoldsOpen r) (ran : r.run events = some r') : HoldsOpen r' ↔ r.Meets events := by
  induction events generalizing r with
  | nil =>
    obtain rfl := Option.some.inj ran
    exact iff_of_true holds trivial
  | cons event events ih =>
    rw [run_cons, Option.bind_eq_some_iff] at ran
    obtain ⟨mid, first, rest⟩ := ran
    by_cases keeps : r.Keeps event
    · rw [ih (consistent.step first) (holds.step keeps first) rest]
      constructor
      · intro meets
        refine ⟨keeps, fun other step => ?_⟩
        obtain rfl := Option.some.inj (first.symm.trans step)
        exact meets
      · exact fun meets => meets.2 mid first
    · -- The first step that breaks the condition leaks a client, which stays until the end.
      obtain ⟨id, member, closed, -⟩ := (consistent.leaks keeps first).run rest
      exact iff_of_false (fun holds => closed (holds id member)) fun meets => keeps meets.1

/-! ### The counters -/

/-- Unlike the pool, the counters of the middleware and of the relay tasks are restored on every
path. -/
structure Counted (r : Relay) : Prop where
  connNum : r.connNum = UInt64.ofNat r.connections.length
  relayingSubChannelNum : r.relayingSubChannelNum = r.relays.length

theorem Counted.answer (counted : Counted r) (connId : ConnectionId) (error : Option RelayError)
    (op : Op) : Counted (r.answer connId error op).2 := by
  cases op with
  | spawn key =>
    refine ⟨counted.connNum, ?_⟩
    have before := counted.relayingSubChannelNum
    show r.relayingSubChannelNum + 1 = ((key :: r.relays).length : Int)
    rw [List.length_cons]
    omega
  | _ => cases error <;> exact ⟨counted.connNum, counted.relayingSubChannelNum⟩

theorem Counted.endRelay (counted : Counted r) {key : SubscriptionKey}
    (h : r.endRelay key = some r') : Counted r' := by
  obtain ⟨rfl, running⟩ := endRelay_some h
  refine ⟨counted.connNum, ?_⟩
  have lengths := List.length_erase_of_mem running
  have positive := List.length_pos_of_mem running
  have before := counted.relayingSubChannelNum
  show r.relayingSubChannelNum - 1 = ((r.relays.erase key).length : Int)
  omega

theorem length_others (keys : List SubscriptionKey) (connId : ConnectionId) :
    (keys.filter fun key => key.connId ≠ connId).length +
      (keys.countP fun key => key.connId = connId) = keys.length := by
  rw [← List.countP_eq_length_filter, Nat.add_comm]
  have split := List.length_eq_countP_add_countP (fun key : SubscriptionKey =>
    decide (key.connId = connId)) (l := keys)
  simpa using split.symm

theorem Counted.step (counted : Counted r) (h : r.step event = some r') : Counted r' := by
  cases event with
  | connect =>
    obtain rfl := Option.some.inj h
    refine ⟨?_, counted.relayingSubChannelNum⟩
    show r.connNum + 1 = UInt64.ofNat (r.nextId :: r.connections).length
    rw [counted.connNum, List.length_cons, UInt64.ofNat_add]
    rfl
  | subscribe connId subMethod params unsubMethod =>
    simp only [Relay.step] at h
    split at h
    · obtain rfl := Option.some.inj h
      exact ⟨counted.connNum, counted.relayingSubChannelNum⟩
    · cases h
  | proceed i error =>
    simp only [Relay.step] at h
    split at h
    · cases h
    · obtain rfl := Option.some.inj h
      exact ⟨counted.connNum, counted.relayingSubChannelNum⟩
    · obtain rfl := Option.some.inj h
      exact ⟨counted.connNum, counted.relayingSubChannelNum⟩
    · rename_i connId op rest call
      obtain rfl := Option.some.inj h
      have answered := counted.answer connId error op
      exact ⟨answered.connNum, answered.relayingSubChannelNum⟩
  | unsubscribe key => exact counted.endRelay h
  | streamEnded key closed => exact counted.endRelay h
  | disconnect connId =>
    simp only [Relay.step] at h
    split at h
    · rename_i wasOpen
      obtain rfl := Option.some.inj h
      constructor
      · have lengths := List.length_erase_add_one wasOpen
        show r.connNum - 1 = UInt64.ofNat (r.connections.erase connId).length
        rw [counted.connNum, ← lengths, UInt64.ofNat_add]
        exact UInt64.add_sub_cancel ..
      · have lengths := length_others r.relays connId
        have before := counted.relayingSubChannelNum
        show r.relayingSubChannelNum - (r.relays.countP fun key => key.connId = connId) =
          ((r.relays.filter fun key => key.connId ≠ connId).length : Int)
        omega
    · cases h

theorem Counted.run {events : List Event} (counted : Counted r) (ran : r.run events = some r') :
    Counted r' :=
  run_invariant (fun _ _ _ => Counted.step) counted ran

end Relay

/-- In every state reached, at rest or not, the pool holds clients of open connections only, and so
no more clients than there are connections, exactly when no connection closed with a client stored
for it and no client was stored for a connection already closed. -/
theorem clients_of_open_connections {backendUri : String} {events : List Event} {r : Relay}
    (ran : (Relay.start backendUri).run events = some r) :
    ((∀ id ∈ r.clients.keys, id ∈ r.connections) ∧
      r.clients.keys.length ≤ r.connections.length) ↔ (Relay.start backendUri).Meets events := by
  rw [← (Relay.consistent_start backendUri).run_iff nofun ran]
  refine ⟨fun holds => holds.1, fun holds => ⟨holds, ?_⟩⟩
  exact (List.subperm_of_subset r.clients.keys_nodup holds).length_le

def sampleEvents : List Event :=
  [.connect, .subscribe 0 "chain_subscribeNewHeads" none "chain_unsubscribeNewHeads"] ++
    List.replicate 7 (.proceed 0 none)

theorem clients_of_open_connections_subscribed :
    ∃ r, (Relay.start "ws://node").run (sampleEvents ++ [.unsubscribe ⟨0, 0⟩]) = some r ∧
      r.AtRest ∧ r.clients.keys = [0] ∧
      (Relay.start "ws://node").Meets (sampleEvents ++ [.unsubscribe ⟨0, 0⟩]) :=
  ⟨_, rfl, ⟨rfl, rfl⟩, rfl,
    (clients_of_open_connections rfl).mp ⟨by decide, by decide⟩⟩

/-- After the Dapp disconnects, nothing is in progress and the client is still in the pool. -/
theorem client_outlives_connection :
    ∃ r, (Relay.start "ws://node").run (sampleEvents ++ [.disconnect 0]) = some r ∧ r.AtRest ∧
      ¬ ((∀ id ∈ r.clients.keys, id ∈ r.connections) ∧
        r.clients.keys.length ≤ r.connections.length) :=
  ⟨_, rfl, ⟨rfl, rfl⟩, by decide⟩

end MantaIndexer.Relayer
