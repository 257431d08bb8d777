import MantaIndexer.Relayer.Leaks
import Mathlib.Data.List.InsertIdx
import Mathlib.Data.List.Perm.Subperm

/-!
What reaches the full node through the relay. However the calls interleave, a subscription at the full
node is one that a Dapp asked for, it is made at most once, and it goes over a connection that was opened
for the same Dapp connection and that no other one uses.
-/

namespace MantaIndexer.Relayer
open Effects

/-- A subscription as a Dapp asks for it. -/
structure Request where
  connId : ConnectionId
  subMethod : String
  params : Option String
  unsubMethod : String
  deriving DecidableEq

/-- What the worker has done at the full node. -/
inductive Downstream where
  | built (connId : ConnectionId) (uri : String) (client : WsClient)
  | subscribed (request : Request) (client : WsClient)

def Downstream.request : Downstream → Option Request
  | .built _ _ _ => none
  | .subscribed request _ => some request

def Event.request : Event → Option Request
  | .subscribe connId subMethod params unsubMethod => some ⟨connId, subMethod, params, unsubMethod⟩
  | _ => none

namespace Relay

/-- What an operation does at the full node, unless it fails. -/
def sendsFor (r : Relay) (connId : ConnectionId) (error : Option RelayError) : Op → List Downstream
  | .build uri => if error.isNone then [.built connId uri r.nextClient] else []
  | .subscribe client subMethod params unsubMethod =>
    if error.isNone then [.subscribed ⟨connId, subMethod, params, unsubMethod⟩ client] else []
  | _ => []

def sends (r : Relay) : Event → List Downstream
  | .proceed i error =>
    match r.calls[i]? with
    | some (connId, .perform op _) => r.sendsFor connId error op
    | _ => []
  | _ => []

/-- What a run does at the full node. -/
def sent (r : Relay) : List Event → List Downstream
  | [] => []
  | event :: events =>
    r.sends event ++
      match r.step event with
      | some r' => r'.sent events
      | none => []

end Relay

/-! ### One call -/

/-- What a call has to go by: what was done at the full node so far, and whether its own subscription
is among it. -/
structure View where
  sent : List Downstream
  subscribed : Bool

/-- The answers a call gets, with what they add. -/
def Heard (backendUri : String) (connId : ConnectionId) : Sem View Op.Res
  | s, .accept, key?, t => (∀ key : SubscriptionKey, key? = some key → key.connId = connId) ∧ t = s
  | s, .build uri, built, t =>
    match built with
    | .ok client => t = { s with sent := s.sent ++ [.built connId uri client] }
    | .error _ => t = s
  | s, .get id, client?, t =>
    (∀ client : WsClient, client? = some client → .built id backendUri client ∈ s.sent) ∧ t = s
  | s, .subscribe client subMethod params unsubMethod, subscribed, t =>
    match subscribed with
    | .ok _ => t = ⟨s.sent ++ [.subscribed ⟨connId, subMethod, params, unsubMethod⟩ client], true⟩
    | .error _ => t = s
  | s, _, _, t => t = s

/-- Meanwhile other calls do things at the full node. -/
structure Meanwhile (s t : View) : Prop where
  sent : ∀ done ∈ s.sent, done ∈ t.sent
  subscribed : t.subscribed = s.subscribed

theorem Meanwhile.refl (s : View) : Meanwhile s s := ⟨fun _ => id, rfl⟩

theorem Meanwhile.trans (s t u : View) (first : Meanwhile s t) (second : Meanwhile t u) :
    Meanwhile s u :=
  ⟨fun done member => second.sent done (first.sent done member),
    second.subscribed.trans first.subscribed⟩

/-- What a call may do: connect to the backend, store a client of its own connection, and make its own
subscription over such a client, once. -/
def Allowed (backendUri : String) (request : Request) (s : View) : Op → Prop
  | .build uri => uri = backendUri
  | .insert id client => id = request.connId ∧ .built id backendUri client ∈ s.sent
  | .subscribe client subMethod params unsubMethod =>
    ⟨request.connId, subMethod, params, unsubMethod⟩ = request ∧ s.subscribed = false ∧
      .built request.connId backendUri client ∈ s.sent
  | _ => True

abbrev Serves {α : Type} (backendUri : String) (request : Request)
    (post : Except RelayError α → View → Prop) (call : Call α) (s : View) : Prop :=
  Ensures (Heard backendUri request.connId) Meanwhile (fun s op _ => Allowed backendUri request s op)
    post call s

theorem getClient_serves {backendUri : String} {request : Request} {key : SubscriptionKey}
    (own : key.connId = request.connId) {s : View} (fresh : s.subscribed = false) :
    Serves backendUri request (fun out t => t.subscribed = false ∧ ∀ client, out = .ok client →
      .built request.connId backendUri client ∈ t.sent) (getClient backendUri key) s := by
  unfold getClient
  rintro t step present _ rfl
  refine ⟨trivial, ?_⟩
  have fresh := step.subscribed.trans fresh
  cases present with
  | false =>
    rintro u step built v heard
    refine ⟨rfl, ?_⟩
    have fresh := step.subscribed.trans fresh
    cases built with
    | error error =>
      obtain rfl := heard
      exact fun x step => ⟨step.subscribed.trans fresh, fun _ same => by cases same⟩
    | ok client =>
      obtain rfl := heard
      have mine : .built request.connId backendUri client ∈
          u.sent ++ [.built request.connId backendUri client] :=
        List.mem_append_right _ List.mem_cons_self
      rintro x step _ _ rfl
      refine ⟨⟨own, step.sent _ (own ▸ mine)⟩, fun y step' => ?_⟩
      refine ⟨step'.subscribed.trans (step.subscribed.trans fresh), ?_⟩
      rintro _ ⟨⟩
      exact step'.sent _ (step.sent _ mine)
  | true =>
    rintro u step client? _ ⟨found, rfl⟩
    refine ⟨trivial, ?_⟩
    have fresh := step.subscribed.trans fresh
    cases client? with
    | none => exact fun x step => ⟨step.subscribed.trans fresh, fun _ same => by cases same⟩
    | some client =>
      refine fun x step => ⟨step.subscribed.trans fresh, ?_⟩
      rintro _ ⟨⟩
      exact step.sent _ (own ▸ found client rfl)

theorem subscribe_serves (backendUri : String) (request : Request) {s : View}
    (fresh : s.subscribed = false) :
    Serves backendUri request (fun _ _ => True)
      (subscribe backendUri request.subMethod request.params request.unsubMethod) s := by
  unfold subscribe
  rintro t step key? _ ⟨own, rfl⟩
  refine ⟨trivial, ?_⟩
  cases key? with
  | none => exact fun _ _ => trivial
  | some key =>
    have fresh := step.subscribed.trans fresh
    refine Ensures.bind (p := getClient backendUri key) Meanwhile.refl ?_
    refine (getClient_serves (own key rfl) fresh).mono fun out u ready => ?_
    obtain ⟨fresh, mine⟩ := ready
    cases out with
    | error error => exact fun _ _ => trivial
    | ok client =>
      rintro v step subscribed x heard
      refine ⟨⟨rfl, step.subscribed.trans fresh, step.sent _ (mine client rfl)⟩, ?_⟩
      cases subscribed with
      | error error => exact fun _ _ => trivial
      | ok _ => exact fun _ _ _ _ _ => ⟨trivial, fun _ _ => trivial⟩

/-! ### All calls -/

/-- A call in progress, with what it was asked for and whether it has subscribed. -/
structure Flight where
  request : Request
  subscribed : Bool
  rest : Call Unit

namespace Flight

def call (flight : Flight) : ConnectionId × Call Unit := (flight.request.connId, flight.rest)

def Serves (backendUri : String) (sent : List Downstream) (flight : Flight) : Prop :=
  Relayer.Serves backendUri flight.request (fun _ _ => True) flight.rest ⟨sent, flight.subscribed⟩

/-- The call may still make this subscription. -/
def Awaits (request : Request) (flight : Flight) : Bool :=
  !flight.subscribed && decide (flight.request = request)

theorem Serves.later {backendUri : String} {sent more : List Downstream} {flight : Flight}
    (serves : flight.Serves backendUri sent) : flight.Serves backendUri (sent ++ more) :=
  Ensures.stable Meanwhile.trans serves ⟨fun _ => List.mem_append_left more, rfl⟩

end Flight

namespace Relay

variable {r r' : Relay} {event : Event}

/-- What holds after the requests `made`, with `sent` done at the full node. -/
structure Isolated (made : List Request) (sent : List Downstream) (r : Relay) : Prop where
  clients : ∀ id client, r.clients.lookup id = some client → .built id r.backendUri client ∈ sent
  issued : ∀ id uri client, .built id uri client ∈ sent → uri = r.backendUri ∧ client < r.nextClient
  owner : ∀ id id' uri uri' client, .built id uri client ∈ sent → .built id' uri' client ∈ sent →
    id = id'
  subscribed : ∀ request client, .subscribed request client ∈ sent →
    .built request.connId r.backendUri client ∈ sent
  flights : ∃ flights : List Flight, r.calls = flights.map Flight.call ∧
    (∀ flight ∈ flights, flight.Serves r.backendUri sent) ∧
    ∀ request, (sent.filterMap Downstream.request).count request +
      flights.countP (Flight.Awaits request) ≤ made.count request

theorem isolated_start (backendUri : String) : Isolated [] [] (start backendUri) where
  clients _ _ found := by cases found
  issued _ _ _ member := by cases member
  owner _ _ _ _ _ member := by cases member
  subscribed _ _ member := by cases member
  flights := ⟨[], rfl, fun _ member => (List.not_mem_nil member).elim, fun _ => Nat.le_refl _⟩

/-- Whether the operation is a subscription that is made. -/
def subscribes (error : Option RelayError) : Op → Bool
  | .subscribe _ _ _ _ => error.isNone
  | _ => false

theorem answer_heard {made : List Request} {sent : List Downstream} (isolated : Isolated made sent r)
    (connId : ConnectionId) (error : Option RelayError) (op : Op) (subscribed : Bool) :
    Heard r.backendUri connId ⟨sent, subscribed⟩ op (r.answer connId error op).1
      ⟨sent ++ r.sendsFor connId error op, subscribed || subscribes error op⟩ := by
  cases op with
  | accept =>
    refine ⟨fun key found => ?_, by simp [sendsFor, subscribes]⟩
    cases error with
    | none =>
      obtain rfl := Option.some.inj found
      rfl
    | some error => cases found
  | build uri => cases error <;> simp [Heard, answer, sendsFor, subscribes]
  | get id =>
    refine ⟨fun client found => isolated.clients id client found, by simp [sendsFor, subscribes]⟩
  | subscribe client subMethod params unsubMethod =>
    cases error <;> simp [Heard, answer, sendsFor, subscribes]
  | _ => simp [Heard, sendsFor, subscribes]

theorem answer_backendUri (r : Relay) (connId : ConnectionId) (error : Option RelayError) (op : Op) :
    (r.answer connId error op).2.backendUri = r.backendUri := by
  cases op <;> cases error <;> rfl

theorem nextClient_le (r : Relay) (connId : ConnectionId) (error : Option RelayError) (op : Op) :
    r.nextClient ≤ (r.answer connId error op).2.nextClient := by
  cases op with
  | build uri =>
    cases error with
    | none => exact Nat.le_succ _
    | some error => exact Nat.le_refl _
  | accept | subscribe client subMethod params unsubMethod => cases error <;> exact Nat.le_refl _
  | _ => exact Nat.le_refl _

section Performs

variable {made : List Request} {sent : List Downstream} {connId : ConnectionId}
  {error : Option RelayError} {op : Op}

theorem mem_sendsFor_built {id : ConnectionId} {uri : String} {client : WsClient}
    (member : .built id uri client ∈ r.sendsFor connId error op) :
    id = connId ∧ op = .build uri ∧ client = r.nextClient ∧
      (r.answer connId error op).2.nextClient = r.nextClient + 1 := by
  cases op with
  | build uri =>
    cases error with
    | none =>
      cases List.mem_singleton.mp member
      exact ⟨rfl, rfl, rfl, rfl⟩
    | some error => cases member
  | subscribe client subMethod params unsubMethod =>
    cases error with
    | none => cases List.mem_singleton.mp member
    | some error => cases member
  | _ => cases member

theorem mem_sendsFor_subscribed {request : Request} {client : WsClient}
    (member : .subscribed request client ∈ r.sendsFor connId error op) :
    op = .subscribe client request.subMethod request.params request.unsubMethod ∧
      request.connId = connId := by
  cases op with
  | build uri =>
    cases error with
    | none => cases List.mem_singleton.mp member
    | some error => cases member
  | subscribe client subMethod params unsubMethod =>
    cases error with
    | none =>
      cases List.mem_singleton.mp member
      exact ⟨rfl, rfl⟩
    | some error => cases member
  | _ => cases member

theorem answer_lookup {id : ConnectionId} {client : WsClient}
    (found : (r.answer connId error op).2.clients.lookup id = some client) :
    r.clients.lookup id = some client ∨ op = .insert id client := by
  cases op with
  | insert other stored =>
    by_cases same : id = other
    · subst same
      have stored' : (r.clients.insert id stored).lookup id = some client := found
      rw [AList.lookup_insert] at stored'
      cases stored'
      exact .inr rfl
    · have kept : (r.clients.insert other stored).lookup id = some client := found
      rw [AList.lookup_insert_ne same] at kept
      exact .inl kept
  | accept | build uri | subscribe client subMethod params unsubMethod =>
    cases error <;> exact .inl found
  | _ => exact .inl found

/-- The subscriptions made, with those still awaited, when one call moves on. -/
theorem awaited_moves {request : Request} {subscribed : Bool} (own : connId = request.connId)
    (allowed : Allowed r.backendUri request ⟨sent, subscribed⟩ op) {flights : List Flight} {i : Nat}
    {flight : Flight} (found : flights[i]? = some flight) (asked : flight.request = request)
    (before : flight.subscribed = subscribed) (rest : Call Unit) (x : Request) :
    ((sent ++ r.sendsFor connId error op).filterMap Downstream.request).count x +
        (flights.set i ⟨request, subscribed || subscribes error op, rest⟩).countP (Flight.Awaits x) =
      (sent.filterMap Downstream.request).count x + flights.countP (Flight.Awaits x) := by
  obtain ⟨inside, rfl⟩ := List.getElem?_eq_some_iff.mp found
  subst own
  have there : Flight.Awaits x flights[i] = true → 0 < flights.countP (Flight.Awaits x) :=
    fun awaits => List.countP_pos_iff.mpr ⟨_, List.getElem_mem inside, awaits⟩
  have awaits : Flight.Awaits x flights[i] = (!subscribed && decide (request = x)) := by
    rw [Flight.Awaits, asked, before]
  rw [awaits] at there
  rw [List.countP_set inside, List.filterMap_append, List.count_append, awaits]
  by_cases made : subscribes error op = true
  · cases op with
    | subscribe client subMethod params unsubMethod =>
      obtain ⟨whole, fresh, -⟩ := allowed
      obtain rfl : error = none := Option.isNone_iff_eq_none.mp made
      obtain rfl : subscribed = false := fresh
      have one : (r.sendsFor request.connId none (.subscribe client subMethod params
          unsubMethod)).filterMap Downstream.request = [request] := by
        rw [← whole]
        rfl
      rw [one, List.count_singleton]
      by_cases same : request = x
      · simp only [same, Bool.not_false, Bool.true_and, decide_true, forall_const] at there
        simp [Flight.Awaits, subscribes, same]
        omega
      · simp [Flight.Awaits, same]
    | _ => cases made
  · have nothing : (r.sendsFor request.connId error op).filterMap Downstream.request = [] := by
      cases op with
      | build uri => cases error <;> rfl
      | subscribe client subMethod params unsubMethod =>
        cases error with
        | none => exact absurd rfl made
        | some error => rfl
      | _ => rfl
    rw [nothing, List.count_nil, Bool.eq_false_iff.mpr made, Bool.or_false]
    by_cases awaited : (!subscribed && decide (request = x)) = true
    · have some := there awaited
      simp only [Flight.Awaits, awaited, if_true]
      omega
    · simp only [Flight.Awaits, awaited]
      simp

theorem Isolated.performed (isolated : Isolated made sent r) {i : Nat} {rest : op.Res → Call Unit}
    (found : r.calls[i]? = some (connId, .perform op rest)) :
    Isolated made (sent ++ r.sendsFor connId error op) { (r.answer connId error op).2 with
      calls := r.calls.set i (connId, rest (r.answer connId error op).1) } := by
  obtain ⟨flights, calls, serves, counted⟩ := isolated.flights
  rw [calls, List.getElem?_map] at found
  obtain ⟨flight, there, same⟩ := Option.map_eq_some_iff.mp found
  obtain ⟨request, subscribed, program⟩ := flight
  cases same
  have serving := serves _ (List.mem_of_getElem? there)
  obtain ⟨allowed, later⟩ := serving _ (Meanwhile.refl _) _ _
    (answer_heard isolated request.connId error op subscribed)
  have uri := r.answer_backendUri request.connId error op
  refine ⟨?_, ?_, ?_, ?_, ?_⟩
  · intro id client stored
    show Downstream.built id (r.answer request.connId error op).2.backendUri client ∈ _
    rw [uri]
    rcases answer_lookup stored with old | rfl
    · exact List.mem_append_left _ (isolated.clients id client old)
    · exact List.mem_append_left _ allowed.2
  · intro id uri' client member
    show uri' = (r.answer request.connId error op).2.backendUri ∧
      client < (r.answer request.connId error op).2.nextClient
    rw [uri]
    rcases List.mem_append.mp member with old | new
    · obtain ⟨target, small⟩ := isolated.issued id uri' client old
      exact ⟨target, Nat.lt_of_lt_of_le small (r.nextClient_le _ error op)⟩
    · obtain ⟨-, rfl, rfl, next⟩ := mem_sendsFor_built new
      exact ⟨allowed, next ▸ Nat.lt_succ_self _⟩
  · intro id id' uri uri' client first second
    rcases List.mem_append.mp first with old | new <;> rcases List.mem_append.mp second with old' | new'
    · exact isolated.owner id id' uri uri' client old old'
    · obtain ⟨-, -, rfl, -⟩ := mem_sendsFor_built new'
      exact absurd (isolated.issued id uri _ old).2 (Nat.lt_irrefl _)
    · obtain ⟨-, -, rfl, -⟩ := mem_sendsFor_built new
      exact absurd (isolated.issued id' uri' _ old').2 (Nat.lt_irrefl _)
    · rw [(mem_sendsFor_built new).1, (mem_sendsFor_built new').1]
  · intro other client member
    show Downstream.built other.connId (r.answer request.connId error op).2.backendUri client ∈ _
    rw [uri]
    rcases List.mem_append.mp member with old | new
    · exact List.mem_append_left _ (isolated.subscribed other client old)
    · obtain ⟨rfl, own⟩ := mem_sendsFor_subscribed new
      rw [own]
      exact List.mem_append_left _ allowed.2.2
  · refine ⟨flights.set i ⟨request, subscribed || subscribes error op,
      rest (r.answer request.connId error op).1⟩, ?_, ?_, ?_⟩
    · rw [List.map_set, ← calls]
      rfl
    · intro flight member
      show flight.Serves (r.answer request.connId error op).2.backendUri _
      rw [uri]
      rcases List.mem_or_eq_of_mem_set member with old | rfl
      · exact (serves flight old).later
      · exact later
    · intro x
      rw [awaited_moves rfl allowed there rfl rfl]
      exact counted x

end Performs

theorem step_backendUri (h : r.step event = some r') : r'.backendUri = r.backendUri := by
  cases event with
  | connect =>
    obtain rfl := Option.some.inj h
    rfl
  | subscribe connId subMethod params unsubMethod | disconnect connId =>
    simp only [Relay.step] at h
    split at h
    · obtain rfl := Option.some.inj h
      rfl
    · cases h
  | proceed i error =>
    simp only [Relay.step] at h
    split at h
    · cases h
    · obtain rfl := Option.some.inj h
      rfl
    · obtain rfl := Option.some.inj h
      rfl
    · rename_i connId op rest found
      obtain rfl := Option.some.inj h
      exact r.answer_backendUri connId error op
  | unsubscribe key | streamEnded key closed =>
    obtain ⟨rfl, -⟩ := endRelay_some h
    rfl

theorem run_backendUri {events : List Event} (ran : r.run events = some r') :
    r'.backendUri = r.backendUri :=
  run_invariant (fun _ _ _ same h => (step_backendUri h).trans same) rfl ran

/-- The steps that concern no call. -/
theorem Isolated.same {made : List Request} {sent : List Downstream} (isolated : Isolated made sent r)
    (uri : r'.backendUri = r.backendUri) (clients : r'.clients = r.clients)
    (next : r'.nextClient = r.nextClient) (calls : r'.calls = r.calls) : Isolated made sent r' := by
  obtain ⟨flights, own, serves, counted⟩ := isolated.flights
  refine ⟨?_, ?_, isolated.owner, ?_, flights, calls.trans own, ?_, counted⟩
  · rw [uri, clients]
    exact isolated.clients
  · rw [uri, next]
    exact isolated.issued
  · rw [uri]
    exact isolated.subscribed
  · rw [uri]
    exact serves

theorem Isolated.returned {made : List Request} {sent : List Downstream}
    (isolated : Isolated made sent r) (i : Nat) :
    Isolated made sent { r with calls := r.calls.eraseIdx i } := by
  obtain ⟨flights, calls, serves, counted⟩ := isolated.flights
  refine ⟨isolated.clients, isolated.issued, isolated.owner, isolated.subscribed, flights.eraseIdx i,
    ?_, ?_, ?_⟩
  · show r.calls.eraseIdx i = _
    rw [calls, List.eraseIdx_map]
  · exact fun flight member => serves flight (List.mem_of_mem_eraseIdx member)
  · intro request
    have fewer := (List.eraseIdx_sublist flights i).countP_le (p := Flight.Awaits request)
    exact Nat.le_trans (Nat.add_le_add_left fewer _) (counted request)

theorem Isolated.asked {made : List Request} {sent : List Downstream}
    (isolated : Isolated made sent r) (request : Request) :
    Isolated (made ++ [request]) sent { r with
      calls := (request.connId, Relayer.subscribe r.backendUri request.subMethod request.params
        request.unsubMethod) :: r.calls } := by
  obtain ⟨flights, calls, serves, counted⟩ := isolated.flights
  refine ⟨isolated.clients, isolated.issued, isolated.owner, isolated.subscribed,
    ⟨request, false, Relayer.subscribe r.backendUri request.subMethod request.params
      request.unsubMethod⟩ :: flights, ?_, ?_, ?_⟩
  · rw [List.map_cons, ← calls]
    rfl
  · exact List.forall_mem_cons.mpr ⟨subscribe_serves r.backendUri request rfl, serves⟩
  · intro other
    have before := counted other
    rw [List.countP_cons, List.count_append, List.count_singleton]
    simp only [Flight.Awaits, Bool.not_false, Bool.true_and, decide_eq_true_eq, beq_iff_eq]
    omega

theorem Isolated.step {made : List Request} {sent : List Downstream} (isolated : Isolated made sent r)
    (h : r.step event = some r') :
    Isolated (made ++ event.request.toList) (sent ++ r.sends event) r' := by
  cases event with
  | connect =>
    obtain rfl := Option.some.inj h
    simp only [Event.request, Option.toList_none, List.append_nil, sends]
    exact isolated.same rfl rfl rfl rfl
  | subscribe connId subMethod params unsubMethod =>
    simp only [Relay.step] at h
    split at h
    · obtain rfl := Option.some.inj h
      simp only [sends, List.append_nil]
      exact isolated.asked ⟨connId, subMethod, params, unsubMethod⟩
    · cases h
  | proceed i error =>
    simp only [Relay.step] at h
    simp only [Event.request, Option.toList_none, List.append_nil, sends]
    split at h
    · cases h
    · rename_i found
      obtain rfl := Option.some.inj h
      rw [found, List.append_nil]
      exact isolated.returned i
    · rename_i found
      obtain rfl := Option.some.inj h
      rw [found, List.append_nil]
      exact isolated.returned i
    · rename_i connId op rest found
      obtain rfl := Option.some.inj h
      rw [found]
      exact isolated.performed found
  | unsubscribe key | streamEnded key closed =>
    obtain ⟨rfl, -⟩ := endRelay_some h
    simp only [Event.request, Option.toList_none, List.append_nil, sends]
    exact isolated.same rfl rfl rfl rfl
  | disconnect connId =>
    simp only [Relay.step] at h
    split at h
    · obtain rfl := Option.some.inj h
      simp only [Event.request, Option.toList_none, List.append_nil, sends]
      exact isolated.same rfl rfl rfl rfl
    · cases h

theorem Isolated.run {made : List Request} {sent : List Downstream} {events : List Event}
    (isolated : Isolated made sent r) (ran : r.run events = some r') :
    Isolated (made ++ events.filterMap Event.request) (sent ++ r.sent events) r' := by
  induction events generalizing r made sent with
  | nil =>
    obtain rfl := Option.some.inj ran
    rw [List.filterMap_nil, List.append_nil, Relay.sent, List.append_nil]
    exact isolated
  | cons event events ih =>
    rw [run_cons, Option.bind_eq_some_iff] at ran
    obtain ⟨mid, first, rest⟩ := ran
    have later := ih (isolated.step first) rest
    rw [List.append_assoc, List.append_assoc] at later
    rw [Relay.sent, first]
    convert later using 2
    cases asked : event.request <;> simp [asked]

end Relay

/-- However the calls of the relay interleave with connections that open and close and with tasks that
end: every subscription at the full node is one that was asked for, with the same method, parameters and
unsubscribe method, no more often than it was asked for; it is made over a connection to the configured
backend that was opened for the Dapp connection it came over; and no such connection serves two of them. -/
theorem relay_isolates {backendUri : String} {events : List Event} {r : Relay}
    (ran : (Relay.start backendUri).run events = some r) :
    let sent := (Relay.start backendUri).sent events
    (sent.filterMap Downstream.request).Subperm (events.filterMap Event.request) ∧
      (∀ request client, .subscribed request client ∈ sent →
        .built request.connId backendUri client ∈ sent) ∧
      ∀ request request' client client', .subscribed request client ∈ sent →
        .subscribed request' client' ∈ sent → request.connId ≠ request'.connId → client ≠ client' := by
  have isolated := (Relay.isolated_start backendUri).run ran
  rw [List.nil_append, List.nil_append] at isolated
  have uri : r.backendUri = backendUri := Relay.run_backendUri ran
  have built := isolated.subscribed
  rw [uri] at built
  refine ⟨List.subperm_ext_iff.mpr fun request _ => ?_, built, ?_⟩
  · obtain ⟨flights, -, -, counted⟩ := isolated.flights
    exact Nat.le_trans (Nat.le_add_right _ _) (counted request)
  · rintro request request' client _ first second others rfl
    exact others (isolated.owner _ _ _ _ client (built request client first)
      (built request' client second))

/-- Two Dapps subscribe at the same time. -/
def sampleTwoDapps : List Event :=
  [.connect, .connect, .subscribe 0 "chain_subscribeNewHeads" none "chain_unsubscribeNewHeads",
    .subscribe 1 "state_subscribeStorage" (some "[null]") "state_unsubscribeStorage"] ++
    (List.replicate 6 [.proceed 0 none, .proceed 1 none]).flatten ++ List.replicate 2 (.proceed 0 none)

def sampleNewHeads : Request := ⟨0, "chain_subscribeNewHeads", none, "chain_unsubscribeNewHeads"⟩

def sampleStorage : Request :=
  ⟨1, "state_subscribeStorage", some "[null]", "state_unsubscribeStorage"⟩

theorem relay_isolates_two : ∃ r, (Relay.start "ws://node").run sampleTwoDapps = some r ∧
    (Relay.start "ws://node").sent sampleTwoDapps = [.built 1 "ws://node" 0, .built 0 "ws://node" 1,
      .subscribed sampleStorage 0, .subscribed sampleNewHeads 1] ∧ (0 : WsClient) ≠ 1 := by
  have whole : (Relay.start "ws://node").sent sampleTwoDapps = [.built 1 "ws://node" 0,
    .built 0 "ws://node" 1, .subscribed sampleStorage 0, .subscribed sampleNewHeads 1] := rfl
  have ran : ∃ r, (Relay.start "ws://node").run sampleTwoDapps = some r := ⟨_, rfl⟩
  obtain ⟨r, ran⟩ := ran
  obtain ⟨-, -, apart⟩ := relay_isolates ran
  rw [whole] at apart
  refine ⟨r, ran, whole, apart sampleStorage sampleNewHeads 0 1 ?_ ?_ ?_⟩
  · exact List.mem_cons_of_mem _ (List.mem_cons_of_mem _ List.mem_cons_self)
  · exact List.mem_cons_of_mem _ (List.mem_cons_of_mem _ (List.mem_cons_of_mem _ List.mem_cons_self))
  · exact Nat.one_ne_zero

end MantaIndexer.Relayer
