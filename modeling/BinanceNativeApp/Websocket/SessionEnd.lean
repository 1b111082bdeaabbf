import BinanceNativeApp.Websocket.Agreement

/-!
# The end of an established session

libwebsockets reports the end of an established client session with
`LWS_CALLBACK_CLIENT_CLOSED`.  `event_cb_impl` has no case for it, so the map
entry and the `wsi` of the subscriber outlive the session.  `event_loop` looks
only at subscribers whose `wsi` is null: the stream stays down until a report
for some other handle happens to be directed at that subscriber.
-/

set_option autoImplicit false

namespace BinanceNativeApp.Websocket.SessionEnd

open BinanceNativeApp.Library.Containers
open BinanceNativeApp.Library.Transition
open BinanceNativeApp.Websocket.Subscriptions
open BinanceNativeApp.Websocket.Runs
open BinanceNativeApp.Websocket.Routing
open BinanceNativeApp.Websocket.Agreement (Holds not_holds_of_vacant emplaceBack_holds
  settle_holds reportEnd_holds)

variable {Handle Func : Type} [DecidableEq Handle]

/-- Subscriber `i` has let go of handle `wsi`, and a pass of `event_loop` that
reaches it three seconds after its time stamp connects it again.  Readings of
the clock are of 64 bits. -/
def Recovered (i : Nat) (wsi : Handle) (s : Api Handle Func) : Prop :=
  ∃ subscriber, s.subscribers[i]? = some subscriber ∧ subscriber.wsi = none ∧
    s.subscriberCallbacks.find (some wsi) = none ∧
    ∀ script callbacks after effects, -2 ^ 63 ≤ subscriber.subscribeTs →
      subscriber.subscribeTs + 3000000000 ≤ (script i).now → (script i).now < 2 ^ 63 →
        eventLoop script callbacks s = some (after, effects) →
          Effect.clientConnectViaInfo (connectInfo subscriber.path) i ∈ effects

/-- No established session is ever recovered: its end leaves the api as it
was, with the entry of the handle still naming its owner. -/
theorem client_closed_not_recovered {g next : World Handle Func} {wsi : Handle}
    {input : StringView} {effects : List (Effect Handle Func)}
    (reached : Reachable (world Handle Func) g) (session : Session)
    (live : g.network.sessions wsi = some session) (_ : g.network.established wsi = true)
    (stepped : g.step (.callback ⟨wsi, .clientClosed, input⟩) = some (next, effects)) :
    ¬ Recovered session.owner wsi next.api ∧ next.api = g.api ∧
      next.api.subscriberCallbacks.find (some wsi) = some session.owner := by
  have mapped := (reachable_routed reached).mapped wsi session live
  have same : next.api = g.api :=
    congrArg (fun r => r.1.api) (Option.some.inj stepped.symm)
  refine ⟨?_, same, by rw [same, mapped]⟩
  intro recovered
  obtain ⟨_, _, _, absent, _⟩ := recovered
  rw [same, mapped] at absent
  cases absent

/-! ## One session, established and then closed by the peer -/

def establishedSession : World Nat Nat :=
  ⟨oneSession.api, oneSession.network.callback 1 .clientEstablished⟩

def closedSession : World Nat Nat :=
  ⟨oneSession.api, establishedSession.network.callback 1 .clientClosed⟩

theorem establishedSession_reachable : Reachable (world Nat Nat) establishedSession := by
  have permitted : (world Nat Nat).allowed oneSession
      (.callback ⟨1, .clientEstablished, StringView.ofString []⟩) := ⟨⟨0, [47]⟩, rfl⟩
  exact reachable_step oneSession_reachable permitted rfl

theorem closedSession_step :
    establishedSession.step (.callback ⟨1, .clientClosed, StringView.ofString []⟩) =
      some (closedSession, []) := rfl

theorem closedSession_stays_down :
    Reachable (world Nat Nat) establishedSession ∧
      establishedSession.network.sessions 1 = some ⟨0, [47]⟩ ∧
      establishedSession.network.established 1 = true ∧
      establishedSession.step (.callback ⟨1, .clientClosed, StringView.ofString []⟩) =
        some (closedSession, []) ∧
      eventLoop (fun _ => ⟨10000000000, .refused, 10000000000⟩) [] closedSession.api =
        some (closedSession.api, []) ∧
      ¬ Recovered 0 1 closedSession.api := by
  refine ⟨establishedSession_reachable, rfl, rfl, closedSession_step, rfl, ?_⟩
  intro recovered
  obtain ⟨subscriber, found, vacant, _⟩ := recovered
  cases found
  cases vacant

theorem client_closed_not_recovered_closedSession :
    ¬ Recovered 0 1 closedSession.api ∧ closedSession.api = establishedSession.api ∧
      closedSession.api.subscriberCallbacks.find (some 1) = some 0 :=
  client_closed_not_recovered establishedSession_reachable ⟨0, [47]⟩ rfl rfl
    closedSession_step

def releasedSession : World Nat Nat :=
  ⟨reportEnd 1 establishedSession.api, establishedSession.network.callback 1 .closed⟩

theorem releasedSession_recovered :
    establishedSession.step (.callback ⟨1, .closed, StringView.ofString []⟩) =
      some (releasedSession, []) ∧ Recovered 0 1 releasedSession.api := by
  have stepped : (world Nat Nat).step establishedSession
      (.callback ⟨1, .closed, StringView.ofString []⟩) = some (releasedSession, []) := rfl
  have permitted : (world Nat Nat).allowed establishedSession
      (.callback ⟨1, .closed, StringView.ofString []⟩) := rfl
  have indexed := (reachable_routed
    (reachable_step establishedSession_reachable permitted stepped)).indexed
  have found : releasedSession.api.subscribers[0]? = some ⟨0, none, [47], 5, 0⟩ := rfl
  refine ⟨stepped, _, found, rfl, rfl, ?_⟩
  intro script callbacks after effects _ late bounded ran
  have due : reconnectDue (⟨0, none, [47], 5, 0⟩ : Subscriber Nat Nat) (script 0).now = true := by
    refine decide_eq_true ?_
    rw [elapsedSeconds, Int.tdiv_eq_ediv_of_nonneg (by omega)]
    omega
  have visited : visit 0 (script 0) releasedSession.api = some (settle 0
      (keptHandle 0 (script 0).outcome releasedSession.api) (script 0).completed
      (afterReport (script 0).outcome releasedSession.api),
      [.clientConnectViaInfo (connectInfo [47]) 0]) := by
    simp only [visit, found, due, if_true]
    exact connectEndpointSubscriber_eq found rfl indexed _ _
  have one : releasedSession.api.subscribers.length = 1 := rfl
  simp only [eventLoop, one, List.range_one, Library.Transition.sequence, visited,
    Option.bind_eq_bind, Option.bind_some] at ran
  obtain ⟨served, _, same⟩ := Option.bind_eq_some_iff.mp ran
  obtain ⟨_, rfl⟩ := Prod.mk.inj (Option.some.inj same)
  exact List.mem_cons_self

/-! ## The stream stays down -/

def OutcomeSpares (i : Nat) (s : Api Handle Func) (outcome : ConnectOutcome Handle) : Prop :=
  ∀ wsi cleared, outcome = .failed wsi true cleared → resolved wsi s ≠ i

def Spares (i : Nat) (g : World Handle Func) : Event Handle Func → Prop
  | .connectEndpoint _ _ _ outcome _ => OutcomeSpares i g.api outcome
  | .visit _ met => OutcomeSpares i g.api met.outcome
  | .callback c => c.reason = .closed ∨ c.reason = .clientConnectionError →
      resolved c.wsi g.api ≠ i

theorem attempt_holds {g base next : World Handle Func} {event : Event Handle Func} {k i : Nat}
    {outcome : ConnectOutcome Handle} {completed : Int} {wsi : Handle}
    {effects : List (Effect Handle Func)} (routed : Routed g)
    (starts : Attempt g event base k outcome completed) (spared : Spares i g event)
    (stepped : g.step event = some (next, effects)) (holds : Holds g.api i wsi) :
    Holds next.api i wsi ∧ ∀ info, Effect.clientConnectViaInfo info i ∉ effects := by
  obtain ⟨_, subscriber, found, vacant⟩ := attempt_begins routed.indexed starts
  cases Option.some.inj (stepped.symm.trans (attempt_step routed.indexed starts found))
  obtain ⟨baseHolds, baseSpared⟩ : Holds base.api i wsi ∧ OutcomeSpares i base.api outcome := by
    cases starts with
    | first path func created outcome completed =>
        exact ⟨(emplaceBack_holds path func created g.api i wsi).mpr holds, spared⟩
    | again _ _ => exact ⟨holds, spared⟩
  have different : k ≠ i := by
    rintro rfl
    exact not_holds_of_vacant found vacant wsi baseHolds
  refine ⟨?_, by simp [Ne.symm different]⟩
  have inRange := (List.getElem?_eq_some_iff.mp found).1
  rw [World.attempted, settle_holds (by rw [afterReport_length]; exact inRange),
    if_neg different]
  unfold afterReport
  split
  · rename_i reported cleared
    exact (reportEnd_holds reported base.api i wsi).mpr ⟨baseSpared reported cleared rfl, baseHolds⟩
  · exact baseHolds

theorem callback_holds {g : World Handle Func} (routed : Routed g) {c : Callback Handle}
    (permitted : (Event.callback c : Event Handle Func).Allowed g) {api : Api Handle Func}
    {effects : List (Effect Handle Func)}
    (ran : eventCbImpl c.wsi c.reason c.input g.api = some (api, effects)) {i : Nat}
    {wsi : Handle} (spared : Spares i g (Event.callback c)) (holds : Holds g.api i wsi) :
    Holds api i wsi ∧ ∀ info, Effect.clientConnectViaInfo info i ∉ effects := by
  rcases callback_cases routed c permitted with ⟨ends, ran'⟩ | ⟨_, _, ran', quiet⟩
  · cases ran.symm.trans ran'
    exact ⟨(reportEnd_holds c.wsi g.api i wsi).mpr ⟨spared ends, holds⟩, by simp⟩
  · cases ran.symm.trans ran'
    exact ⟨holds, fun info => quiet info i⟩

theorem holds_through_run {moves : List (Move (World Handle Func) (Event Handle Func)
      (Effect Handle Func))} {g final : World Handle Func} {i : Nat} {wsi : Handle}
    (run : Path (world Handle Func) g moves final) (routed : Routed g)
    (spared : ∀ move ∈ moves, Spares i move.before move.label) (holds : Holds g.api i wsi) :
    Holds final.api i wsi ∧
      ∀ move ∈ moves, ∀ info, Effect.clientConnectViaInfo info i ∉ move.emitted := by
  induction run with
  | nil state => exact ⟨holds, by simp⟩
  | @cons state next final label emitted moves permitted stepped rest ih =>
      have sparedNow := spared _ (List.mem_cons_self ..)
      obtain ⟨nextHolds, quiet⟩ : Holds next.api i wsi ∧
          ∀ info, Effect.clientConnectViaInfo info i ∉ emitted := by
        rcases step_cases routed.indexed stepped with
          ⟨base, k, outcome, completed, subscriber, starts, _⟩ |
            ⟨j, met, subscriber, _, _, _, rfl, rfl⟩ | ⟨c, rfl, ran, _⟩
        · exact attempt_holds routed starts sparedNow stepped holds
        · exact ⟨holds, by simp⟩
        · exact callback_holds routed permitted ran sparedNow holds
      have routedNext := routed_preserved state label next emitted routed permitted stepped
      obtain ⟨finalHolds, later⟩ := ih routedNext
        (fun move member => spared move (List.mem_cons_of_mem _ member)) nextHolds
      refine ⟨finalHolds, ?_⟩
      intro move member
      rcases List.mem_cons.mp member with rfl | inRest
      · exact quiet
      · exact later move inRest

/-- After the end of its session a subscriber that still stores the handle is
not connected again, in any run that directs no report at it. -/
theorem ended_stream_stays_down {moves : List (Move (World Handle Func) (Event Handle Func)
      (Effect Handle Func))} {g next final : World Handle Func} {wsi : Handle} {i : Nat}
    {input : StringView} {effects : List (Effect Handle Func)}
    (reached : Reachable (world Handle Func) g) (holds : Holds g.api i wsi)
    (permitted : Event.Allowed g (.callback ⟨wsi, .clientClosed, input⟩))
    (stepped : g.step (.callback ⟨wsi, .clientClosed, input⟩) = some (next, effects))
    (run : Path (world Handle Func) next moves final)
    (spared : ∀ move ∈ moves, Spares i move.before move.label) :
    Holds final.api i wsi ∧
      ∀ move ∈ moves, ∀ info, Effect.clientConnectViaInfo info i ∉ move.emitted := by
  have routedNext := routed_preserved g (.callback ⟨wsi, .clientClosed, input⟩) next effects
    (reachable_routed reached) permitted stepped
  have same : next.api = g.api :=
    congrArg (fun r => r.1.api) (Option.some.inj stepped.symm)
  exact holds_through_run run routedNext spared (same ▸ holds)

end BinanceNativeApp.Websocket.SessionEnd
