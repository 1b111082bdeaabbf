import BinanceNativeApp.Websocket.Routing

/-!
# Messages that arrive in fragments

libwebsockets may hand one message over in several `CLIENT_RECEIVE` calls.
`event_cb_impl` keeps nothing between calls and never asks whether a fragment
is the final one: each call becomes one invocation.  Over a stretch of a run
that carries one message on handle `wsi`, with anything on other handles in
between, the registered function sees the fragments one by one.
-/

set_option autoImplicit false

namespace BinanceNativeApp.Websocket.Fragments

open BinanceNativeApp.Library.Containers
open BinanceNativeApp.Library.Transition
open BinanceNativeApp.Websocket.Subscriptions
open BinanceNativeApp.Websocket.Runs
open BinanceNativeApp.Websocket.Routing

variable {Handle Func : Type}

def invocation : Effect Handle Func → Option (Func × Bytes)
  | .callbackFunc func message => some (func, message.bytes)
  | .callbackOnWritable _ => none
  | .clientConnectViaInfo _ _ => none

def GoesOn (wsi : Handle) : Event Handle Func → Prop
  | .callback c => c.wsi = wsi →
      c.reason ≠ .closed ∧ c.reason ≠ .clientConnectionError ∧ c.reason ≠ .clientClosed
  | _ => True

/-- The session on `wsi`, and the function registered with its path. -/
structure Carries (wsi : Handle) (session : Session) (path : Bytes) (func : Func)
    (g : World Handle Func) : Prop where
  routed : Routed g
  live : g.network.sessions wsi = some session
  registered : g.network.registrations[session.owner]? = some (path, func)

variable [DecidableEq Handle]

def fragment (wsi : Handle) : Event Handle Func → Option StringView
  | .callback c => if c.wsi = wsi ∧ c.reason = .clientReceive then some c.input else none
  | _ => none

def fragmentsOn (wsi : Handle)
    (moves : List (Move (World Handle Func) (Event Handle Func) (Effect Handle Func))) :
    List StringView :=
  moves.filterMap fun move => fragment wsi move.label

def invocationsOn (wsi : Handle)
    (moves : List (Move (World Handle Func) (Event Handle Func) (Effect Handle Func))) :
    List (Func × Bytes) :=
  moves.flatMap fun move =>
    if (fragment wsi move.label).isSome then move.emitted.filterMap invocation else []

theorem attempt_carries {g base next : World Handle Func} {event : Event Handle Func} {k : Nat}
    {outcome : ConnectOutcome Handle} {completed : Int} {effects : List (Effect Handle Func)}
    {wsi : Handle} {session : Session} {path : Bytes} {func : Func}
    (carries : Carries wsi session path func g)
    (starts : Attempt g event base k outcome completed) (permitted : event.Allowed g)
    (stepped : g.step event = some (next, effects)) : Carries wsi session path func next := by
  have routedNext := routed_preserved g event next effects carries.routed permitted stepped
  obtain ⟨_, subscriber, found, _⟩ := attempt_begins carries.routed.indexed starts
  cases Option.some.inj (stepped.symm.trans (attempt_step carries.routed.indexed starts found))
  obtain ⟨baseLive, baseRegistered⟩ : base.network.sessions wsi = some session ∧
      base.network.registrations[session.owner]? = some (path, func) := by
    cases starts with
    | first path' func' created outcome completed =>
        refine ⟨carries.live, ?_⟩
        have inRange := (List.getElem?_eq_some_iff.mp carries.registered).1
        rw [← carries.registered]
        exact List.getElem?_append_left inRange
    | again _ _ => exact ⟨carries.live, carries.registered⟩
  refine ⟨routedNext, ?_, ?_⟩
  · have other := fresh_ne (attempt_fresh starts permitted) baseLive
    cases outcome with
    | opened created => exact (Function.update_of_ne (other created rfl) _ _).trans baseLive
    | failed created reported cleared => exact baseLive
    | refused => exact baseLive
  · rw [World.attempted, attempt_registered]
    exact baseRegistered

theorem callback_carries {g : World Handle Func} {c : Callback Handle} {api : Api Handle Func}
    {effects : List (Effect Handle Func)} {wsi : Handle} {session : Session} {path : Bytes}
    {func : Func}
    (carries : Carries wsi session path func g)
    (permitted : (Event.callback c : Event Handle Func).Allowed g)
    (goesOn : GoesOn wsi (Event.callback c : Event Handle Func))
    (ran : eventCbImpl c.wsi c.reason c.input g.api = some (api, effects)) :
    Carries wsi session path func ⟨api, g.network.callback c.wsi c.reason⟩ where
  routed := callback_routed carries.routed permitted ran
  live := by
    have kept : ∀ n : Network Handle Func, c.wsi ≠ wsi →
        Function.update n.sessions c.wsi none wsi = n.sessions wsi :=
      fun n different => Function.update_of_ne (Ne.symm different) _ _
    obtain ⟨other, reason, input⟩ := c
    by_cases same : other = wsi
    · obtain ⟨notClosed, notError, notClientClosed⟩ := goesOn same
      cases reason with
      | closed => exact absurd rfl notClosed
      | clientConnectionError => exact absurd rfl notError
      | clientClosed => exact absurd rfl notClientClosed
      | clientEstablished | clientReceive | clientWriteable | other => exact carries.live
    · cases reason with
      | closed | clientConnectionError | clientClosed =>
          exact (kept g.network same).trans carries.live
      | clientEstablished | clientReceive | clientWriteable | other => exact carries.live
  registered := by
    rw [(callback_registered g.network c.wsi c.reason).1]
    exact carries.registered

theorem fragment_invocation {g : World Handle Func} {c : Callback Handle} {api : Api Handle Func}
    {effects : List (Effect Handle Func)} {wsi : Handle} {session : Session} {path : Bytes}
    {func : Func}
    (carries : Carries wsi session path func g) {view : StringView}
    (isFragment : fragment wsi (Event.callback c : Event Handle Func) = some view)
    (ran : eventCbImpl c.wsi c.reason c.input g.api = some (api, effects)) :
    effects.filterMap invocation = [(func, view.bytes)] := by
  obtain ⟨other, reason, input⟩ := c
  simp only [fragment, Option.ite_none_right_eq_some, Option.some.injEq] at isFragment
  obtain ⟨⟨rfl, rfl⟩, rfl⟩ := isFragment
  have mapped := carries.routed.mapped other session carries.live
  have registered := carries.registered
  rw [registered_getElem? carries.routed] at registered
  obtain ⟨subscriber, found, same⟩ := Option.map_eq_some_iff.mp registered
  have funcEq : subscriber.callbackFunc = func := congrArg Prod.snd same
  cases ran.symm.trans (eventCbImpl_receive mapped found input)
  simp [invocation, funcEq]

theorem step_carries {g next : World Handle Func} {event : Event Handle Func}
    {effects : List (Effect Handle Func)} {wsi : Handle} {session : Session} {path : Bytes}
    {func : Func}
    (carries : Carries wsi session path func g) (permitted : event.Allowed g)
    (goesOn : GoesOn wsi event) (stepped : g.step event = some (next, effects)) :
    Carries wsi session path func next ∧ ∀ view, fragment wsi event = some view →
      effects.filterMap invocation = [(func, view.bytes)] := by
  rcases step_cases carries.routed.indexed stepped with
    ⟨base, k, outcome, completed, subscriber, starts, _⟩ |
      ⟨i, met, subscriber, rfl, _, _, rfl, _⟩ | ⟨c, rfl, ran, sameNetwork⟩
  · refine ⟨attempt_carries carries starts permitted stepped, ?_⟩
    intro view isFragment
    cases starts <;> cases isFragment
  · exact ⟨carries, by intro view isFragment; cases isFragment⟩
  · have kept := callback_carries carries permitted goesOn ran
    rw [← sameNetwork] at kept
    exact ⟨kept, fun view isFragment => fragment_invocation carries isFragment ran⟩

/-- Over a stretch of a run in which the session goes on, the function is
invoked on each fragment as it comes. -/
theorem invocations_are_fragments
    {moves : List (Move (World Handle Func) (Event Handle Func) (Effect Handle Func))}
    {g final : World Handle Func} {wsi : Handle} {session : Session} {path : Bytes} {func : Func}
    (run : Path (world Handle Func) g moves final) (carries : Carries wsi session path func g)
    (goesOn : ∀ move ∈ moves, GoesOn wsi move.label) :
    invocationsOn wsi moves = (fragmentsOn wsi moves).map fun view => (func, view.bytes) := by
  induction run with
  | nil state => rfl
  | @cons state next final label emitted moves permitted stepped rest ih =>
      obtain ⟨kept, invoked⟩ := step_carries carries permitted
        (goesOn _ (List.mem_cons_self ..)) stepped
      have later := ih kept fun move member => goesOn move (List.mem_cons_of_mem _ member)
      simp only [invocationsOn, fragmentsOn] at later
      simp only [invocationsOn, fragmentsOn, List.flatMap_cons, List.filterMap_cons, later]
      cases isFragment : fragment wsi label with
      | none => simp
      | some view => simp [invoked view isFragment]

/-- A message is handed to its function whole and once exactly if it arrives
as a single fragment. -/
theorem message_invoked_once_iff {g : World Handle Func}
    (reached : Reachable (world Handle Func) g) {wsi : Handle} (session : Session)
    (live : g.network.sessions wsi = some session)
    {moves : List (Move (World Handle Func) (Event Handle Func) (Effect Handle Func))}
    {final : World Handle Func} (run : Path (world Handle Func) g moves final)
    (goesOn : ∀ move ∈ moves, GoesOn wsi move.label) :
    ∃ path func, g.network.registrations[session.owner]? = some (path, func) ∧
      session.path = cString path ∧
      (invocationsOn wsi moves =
          [(func, ((fragmentsOn wsi moves).map StringView.bytes).flatten)] ↔
        (fragmentsOn wsi moves).length = 1) := by
  have routed := reachable_routed reached
  obtain ⟨path, func, registered, opened⟩ := routed.opened wsi session live
  refine ⟨path, func, registered, opened, ?_⟩
  rw [invocations_are_fragments run ⟨routed, live, registered⟩ goesOn]
  constructor
  · intro once
    simpa using congrArg List.length once
  · intro single
    obtain ⟨view, isView⟩ := List.length_eq_one_iff.mp single
    simp [isView]

/-! ## One message in two fragments -/

def splitMessage : List (Move (World Nat Nat) (Event Nat Nat) (Effect Nat Nat)) :=
  [⟨oneSession, .callback ⟨1, .clientReceive, StringView.ofString [123]⟩,
      [.callbackFunc 5 (StringView.ofString [123])], oneSession⟩,
    ⟨oneSession, .callback ⟨1, .clientReceive, StringView.ofString [125]⟩,
      [.callbackFunc 5 (StringView.ofString [125])], oneSession⟩]

theorem splitMessage_path : Path (world Nat Nat) oneSession splitMessage oneSession := by
  have arrives : ∀ view : StringView, (world Nat Nat).allowed oneSession
      (.callback ⟨1, .clientReceive, view⟩) := fun view => ⟨⟨0, [47]⟩, rfl⟩
  exact Path.cons (arrives _) rfl (Path.cons (arrives _) rfl (Path.nil _))

theorem splitMessage_goesOn : ∀ move ∈ splitMessage, GoesOn 1 move.label := by
  intro move member
  simp only [splitMessage, List.mem_cons, List.not_mem_nil, or_false] at member
  rcases member with rfl | rfl <;> simp [GoesOn]

theorem splitMessage_invoked_twice :
    Reachable (world Nat Nat) oneSession ∧
      Path (world Nat Nat) oneSession splitMessage oneSession ∧
      oneSession.network.registrations[0]? = some ([47], 5) ∧
      ((fragmentsOn 1 splitMessage).map StringView.bytes).flatten = [123, 125] ∧
      invocationsOn 1 splitMessage = [(5, [123]), (5, [125])] :=
  ⟨oneSession_reachable, splitMessage_path, rfl, rfl, rfl⟩

theorem message_invoked_once_iff_splitMessage :
    ∃ path func, oneSession.network.registrations[0]? = some (path, func) ∧
      [47] = cString path ∧
      (invocationsOn 1 splitMessage =
          [(func, ((fragmentsOn 1 splitMessage).map StringView.bytes).flatten)] ↔
        (fragmentsOn 1 splitMessage).length = 1) :=
  message_invoked_once_iff oneSession_reachable ⟨0, [47]⟩ rfl splitMessage_path
    splitMessage_goesOn

end BinanceNativeApp.Websocket.Fragments
