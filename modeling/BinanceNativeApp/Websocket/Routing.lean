import BinanceNativeApp.Websocket.Runs

/-!
# Routing of received data

However the map and the vector disagree about ended sessions, the entry of an
open handle always names the subscriber the handle was opened for: it is
written when the connect call returns, no later attempt shares its handle, and
a reported end erases only the entry of the ended handle.  Data received on an
open handle therefore reaches the function that was registered with the path
of that session.
-/

set_option autoImplicit false

namespace BinanceNativeApp.Websocket.Routing

open BinanceNativeApp.Library.Containers
open BinanceNativeApp.Library.Transition
open BinanceNativeApp.Websocket.Subscriptions
open BinanceNativeApp.Websocket.Runs

variable {Handle Func : Type}

structure Routed (g : World Handle Func) : Prop where
  indexed : WellIndexed g.api
  registered : g.api.subscribers.map registration = g.network.registrations
  mapped : ∀ wsi session, g.network.sessions wsi = some session →
    g.api.subscriberCallbacks.find (some wsi) = some session.owner
  opened : ∀ wsi session, g.network.sessions wsi = some session →
    ∃ path func, g.network.registrations[session.owner]? = some (path, func) ∧
      session.path = cString path
  populated : ∀ wsi, g.network.obtained wsi = true → g.api.subscribers ≠ []
  held : ∀ wsi session, g.network.sessions wsi = some session →
    g.network.obtained wsi = true

theorem registered_getElem? {g : World Handle Func} (routed : Routed g) (i : Nat) :
    g.network.registrations[i]? = (g.api.subscribers[i]?).map registration := by
  rw [← routed.registered, List.getElem?_map]

theorem initial_routed : Routed (World.initial : World Handle Func) where
  indexed := initial_wellIndexed
  registered := rfl
  mapped := by intro wsi session live; cases live
  opened := by intro wsi session live; cases live
  populated := by intro wsi obtained; cases obtained
  held := by intro wsi session live; cases live

theorem registered_routed {g : World Handle Func} (routed : Routed g) (path : Bytes)
    (func : Func) (created : Int) : Routed (g.registered path func created) where
  indexed := emplaceBack_wellIndexed routed.indexed path func created
  registered := by
    simp [World.registered, emplaceBack, Network.register, ← routed.registered, registration]
  mapped := routed.mapped
  opened := by
    intro wsi session live
    obtain ⟨path', func', earlier, opened⟩ := routed.opened wsi session live
    have inRange := (List.getElem?_eq_some_iff.mp earlier).1
    refine ⟨path', func', ?_, opened⟩
    simpa [World.registered, Network.register, List.getElem?_append_left inRange] using earlier
  populated := by simp [World.registered, emplaceBack]
  held := routed.held

variable [DecidableEq Handle]

theorem attempt_sessions {n : Network Handle Func} {info : ClientConnectInfo} {k : Nat}
    {outcome : ConnectOutcome Handle} {wsi : Handle} {session : Session}
    (live : (n.attempt info k outcome).sessions wsi = some session) :
    (outcome = .opened wsi ∧ session = ⟨k, info.path⟩) ∨
      n.sessions wsi = some session ∧ outcome ≠ .opened wsi := by
  cases outcome with
  | opened created =>
      by_cases same : wsi = created
      · subst same
        simp only [Network.attempt, Function.update_self, Option.some.injEq] at live
        exact Or.inl ⟨rfl, live.symm⟩
      · simp only [Network.attempt, Function.update_of_ne same] at live
        refine Or.inr ⟨live, ?_⟩
        rintro ⟨⟩
        exact same rfl
  | failed created reported cleared => exact Or.inr ⟨live, by rintro ⟨⟩⟩
  | refused => exact Or.inr ⟨live, by rintro ⟨⟩⟩

theorem attempt_registered (n : Network Handle Func) (info : ClientConnectInfo) (k : Nat)
    (outcome : ConnectOutcome Handle) :
    (n.attempt info k outcome).registrations = n.registrations := by
  cases outcome <;> rfl

omit [DecidableEq Handle] in
theorem fresh_ne {n : Network Handle Func} {outcome : ConnectOutcome Handle}
    (fresh : Fresh n outcome) {wsi : Handle} {session : Session}
    (live : n.sessions wsi = some session) :
    ∀ created, outcome.handle = some created → wsi ≠ created := by
  rintro created isHandle rfl
  rw [fresh wsi isHandle] at live
  cases live

theorem attempted_routed {base : World Handle Func} (routed : Routed base) {k : Nat}
    {subscriber : Subscriber Handle Func} (found : base.api.subscribers[k]? = some subscriber)
    {outcome : ConnectOutcome Handle} (fresh : Fresh base.network outcome) (completed : Int) :
    Routed (base.attempted k outcome completed (connectInfo subscriber.path)) where
  indexed := by
    apply settle_wellIndexed (afterReport_wellIndexed routed.indexed outcome)
    rw [afterReport_length]
    exact (List.getElem?_eq_some_iff.mp found).1
  registered := by
    simp only [World.attempted, attempt_registrations, attempt_registered, routed.registered]
  mapped := by
    intro wsi session live
    rcases attempt_sessions live with ⟨rfl, rfl⟩ | ⟨earlier, _⟩
    · exact UnorderedMap.find_assign_self _ _ _
    · rw [World.attempted, attempt_find_of_ne (fresh_ne fresh earlier)]
      exact routed.mapped wsi session earlier
  opened := by
    intro wsi session live
    simp only [World.attempted, attempt_registered]
    rcases attempt_sessions live with ⟨_, rfl⟩ | ⟨earlier, _⟩
    · refine ⟨subscriber.path, subscriber.callbackFunc, ?_, rfl⟩
      rw [registered_getElem? routed, found]
      rfl
    · exact routed.opened wsi session earlier
  populated := by
    intro wsi obtained empty
    have length := congrArg List.length empty
    have inRange := (List.getElem?_eq_some_iff.mp found).1
    simp only [World.attempted, settle, List.length_modify, afterReport_length,
      List.length_nil] at length
    omega
  held := by
    intro wsi session live
    have earlierHeld := routed.held wsi session
    rcases attempt_sessions live with ⟨rfl, _⟩ | ⟨earlier, _⟩
    · simp [World.attempted, Network.attempt]
    · have obtained := earlierHeld earlier
      cases outcome <;>
        simp [World.attempted, Network.attempt, Function.update_apply, obtained]

theorem callback_registered (n : Network Handle Func) (wsi : Handle) (reason : Reason) :
    (n.callback wsi reason).registrations = n.registrations ∧
      (n.callback wsi reason).obtained = n.obtained := by
  cases reason <;> exact ⟨rfl, rfl⟩

theorem callback_sessions {n : Network Handle Func} {wsi other : Handle} {reason : Reason}
    {session : Session} (live : (n.callback wsi reason).sessions other = some session) :
    n.sessions other = some session ∧
      (reason = .closed ∨ reason = .clientConnectionError → other ≠ wsi) := by
  have ended : ∀ {sessions : Handle → Option Session},
      Function.update sessions wsi none other = some session →
        sessions other = some session ∧ other ≠ wsi := by
    intro sessions still
    by_cases same : other = wsi
    · subst same
      simp at still
    · rw [Function.update_of_ne same] at still
      exact ⟨still, same⟩
  cases reason with
  | closed | clientConnectionError =>
      obtain ⟨before, different⟩ := ended live
      exact ⟨before, fun _ => different⟩
  | clientClosed => exact ⟨(ended live).1, by simp⟩
  | clientEstablished | clientReceive | clientWriteable | other =>
      exact ⟨live, by simp⟩

theorem unchanged_routed {g : World Handle Func} (routed : Routed g) (wsi : Handle)
    (reason : Reason) : Routed ⟨g.api, g.network.callback wsi reason⟩ := by
  obtain ⟨sameRegistrations, sameObtained⟩ := callback_registered g.network wsi reason
  constructor
  · exact routed.indexed
  · rw [sameRegistrations]
    exact routed.registered
  · intro other session live
    exact routed.mapped other session (callback_sessions live).1
  · intro other session live
    rw [sameRegistrations]
    exact routed.opened other session (callback_sessions live).1
  · intro other obtained
    rw [sameObtained] at obtained
    exact routed.populated other obtained
  · intro other session live
    rw [sameObtained]
    exact routed.held other session (callback_sessions live).1

theorem reportEnd_routed {g : World Handle Func} (routed : Routed g) (wsi : Handle)
    {reason : Reason} (ends : reason = .closed ∨ reason = .clientConnectionError) :
    Routed ⟨reportEnd wsi g.api, g.network.callback wsi reason⟩ := by
  have rest := unchanged_routed routed wsi reason
  constructor
  · exact reportEnd_wellIndexed routed.indexed wsi
  · rw [← rest.registered]
    exact map_registration_modify (by intro subscriber; rfl) _ _
  · intro other session live
    have different : some other ≠ some wsi := by
      simpa using (callback_sessions live).2 ends
    rw [reportEnd, UnorderedMap.find_erase_of_ne _ different]
    exact rest.mapped other session live
  · exact rest.opened
  · intro other obtained empty
    apply rest.populated other obtained
    have length := congrArg List.length empty
    simpa [reportEnd] using length
  · exact rest.held

/-- Under the contract a callback is defined; it is the report of an end, or it
leaves the api as it is. -/
theorem callback_cases {g : World Handle Func} (routed : Routed g) (c : Callback Handle)
    (permitted : (Event.callback c : Event Handle Func).Allowed g) :
    ((c.reason = .closed ∨ c.reason = .clientConnectionError) ∧
      eventCbImpl c.wsi c.reason c.input g.api = some (reportEnd c.wsi g.api, [])) ∨
    (¬ (c.reason = .closed ∨ c.reason = .clientConnectionError) ∧
      ∃ effects, eventCbImpl c.wsi c.reason c.input g.api = some (g.api, effects) ∧
        ∀ info i, Effect.clientConnectViaInfo info i ∉ effects) := by
  obtain ⟨wsi, reason, input⟩ := c
  have report : (reason = .closed ∨ reason = .clientConnectionError) →
      g.network.obtained wsi = true →
        eventCbImpl wsi reason input g.api = some (reportEnd wsi g.api, []) := by
    intro ends obtained
    exact eventCbImpl_end ends input
      (resolved_lt routed.indexed (routed.populated wsi obtained) wsi)
  cases reason with
  | closed => exact Or.inl ⟨Or.inl rfl, report (Or.inl rfl) permitted⟩
  | clientConnectionError => exact Or.inl ⟨Or.inr rfl, report (Or.inr rfl) permitted⟩
  | clientReceive =>
      obtain ⟨session, live⟩ := permitted
      have mapped := routed.mapped wsi session live
      have inRange := routed.indexed.entry_inRange _ _ mapped
      have ran := eventCbImpl_receive mapped (List.getElem?_eq_getElem inRange) input
      exact Or.inr ⟨by simp, _, ran, by simp⟩
  | clientEstablished | clientWriteable | clientClosed | other =>
      exact Or.inr ⟨by simp, _, rfl, by simp⟩

theorem callback_routed {g : World Handle Func} (routed : Routed g) {c : Callback Handle}
    (permitted : (Event.callback c : Event Handle Func).Allowed g) {api : Api Handle Func}
    {effects : List (Effect Handle Func)}
    (ran : eventCbImpl c.wsi c.reason c.input g.api = some (api, effects)) :
    Routed ⟨api, g.network.callback c.wsi c.reason⟩ := by
  rcases callback_cases routed c permitted with ⟨ends, ran'⟩ | ⟨_, _, ran', _⟩
  · cases ran.symm.trans ran'
    exact reportEnd_routed routed c.wsi ends
  · cases ran.symm.trans ran'
    exact unchanged_routed routed c.wsi c.reason

/-! ## Every reachable world -/

omit [DecidableEq Handle] in
theorem attempt_fresh {g base : World Handle Func} {event : Event Handle Func} {k : Nat}
    {outcome : ConnectOutcome Handle} {completed : Int}
    (starts : Attempt g event base k outcome completed) (permitted : event.Allowed g) :
    Fresh base.network outcome := by
  cases starts with
  | first path func created outcome completed => exact permitted
  | again found due => exact permitted.2

omit [DecidableEq Handle] in
theorem attempt_base_routed {g base : World Handle Func} {event : Event Handle Func} {k : Nat}
    {outcome : ConnectOutcome Handle} {completed : Int}
    (starts : Attempt g event base k outcome completed) (routed : Routed g) :
    Routed base := by
  cases starts with
  | first path func created outcome completed =>
      exact registered_routed routed path func created
  | again found due => exact routed

theorem routed_preserved : Preserved (world Handle Func) Routed := by
  intro g event next effects routed permitted stepped
  rcases step_cases routed.indexed stepped with
    ⟨base, k, outcome, completed, subscriber, starts, found, rfl, _⟩ |
      ⟨i, met, subscriber, _, _, _, rfl, _⟩ | ⟨c, rfl, ran, sameNetwork⟩
  · exact attempted_routed (attempt_base_routed starts routed) found
      (attempt_fresh starts permitted) completed
  · exact routed
  · have routed' := callback_routed routed permitted ran
    rw [← sameNetwork] at routed'
    exact routed'

theorem reachable_routed {g : World Handle Func} (reached : Reachable (world Handle Func) g) :
    Routed g :=
  invariant_of_preserved routed_preserved initial_routed reached

/-- No run indexes `subscribers_` out of range. -/
theorem step_defined {g : World Handle Func} (routed : Routed g) (event : Event Handle Func)
    (permitted : event.Allowed g) : ∃ next effects, g.step event = some (next, effects) := by
  have ofAttempt : ∀ {base k outcome completed}, Attempt g event base k outcome completed →
      ∃ next effects, g.step event = some (next, effects) := by
    intro base k outcome completed starts
    obtain ⟨_, subscriber, found, _⟩ := attempt_begins routed.indexed starts
    exact ⟨_, _, attempt_step routed.indexed starts found⟩
  cases event with
  | connectEndpoint path func created outcome completed =>
      exact ofAttempt (.first path func created outcome completed)
  | visit i met =>
      obtain ⟨subscriber, found⟩ : ∃ subscriber, g.api.subscribers[i]? = some subscriber :=
        ⟨_, List.getElem?_eq_getElem permitted.1⟩
      by_cases due : reconnectDue subscriber met.now = true
      · exact ofAttempt (.again found due)
      · exact ⟨_, _, by simp only [World.step, visit, found, due]; rfl⟩
  | callback c =>
      rcases callback_cases routed c permitted with ⟨_, ran⟩ | ⟨_, _, ran, _⟩
      · exact ⟨_, _, by simp only [World.step, ran]; rfl⟩
      · exact ⟨_, _, by simp only [World.step, ran]; rfl⟩

/-- Data on an open handle invokes one function, the one registered together
with the path the handle was opened with (which libwebsockets read up to its
first NUL), on the received bytes, and changes nothing; no event of any run is
undefined. -/
theorem receive_reaches_registered_func {g : World Handle Func}
    (reached : Reachable (world Handle Func) g) :
    (∀ event : Event Handle Func, event.Allowed g → (g.step event).isSome) ∧
      ∀ (wsi : Handle) (session : Session) (message : StringView),
        g.network.sessions wsi = some session →
          ∃ path func, g.network.registrations[session.owner]? = some (path, func) ∧
            session.path = cString path ∧
            eventCbImpl wsi .clientReceive message g.api =
              some (g.api, [.callbackFunc func message]) := by
  have routed := reachable_routed reached
  constructor
  · intro event permitted
    obtain ⟨next, effects, stepped⟩ := step_defined routed event permitted
    simp [stepped]
  · intro wsi session message live
    obtain ⟨path, func, registered, opened⟩ := routed.opened wsi session live
    have mapped := routed.mapped wsi session live
    rw [registered_getElem? routed] at registered
    obtain ⟨subscriber, found, same⟩ := Option.map_eq_some_iff.mp registered
    have funcEq : subscriber.callbackFunc = func := congrArg Prod.snd same
    refine ⟨path, func, ?_, opened, ?_⟩
    · rw [registered_getElem? routed, found, Option.map_some, same]
    · rw [eventCbImpl_receive mapped found message, funcEq]

def oneSession : World Nat Nat :=
  (World.initial.registered [47] 5 0).attempted 0 (.opened 1) 0 (connectInfo [47])

theorem oneSession_reachable : Reachable (world Nat Nat) oneSession := by
  have permitted : (world Nat Nat).allowed World.initial
      (.connectEndpoint [47] 5 0 (.opened 1) 0) := by
    intro wsi _
    rfl
  have stepped : (world Nat Nat).step World.initial
      (.connectEndpoint [47] 5 0 (.opened 1) 0) =
        some (oneSession, [.clientConnectViaInfo (connectInfo [47]) 0]) := rfl
  exact reachable_step reachable_init permitted stepped

theorem receive_reaches_registered_func_oneSession :
    ∃ path func, oneSession.network.registrations[0]? = some (path, func) ∧
      [47] = cString path ∧
      eventCbImpl 1 .clientReceive (StringView.ofString [123, 125]) oneSession.api =
        some (oneSession.api, [.callbackFunc func (StringView.ofString [123, 125])]) :=
  (receive_reaches_registered_func oneSession_reachable).2 1 ⟨0, [47]⟩ _ rfl

end BinanceNativeApp.Websocket.Routing
