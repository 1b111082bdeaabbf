import BinanceNativeApp.Program.Process

/-!
# What a pass asks of the client

The subscriptions do not change in a pass, and each message on an open session
makes one call of the function of a subscription.  What comes of the call
depends on the message, and on whether the ticker is still there.
-/

set_option autoImplicit false

namespace BinanceNativeApp.Program

open BinanceNativeApp.Library.Containers
open BinanceNativeApp.Library.Json
open BinanceNativeApp.Library.Transition
open BinanceNativeApp.Ticker
open BinanceNativeApp.Websocket.Subscriptions
open BinanceNativeApp.Websocket.Runs
open BinanceNativeApp.Websocket.Routing
open BinanceNativeApp.Websocket.Passes

variable {Handle : Type}

def Output.call : Output Handle → Option ClientCall
  | .client call => some call
  | _ => none

/-- What is asked of the MQTT client. -/
def calls (outputs : List (Output Handle)) : List ClientCall := outputs.filterMap Output.call

/-- The messages that arrive, each with the time of its callback. -/
def heard (callbacks : List (Callback Handle × Int64)) : List (StringView × Int64) :=
  callbacks.filterMap fun one =>
    if one.1.reason = .clientReceive then some (one.1.input, one.2) else none

def PublishedAs (reader : Reader) (write : Value → Bytes) (message : StringView × Int64)
    (call : ClientCall) : Prop :=
  ∃ publication, subscribeCallback reader write message.2 message.1 = .ok [publication] ∧
    call = .publish publication

def TickersAlive (tickers : Objects Unit) (g : World Handle Nat) : Prop :=
  ∀ registration ∈ g.network.registrations, ∃ ticker, tickers.read registration.2 = some ticker

def TickersGone (tickers : Objects Unit) (g : World Handle Nat) : Prop :=
  ∀ registration ∈ g.network.registrations, tickers.read registration.2 = none

theorem calls_append (first second : List (Output Handle)) :
    calls (first ++ second) = calls first ++ calls second :=
  List.filterMap_append

theorem calls_network (effects : List (Effect Handle Nat)) :
    calls (effects.map Output.network) = [] := by
  apply List.filterMap_eq_nil_iff.mpr
  intro output member
  obtain ⟨effect, _, rfl⟩ := List.mem_map.mp member
  rfl

/-! ## The visits and the callbacks -/

variable [DecidableEq Handle]

theorem visit_registrations {g next : World Handle Nat} {i : Nat} {met : Visit Handle}
    {effects : List (Effect Handle Nat)} (routed : Routed g)
    (stepped : g.step (.visit i met) = some (next, effects)) :
    next.network.registrations = g.network.registrations := by
  obtain ⟨base, k, outcome, completed, subscriber, starts, _, rfl, _⟩ |
    ⟨_, _, _, _, _, _, rfl, _⟩ | ⟨c, same, _⟩ := step_cases routed.indexed stepped
  · cases starts with
    | again found due => exact attempt_registered _ _ _ _
  · rfl
  · cases same

theorem visits_spec {script : Nat → Visit Handle} {positions : List Nat} {g : World Handle Nat}
    (routed : Routed g)
    (offered : Offered (world Handle Nat) (positions.map fun i => .visit i (script i)) g) :
    ∃ next attempts, sequence (fun i g => World.step g (.visit i (script i))) positions g =
        some (next, attempts) ∧
      Routed next ∧ next.network.registrations = g.network.registrations := by
  induction positions generalizing g with
  | nil => exact ⟨g, [], rfl, routed, rfl⟩
  | cons i rest ih =>
      obtain ⟨permitted, later⟩ := offered
      obtain ⟨middle, first, stepped⟩ :=
        step_defined routed (Websocket.Runs.Event.visit i (script i)) permitted
      obtain ⟨next, attempts, ran, routedNext, same⟩ :=
        ih (routed_preserved _ _ _ _ routed permitted stepped) (later middle first stepped)
      refine ⟨next, first ++ attempts, ?_, routedNext,
        same.trans (visit_registrations routed stepped)⟩
      simp only [Library.Transition.sequence, stepped, Option.bind_eq_bind, Option.bind_some, ran]

theorem eventCbImpl_calls {wsi : Handle} {reason : Reason} {input : StringView}
    {s after : Api Handle Nat} {effects : List (Effect Handle Nat)}
    (other : reason ≠ .clientReceive)
    (ran : eventCbImpl wsi reason input s = some (after, effects)) :
    ∀ func message, .callbackFunc func message ∉ effects := by
  intro func message member
  cases reason with
  | clientReceive => exact other rfl
  | closed | clientConnectionError =>
      simp only [eventCbImpl] at ran
      split at ran
      · cases ran
      · obtain ⟨_, rfl⟩ := Prod.mk.inj (Option.some.inj ran)
        cases member
  | clientEstablished =>
      obtain ⟨_, rfl⟩ := Prod.mk.inj (Option.some.inj ran)
      cases List.mem_singleton.mp member
  | clientWriteable | clientClosed | other =>
      obtain ⟨_, rfl⟩ := Prod.mk.inj (Option.some.inj ran)
      cases member

theorem callback_step {g : World Handle Nat} (routed : Routed g) {c : Callback Handle}
    (permitted : (Websocket.Runs.Event.callback c : Websocket.Runs.Event Handle Nat).Allowed g) :
    ∃ next effects, g.step (.callback c) = some (next, effects) ∧ Routed next ∧
      next.network.registrations = g.network.registrations ∧
      ((c.reason = .clientReceive ∧ ∃ registration ∈ g.network.registrations,
          effects = [.callbackFunc registration.2 c.input]) ∨
        (c.reason ≠ .clientReceive ∧
          ∀ ticker message, .callbackFunc ticker message ∉ effects)) := by
  obtain ⟨next, effects, stepped⟩ := step_defined routed _ permitted
  have routedNext : Routed next :=
    routed_preserved g (.callback c) next effects routed permitted stepped
  obtain ⟨⟨api, emitted⟩, ran, same⟩ := Option.map_eq_some_iff.mp stepped
  obtain ⟨rfl, rfl⟩ := Prod.mk.inj same
  refine ⟨_, _, stepped, routedNext, (callback_registered g.network c.wsi c.reason).1, ?_⟩
  by_cases receives : c.reason = .clientReceive
  · refine .inl ⟨receives, ?_⟩
    obtain ⟨session, live⟩ : ∃ session, g.network.sessions c.wsi = some session := by
      simpa [Websocket.Runs.Event.Allowed, receives] using permitted
    obtain ⟨path, ticker, registered, -⟩ := routed.opened c.wsi session live
    have mapped := routed.mapped c.wsi session live
    rw [registered_getElem? routed] at registered
    obtain ⟨subscriber, found, registration⟩ := Option.map_eq_some_iff.mp registered
    rw [receives, eventCbImpl_receive mapped found] at ran
    obtain ⟨_, rfl⟩ := Prod.mk.inj (Option.some.inj ran)
    refine ⟨(path, ticker), ?_, ?_⟩
    · apply List.mem_of_getElem? (i := session.owner)
      rw [registered_getElem? routed, found, Option.map_some, registration]
    · rw [← congrArg Prod.snd registration]
      rfl
  · exact .inr ⟨receives, eventCbImpl_calls receives ran⟩

/-! ## What the functions do -/

section Execution
omit [DecidableEq Handle]
variable {reader : Reader} {write : Value → Bytes} {tickers : Objects Unit} {epoch : Int64}

theorem executeAll_silent {effects : List (Effect Handle Nat)}
    (silent : ∀ ticker message, .callbackFunc ticker message ∉ effects) :
    executeAll reader write tickers epoch effects = some (true, effects.map .network) := by
  induction effects with
  | nil => rfl
  | cons effect rest ih =>
      have later : executeAll reader write tickers epoch rest = some (true, rest.map .network) :=
        ih fun ticker message member => silent ticker message (List.mem_cons_of_mem _ member)
      cases effect with
      | callbackFunc ticker message => exact absurd List.mem_cons_self (silent ticker message)
      | callbackOnWritable wsi => simp [executeAll, execute, later]
      | clientConnectViaInfo info pwsi => simp [executeAll, execute, later]

/-- A stream message is published, and any other aborts the process. -/
theorem executeAll_alive (Handle : Type) (reader : Reader) (write : Value → Bytes)
    (epoch : Int64) {ticker : Nat} (message : StringView) {object : Unit}
    (alive : tickers.read ticker = some object) :
    (∃ call, PublishedAs reader write (message, epoch) call ∧
      executeAll reader write tickers epoch [.callbackFunc ticker message] =
        some (true, ([.client call] : List (Output Handle)))) ∨
    (¬ StreamMessage reader message.dataString ∧
      executeAll reader write tickers epoch [.callbackFunc ticker message] =
        some (false, ([] : List (Output Handle)))) := by
  cases ran : subscribeCallback reader write epoch message with
  | error violation =>
      refine .inr ⟨?_, by simp [executeAll, execute, ran]⟩
      intro streams
      obtain ⟨published, passed⟩ := subscribeCallback_passes_iff.mpr streams
      rw [ran] at passed
      cases passed
  | ok published =>
      obtain ⟨one, rfl⟩ := subscribeCallback_publishes_one ran
      exact .inl ⟨_, ⟨one, ran, rfl⟩, by simp [executeAll, execute, ran, alive]⟩

theorem executeAll_gone (Handle : Type) (reader : Reader) (write : Value → Bytes)
    (epoch : Int64) {ticker : Nat} (message : StringView) (gone : tickers.read ticker = none) :
    (StreamMessage reader message.dataString ∧
      executeAll reader write tickers epoch [.callbackFunc ticker message] =
        (none : Option (Bool × List (Output Handle)))) ∨
    (¬ StreamMessage reader message.dataString ∧
      executeAll reader write tickers epoch [.callbackFunc ticker message] =
        some (false, ([] : List (Output Handle)))) := by
  rw [← @subscribeCallback_passes_iff reader write epoch]
  cases ran : subscribeCallback reader write epoch message with
  | error violation =>
      refine .inr ⟨?_, by simp [executeAll, execute, ran]⟩
      intro passes
      obtain ⟨published, passed⟩ := passes
      cases passed
  | ok published => exact .inl ⟨⟨published, rfl⟩, by simp [executeAll, execute, ran, gone]⟩

end Execution

/-! ## Serving the callbacks -/

/-- `answered` are the messages that were published.  The process is aborted at
the first one that is no stream message. -/
structure Served (reader : Reader) (write : Value → Bytes) (messages : List (StringView × Int64))
    (ok : Bool) (outputs : List (Output Handle)) (answered : List (StringView × Int64)) :
    Prop where
  published : List.Forall₂ (PublishedAs reader write) answered (calls outputs)
  whole : ok = true → answered = messages
  cut : ok = false → ∃ message, answered ++ [message] <+: messages ∧
    ¬ StreamMessage reader message.1.dataString

theorem serve_spec (reader : Reader) (write : Value → Bytes) {tickers : Objects Unit}
    {callbacks : List (Callback Handle × Int64)} {g : World Handle Nat} (routed : Routed g)
    (alive : TickersAlive tickers g)
    (offered : Offered (world Handle Nat) (callbacks.map fun one => .callback one.1) g) :
    ∃ ok next outputs answered,
      serve reader write tickers callbacks g = some (ok, next, outputs) ∧ Routed next ∧
      next.network.registrations = g.network.registrations ∧
      Served reader write (heard callbacks) ok outputs answered := by
  induction callbacks generalizing g with
  | nil => exact ⟨true, g, [], [], rfl, routed, rfl, .nil, fun _ => rfl, nofun⟩
  | cons one rest ih =>
      obtain ⟨c, epoch⟩ := one
      obtain ⟨permitted, later⟩ := offered
      obtain ⟨middle, effects, stepped, routedMiddle, same, called⟩ :=
        callback_step routed permitted
      have aliveMiddle : TickersAlive tickers middle := by
        rw [TickersAlive, same]
        exact alive
      obtain ⟨ok, next, outputs, answered, ran, routedNext, sameNext, served⟩ :=
        ih routedMiddle aliveMiddle (later middle effects stepped)
      obtain ⟨receives, registration, member, rfl⟩ | ⟨other, silent⟩ := called
      · obtain ⟨object, read⟩ := alive registration member
        have head : heard ((c, epoch) :: rest) = (c.input, epoch) :: heard rest := by
          rw [heard, List.filterMap_cons, if_pos receives]
          rfl
        rw [head]
        obtain ⟨call, published, executed⟩ | ⟨noStream, executed⟩ :=
          executeAll_alive Handle reader write epoch c.input read
        · refine ⟨ok, next, .client call :: outputs,
            (c.input, epoch) :: answered, ?_, routedNext, sameNext.trans same, ?_⟩
          · simp [serve, stepped, executed, ran]
          · refine ⟨.cons published served.published, fun done => by rw [served.whole done], ?_⟩
            intro cut
            obtain ⟨message, first, bad⟩ := served.cut cut
            exact ⟨message, List.cons_prefix_cons.mpr ⟨rfl, first⟩, bad⟩
        · refine ⟨false, middle, [], [], ?_, routedMiddle, same, ?_⟩
          · simp [serve, stepped, executed]
          · refine ⟨.nil, nofun, fun _ => ⟨(c.input, epoch), ?_, noStream⟩⟩
            exact List.cons_prefix_cons.mpr ⟨rfl, List.nil_prefix⟩
      · have head : heard ((c, epoch) :: rest) = heard rest := by
          rw [heard, List.filterMap_cons, if_neg other]
          rfl
        rw [head]
        refine ⟨ok, next, effects.map .network ++ outputs, answered, ?_, routedNext,
          sameNext.trans same, ?_, served.whole, served.cut⟩
        · simp [serve, stepped, executeAll_silent silent, ran]
        · rw [calls_append, calls_network, List.nil_append]
          exact served.published

/-- What becomes of these messages when the tickers are gone: nothing is asked
of the client, and no message is survived. -/
inductive Unserved (reader : Reader) (g : World Handle Nat) :
    List (StringView × Int64) → Option (Bool × World Handle Nat × List (Output Handle)) → Prop
  | quiet {next : World Handle Nat} {outputs : List (Output Handle)} (routed : Routed next)
      (same : next.network.registrations = g.network.registrations)
      (silent : calls outputs = []) : Unserved reader g [] (some (true, next, outputs))
  | broken {message : StringView × Int64} {rest : List (StringView × Int64)}
      {next : World Handle Nat} {outputs : List (Output Handle)} (routed : Routed next)
      (same : next.network.registrations = g.network.registrations)
      (silent : calls outputs = []) (bad : ¬ StreamMessage reader message.1.dataString) :
      Unserved reader g (message :: rest) (some (false, next, outputs))
  | dangling {message : StringView × Int64} {rest : List (StringView × Int64)}
      (stream : StreamMessage reader message.1.dataString) :
      Unserved reader g (message :: rest) none

omit [DecidableEq Handle] in
theorem unserved_after {reader : Reader} {g middle : World Handle Nat}
    {messages : List (StringView × Int64)}
    {result : Option (Bool × World Handle Nat × List (Output Handle))}
    (unserved : Unserved reader middle messages result)
    (same : middle.network.registrations = g.network.registrations)
    {first : List (Output Handle)} (silent : calls first = []) :
    Unserved reader g messages
      (result.map fun (ok, next, later) => (ok, next, first ++ later)) := by
  cases unserved with
  | quiet routed kept later =>
      exact .quiet routed (kept.trans same) (by rw [calls_append, silent, later]; rfl)
  | broken routed kept later bad =>
      exact .broken routed (kept.trans same) (by rw [calls_append, silent, later]; rfl) bad
  | dangling stream => exact .dangling stream

theorem serve_gone (reader : Reader) (write : Value → Bytes) {tickers : Objects Unit}
    {callbacks : List (Callback Handle × Int64)} {g : World Handle Nat} (routed : Routed g)
    (gone : TickersGone tickers g)
    (offered : Offered (world Handle Nat) (callbacks.map fun one => .callback one.1) g) :
    Unserved reader g (heard callbacks) (serve reader write tickers callbacks g) := by
  induction callbacks generalizing g with
  | nil => exact .quiet routed rfl rfl
  | cons one rest ih =>
      obtain ⟨c, epoch⟩ := one
      obtain ⟨permitted, later⟩ := offered
      obtain ⟨middle, effects, stepped, routedMiddle, same, called⟩ :=
        callback_step routed permitted
      obtain ⟨receives, registration, member, rfl⟩ | ⟨other, silent⟩ := called
      · have head : heard ((c, epoch) :: rest) = (c.input, epoch) :: heard rest := by
          rw [heard, List.filterMap_cons, if_pos receives]
          rfl
        rw [head]
        obtain ⟨stream, executed⟩ | ⟨bad, executed⟩ :=
          executeAll_gone Handle reader write epoch c.input (gone registration member)
        · have undefined : serve reader write tickers ((c, epoch) :: rest) g = none := by
            simp [serve, stepped, executed]
          rw [undefined]
          exact .dangling stream
        · have aborted : serve reader write tickers ((c, epoch) :: rest) g =
              some (false, middle, []) := by
            simp [serve, stepped, executed]
          rw [aborted]
          exact .broken routedMiddle same rfl bad
      · have head : heard ((c, epoch) :: rest) = heard rest := by
          rw [heard, List.filterMap_cons, if_neg other]
          rfl
        have goneMiddle : TickersGone tickers middle := by
          rw [TickersGone, same]
          exact gone
        have goes : serve reader write tickers ((c, epoch) :: rest) g =
            (serve reader write tickers rest middle).map fun (ok, next, outputs) =>
              (ok, next, effects.map .network ++ outputs) := by
          simp only [serve, stepped, Option.bind_eq_bind, Option.bind_some,
            executeAll_silent silent, if_true]
          cases serve reader write tickers rest middle <;> rfl
        rw [head, goes]
        exact unserved_after (ih routedMiddle goneMiddle (later middle effects stepped)) same
          (calls_network effects)

theorem serve_sequence {reader : Reader} {write : Value → Bytes} {tickers : Objects Unit}
    {callbacks : List (Callback Handle × Int64)} {g next : World Handle Nat}
    {outputs : List (Output Handle)}
    (ran : serve reader write tickers callbacks g = some (true, next, outputs)) :
    ∃ effects, sequence (fun c g => World.step g (.callback c)) (callbacks.map Prod.fst) g =
      some (next, effects) := by
  induction callbacks generalizing g outputs with
  | nil =>
      obtain ⟨rfl, _⟩ : g = next ∧ [] = outputs := by simpa [serve] using ran
      exact ⟨[], rfl⟩
  | cons one rest ih =>
      obtain ⟨c, epoch⟩ := one
      rw [serve] at ran
      obtain ⟨⟨middle, effects⟩, stepped, ran⟩ := Option.bind_eq_some_iff.mp ran
      obtain ⟨⟨alive, executed⟩, _, ran⟩ := Option.bind_eq_some_iff.mp ran
      cases alive with
      | false => simp at ran
      | true =>
          obtain ⟨⟨ok', next', outputs'⟩, ranLater, ended⟩ := Option.bind_eq_some_iff.mp ran
          obtain ⟨rfl, rfl, _⟩ :
              ok' = true ∧ next' = next ∧ executed ++ outputs' = outputs := by
            simpa using ended
          obtain ⟨later, same⟩ := ih ranLater
          refine ⟨effects ++ later, ?_⟩
          simp only [List.map_cons, Library.Transition.sequence, stepped, Option.bind_eq_bind,
            Option.bind_some, same]

/-! ## The whole pass -/

theorem pass_cases (reader : Reader) (write : Value → Bytes) (tickers : Objects Unit)
    {script : Nat → Visit Handle} {callbacks : List (Callback Handle × Int64)}
    {g : World Handle Nat} (routed : Routed g)
    (permitted : PassAllowed script (callbacks.map Prod.fst) g) :
    ∃ middle attempts, Routed middle ∧
      middle.network.registrations = g.network.registrations ∧
      Offered (world Handle Nat) (callbacks.map fun one => .callback one.1) middle ∧
      sequence (fun i g => World.step g (.visit i (script i)))
        (List.range g.api.subscribers.length) g = some (middle, attempts) ∧
      pass reader write tickers script callbacks g =
        (serve reader write tickers callbacks middle).map fun (alive, next, outputs) =>
          (alive, next, attempts.map .network ++ outputs) := by
  rw [PassAllowed, passEvents] at permitted
  obtain ⟨visits, later⟩ := offered_of_append permitted
  obtain ⟨middle, attempts, ran, routedMiddle, same⟩ := visits_spec routed visits
  have offered := later middle attempts (by rw [sequence_map]; exact ran)
  rw [List.map_map] at offered
  refine ⟨middle, attempts, routedMiddle, same, offered, ran, ?_⟩
  simp only [pass, ran, Option.bind_eq_bind, Option.bind_some]
  cases serve reader write tickers callbacks middle <;> rfl

theorem pass_gone (reader : Reader) (write : Value → Bytes) {tickers : Objects Unit}
    {script : Nat → Visit Handle} {callbacks : List (Callback Handle × Int64)}
    {g : World Handle Nat} (routed : Routed g) (gone : TickersGone tickers g)
    (permitted : PassAllowed script (callbacks.map Prod.fst) g) :
    Unserved reader g (heard callbacks) (pass reader write tickers script callbacks g) := by
  obtain ⟨middle, attempts, routedMiddle, same, offered, _, passed⟩ :=
    pass_cases reader write tickers routed permitted
  have goneMiddle : TickersGone tickers middle := by
    rw [TickersGone, same]
    exact gone
  rw [passed]
  exact unserved_after (serve_gone reader write routedMiddle goneMiddle offered) same
    (calls_network attempts)

/-- As long as the tickers of all subscriptions are there, a pass is defined, and
each message that is received makes one publication, in the order of arrival,
up to the first that is no stream message, if there is one.  Nothing else is
asked of the client, and no subscription is lost. -/
theorem messages_published {reader : Reader} {write : Value → Bytes} {tickers : Objects Unit}
    {script : Nat → Visit Handle} {callbacks : List (Callback Handle × Int64)}
    {g : World Handle Nat} (reached : Reachable (world Handle Nat) g)
    (alive : TickersAlive tickers g)
    (permitted : PassAllowed script (callbacks.map Prod.fst) g) :
    ∃ ok next outputs answered,
      pass reader write tickers script callbacks g = some (ok, next, outputs) ∧
      next.api.subscribers.map registration = g.api.subscribers.map registration ∧
      next.network.registrations = g.network.registrations ∧
      Served reader write (heard callbacks) ok outputs answered := by
  have routed := reachable_routed reached
  obtain ⟨middle, attempts, routedMiddle, same, offered, _, passed⟩ :=
    pass_cases reader write tickers routed permitted
  have aliveMiddle : TickersAlive tickers middle := by
    rw [TickersAlive, same]
    exact alive
  obtain ⟨ok, next, outputs, answered, ran, routedNext, sameNext, served⟩ :=
    serve_spec reader write routedMiddle aliveMiddle offered
  refine ⟨ok, next, attempts.map .network ++ outputs, answered, ?_, ?_, sameNext.trans same, ?_,
    served.whole, served.cut⟩
  · rw [passed, ran]
    rfl
  · rw [routedNext.registered, routed.registered, sameNext, same]
  · rw [calls_append, calls_network, List.nil_append]
    exact served.published

theorem messages_published_oneSession :
    ∃ ok next outputs answered,
      pass bookTickerReader (fun _ => publishedText) ⟨6, UnorderedMap.empty.assign 5 ()⟩
          (fun _ => ⟨0, .refused, 0⟩)
          [(⟨1, .clientReceive, StringView.ofString bookTickerText⟩, 5)] oneSession =
        some (ok, next, outputs) ∧
      Served bookTickerReader (fun _ => publishedText)
        [(StringView.ofString bookTickerText, 5)] ok outputs answered := by
  have alive : TickersAlive ⟨6, UnorderedMap.empty.assign 5 ()⟩ oneSession := by
    intro registration member
    cases List.mem_singleton.mp member
    exact ⟨(), rfl⟩
  have permitted : PassAllowed (fun _ => ⟨0, .refused, 0⟩)
      [⟨1, .clientReceive, StringView.ofString bookTickerText⟩] oneSession := by
    refine ⟨⟨by decide, nofun⟩, ?_⟩
    intro next emitted stepped
    cases stepped
    exact ⟨⟨_, rfl⟩, fun _ _ _ => trivial⟩
  obtain ⟨ok, next, outputs, answered, ran, _, _, served⟩ :=
    @messages_published Nat _ bookTickerReader (fun _ => publishedText) _ _
      [(⟨1, .clientReceive, StringView.ofString bookTickerText⟩, 5)] _ oneSession_reachable alive
      permitted
  exact ⟨ok, next, outputs, answered, ran, served⟩

/-- As long as the process is alive, the api is the one that `event_loop`
leaves. -/
theorem pass_eventLoop {reader : Reader} {write : Value → Bytes} {tickers : Objects Unit}
    {script : Nat → Visit Handle} {callbacks : List (Callback Handle × Int64)}
    {g next : World Handle Nat} {outputs : List (Output Handle)}
    (ran : pass reader write tickers script callbacks g = some (true, next, outputs)) :
    ∃ effects, eventLoop script (callbacks.map Prod.fst) g.api = some (next.api, effects) := by
  obtain ⟨⟨middle, attempts⟩, visited, ran⟩ := Option.bind_eq_some_iff.mp ran
  obtain ⟨⟨alive, final, served⟩, ranLater, ended⟩ := Option.bind_eq_some_iff.mp ran
  obtain ⟨rfl, rfl, _⟩ :
      alive = true ∧ final = next ∧ attempts.map .network ++ served = outputs := by
    simpa using ended
  obtain ⟨effects, called⟩ := serve_sequence ranLater
  refine ⟨attempts ++ effects, ?_⟩
  have steps : sequence (fun event g => World.step g event)
      (passEvents script (callbacks.map Prod.fst) g.api.subscribers.length) g =
        some (final, attempts ++ effects) := by
    rw [passEvents, sequence_append, sequence_map, visited, Option.bind_some, sequence_map, called]
    rfl
  rw [eventLoop_responds, ← sequence_project World.api step_respond, steps]
  rfl

end BinanceNativeApp.Program
