import BinanceNativeApp.ControlRuns
import BinanceNativeApp.Library.Timers
import BinanceNativeApp.Program.Passes

/-!
# Runs of the process

`main` destroys its ticker before it enters the loop, while the subscriptions
still call it.  A message that is received is therefore never published: the
process is aborted at a message that breaks a precondition of `rapidjson`, and
behind any other its behaviour is undefined.  What is left are the pings.
-/

set_option autoImplicit false

namespace BinanceNativeApp.Program

open BinanceNativeApp.Library.Containers
open BinanceNativeApp.Library.Json
open BinanceNativeApp.Library.Timers
open BinanceNativeApp.Library.Transition
open BinanceNativeApp.Utils
open BinanceNativeApp.Ticker
open BinanceNativeApp.Streams
open BinanceNativeApp.Control (MainLoop ping isStop)
open BinanceNativeApp.Websocket.Subscriptions
open BinanceNativeApp.Websocket.Runs
open BinanceNativeApp.Websocket.Routing
open BinanceNativeApp.Websocket.Passes

/-! ## The control part of an iteration -/

/-- Up to the first NUL a JSON object, whose `command`, if there is one, is a
string. -/
def Readable (reader : Reader) (payload : Bytes) : Prop :=
  ∃ members, reader.read (cString payload) = some (.object members) ∧
    ∀ value, members.lookup (literal "command") = some value → ∃ command, value = .string command

theorem readable_iff {reader : Reader} {payload : Bytes} :
    Readable reader payload ↔ ∃ answer, isStop (reader.parse payload) = .ok answer := by
  constructor
  · intro readable
    obtain ⟨members, read, strings⟩ := readable
    have parsed := Reader.parse_of_read read
    cases named : members.lookup (literal "command") with
    | none => exact ⟨false, Control.isStop_eq_ok_iff.mpr ⟨members, parsed, .inl ⟨named, rfl⟩⟩⟩
    | some value =>
        obtain ⟨command, rfl⟩ := strings value named
        exact ⟨_, Control.isStop_eq_ok_iff.mpr ⟨members, parsed, .inr ⟨command, named, rfl⟩⟩⟩
  · intro answered
    obtain ⟨answer, answered⟩ := answered
    obtain ⟨members, parsed, commands⟩ := Control.isStop_eq_ok_iff.mp answered
    refine ⟨members, Reader.read_of_parse parsed (by simp), ?_⟩
    intro value named
    obtain ⟨absent, _⟩ | ⟨command, found, _⟩ := commands
    · rw [absent] at named
      cases named
    · rw [found] at named
      exact ⟨command, (Option.some.inj named).symm⟩

/-- Readable, and no stop command, as far as `strcmp` compares. -/
def Continues (reader : Reader) (payload : Bytes) : Prop :=
  ∃ members, reader.read (cString payload) = some (.object members) ∧
    ∀ value, members.lookup (literal "command") = some value →
      ∃ command, value = .string command ∧ cString command ≠ literal "stop"

theorem continues_iff {reader : Reader} {payload : Bytes} :
    Continues reader payload ↔ isStop (reader.parse payload) = .ok false := by
  rw [Control.isStop_eq_ok_iff]
  constructor
  · intro continues
    obtain ⟨members, read, others⟩ := continues
    refine ⟨members, Reader.parse_of_read read, ?_⟩
    cases named : members.lookup (literal "command") with
    | none => exact .inl ⟨rfl, rfl⟩
    | some value =>
        obtain ⟨command, rfl, other⟩ := others value named
        exact .inr ⟨command, rfl, (decide_eq_false other).symm⟩
  · intro answered
    obtain ⟨members, parsed, commands⟩ := answered
    refine ⟨members, Reader.read_of_parse parsed (by simp), ?_⟩
    intro value named
    obtain ⟨absent, _⟩ | ⟨command, found, other⟩ := commands
    · rw [absent] at named
      cases named
    · rw [found] at named
      exact ⟨command, (Option.some.inj named).symm, of_decide_eq_false other.symm⟩

theorem iteration_ok_iff {reader : Reader} {write : Value → Bytes} {pingTopic : Bytes}
    {current : Int} {s : MainLoop} :
    (∃ result, Control.iteration reader write pingTopic current s = .ok result) ↔
      ∀ entry ∈ s.q.take 1, Readable reader entry.2 := by
  cases queued : s.q with
  | nil =>
      refine iff_of_true ⟨ping pingTopic current s, ?_⟩ (by simp)
      rw [Control.iteration]
      simp only [Control.ping_q, queued]
      rfl
  | cons head rest =>
      rw [Control.iteration_of_head queued, List.take_succ_cons, List.take_zero,
        List.forall_mem_singleton, readable_iff]
      cases decided : isStop (reader.parse head.2) with
      | error violation => simp [Control.processPayload, decided, bind, Except.bind]
      | ok stops =>
          cases stops <;>
            simp [Control.processPayload, decided, bind, Except.bind, pure, Except.pure]

theorem iteration_running_iff {reader : Reader} {write : Value → Bytes} {pingTopic : Bytes}
    {current : Int} {s : MainLoop} (running : s.run = true) :
    (∃ next effects, Control.iteration reader write pingTopic current s = .ok (next, effects) ∧
        next.run = true) ↔ ∀ entry ∈ s.q.take 1, Continues reader entry.2 := by
  cases queued : s.q with
  | nil =>
      refine iff_of_true ⟨(ping pingTopic current s).1, (ping pingTopic current s).2, ?_, ?_⟩
        (by simp)
      · rw [Control.iteration]
        simp only [Control.ping_q, queued]
        rfl
      · rw [Control.ping_run, running]
  | cons head rest =>
      rw [List.take_succ_cons, List.take_zero, List.forall_mem_singleton, continues_iff]
      exact @Control.iteration_run_iff reader write pingTopic current s head rest running queued
        false

def secondCounted (since now : Int) : Bool := decide (1 ≤ (now - since).tdiv 1000000000)

def pingCall (options : Options) (current : Int) : ClientCall :=
  .publish ⟨cString options.pingTopic, literal (toString (current.tdiv 1000000)), 0, false⟩

def pings (options : Options) (since : Int) (readings : List Int) : List ClientCall :=
  ((polled secondCounted since readings).filter Prod.snd).map fun one => pingCall options one.1

theorem pings_cons (options : Options) (since now : Int) (rest : List Int) :
    pings options since (now :: rest) = pings options since [now] ++
      pings options (if secondCounted since now then now else since) rest := by
  by_cases due : secondCounted since now = true
  · simp [pings, polled, due]
  · simp [pings, polled, due]

section Calls
variable {Handle : Type}

theorem calls_warnings {effects : List Control.Effect}
    (warnings : ∀ effect ∈ effects, ∃ text, effect = .warn text) :
    calls (effects.map (controlOutput : Control.Effect → Output Handle)) = [] := by
  apply List.filterMap_eq_nil_iff.mpr
  intro output member
  obtain ⟨effect, inside, rfl⟩ := List.mem_map.mp member
  obtain ⟨text, rfl⟩ := warnings effect inside
  rfl

theorem calls_ping (options : Options) (current : Int) (s : MainLoop) :
    calls ((ping options.pingTopic current s).2.map
      (controlOutput : Control.Effect → Output Handle)) = pings options s.start [current] := by
  by_cases due : 1 ≤ (current - s.start).tdiv 1000000000
  · simp [ping, pings, polled, secondCounted, due, calls, controlOutput, Output.call, pingCall]
  · simp [ping, pings, polled, secondCounted, due, calls]

theorem ping_start (options : Options) (current : Int) (s : MainLoop) :
    (ping options.pingTopic current s).1.start =
      if secondCounted s.start current then current else s.start := by
  rw [secondCounted, ping]
  by_cases due : 1 ≤ (current - s.start).tdiv 1000000000
  · rw [if_pos due, if_pos (decide_eq_true due)]
  · rw [if_neg due, if_neg (by simpa using due)]

/-- The ping comes before the entry of the queue is looked at. -/
theorem afterPass_spec (Handle : Type) (reader : Reader) (write : Value → Bytes)
    (options : Options) (current : Int) (s : MainLoop) :
    ∃ alive control outputs,
      afterPass reader write options.pingTopic current s =
        ((alive, control, outputs) : Bool × MainLoop × List (Output Handle)) ∧
      control.start = (if secondCounted s.start current then current else s.start) ∧
      calls outputs = pings options s.start [current] ∧
      (alive = true ↔ ∀ entry ∈ s.q.take 1, Readable reader entry.2) ∧
      (s.run = true → (alive = true ∧ control.run = true ↔
        ∀ entry ∈ s.q.take 1, Continues reader entry.2)) := by
  have stays := @iteration_running_iff reader write options.pingTopic current s
  rw [afterPass, ← @iteration_ok_iff reader write options.pingTopic current]
  cases ran : Control.iteration reader write options.pingTopic current s with
  | error violation =>
      refine ⟨_, _, _, rfl, ping_start options current s, calls_ping options current s,
        by simp, fun running => ?_⟩
      rw [← stays running, ran]
      simp
  | ok result =>
      obtain ⟨next, effects⟩ := result
      obtain ⟨_, started, logged, rfl, warnings⟩ := Control.iteration_spec ran
      refine ⟨_, _, _, rfl, started.trans (ping_start options current s), ?_, by simp,
        fun running => ?_⟩
      · rw [List.map_append, calls_append, calls_ping, calls_warnings warnings, List.append_nil]
      · rw [← stays running, ran]
        simp

end Calls

/-! ## The subscriptions of the beginning -/

variable {Handle : Type} [DecidableEq Handle]

theorem connect_step {g : World Handle Nat} (routed : Routed g) (path : Bytes) (ticker : Nat)
    {opening : Opening Handle} (fresh : Fresh g.network opening.outcome) :
    ∃ next effects, g.step (.connectEndpoint path ticker opening.created opening.outcome
        opening.completed) = some (next, effects) ∧ Routed next ∧
      next.network.registrations = g.network.registrations ++ [(path, ticker)] ∧
      ∀ wsi, opening.outcome ≠ .opened wsi → g.network.sessions wsi = none →
        next.network.sessions wsi = none := by
  have starts := Attempt.first (g := g) path ticker opening.created opening.outcome
    opening.completed
  obtain ⟨_, subscriber, found, _⟩ := attempt_begins routed.indexed starts
  have stepped := attempt_step routed.indexed starts found
  have routedNext := routed_preserved g (.connectEndpoint path ticker opening.created
    opening.outcome opening.completed) _ _ routed fresh stepped
  refine ⟨_, _, stepped, routedNext, attempt_registered _ _ _ _, ?_⟩
  intro wsi other closed
  cases live : ((g.registered path ticker opening.created).attempted g.api.subscribers.length
      opening.outcome opening.completed (connectInfo subscriber.path)).network.sessions wsi with
  | none => rfl
  | some session =>
      obtain ⟨opened, _⟩ | ⟨earlier, _⟩ := attempt_sessions live
      · exact absurd opened other
      · exact absurd (closed.symm.trans earlier) (by simp)

/-- Both subscriptions are made, and their ticker is gone when they are. -/
theorem subscribeStreams_spec (symbols : Bytes) {bookTicker aggTrade : Opening Handle}
    {s : Process Handle} (routed : Routed s.world)
    (closed : ∀ wsi, s.world.network.sessions wsi = none)
    (gone : TickersGone s.tickers s.world)
    (different : ∀ wsi, bookTicker.outcome = .opened wsi → aggTrade.outcome.handle ≠ some wsi) :
    ∃ next effects, subscribeStreams symbols bookTicker aggTrade s = some (next, effects) ∧
      Routed next.world ∧ TickersGone next.tickers next.world ∧ next.control = s.control := by
  by_cases given : symbols.length ≠ 0
  · have pairs : split symbols 59 ≠ [] := by
      intro empty
      exact given (List.length_eq_zero_iff.mpr ((split_eq_nil_iff symbols 59).mp empty))
    obtain ⟨middle, first, steppedFirst, routedMiddle, registeredMiddle, stillClosed⟩ :=
      connect_step routed (literal "/stream?streams=" ++ [slash].intercalate
        ((split symbols 59).map (streamOf (literal "bookTicker")))) s.tickers.next
        (fun wsi _ => closed wsi : Fresh s.world.network bookTicker.outcome)
    obtain ⟨next, second, steppedSecond, routedNext, registeredNext, _⟩ :=
      connect_step routedMiddle (literal "/stream?streams=" ++ [slash].intercalate
        ((split symbols 59).map (streamOf (literal "aggTrade")))) s.tickers.next
        (fun wsi handle => stillClosed wsi (fun opened => different wsi opened handle)
          (closed wsi) : Fresh middle.network aggTrade.outcome)
    refine ⟨{ s with world := next, tickers := (s.tickers.create ()).2.destroy s.tickers.next },
      first ++ second, ?_, routedNext, ?_, rfl⟩
    · rw [subscribeStreams, if_pos given]
      simp only [channel_of_ne_nil pairs, Objects.create, Option.bind_eq_bind, Option.bind_some,
        steppedFirst, steppedSecond]
    · intro registration member
      by_cases own : registration.2 = s.tickers.next
      · rw [own]
        exact Objects.read_destroy_self _ _
      · rw [Objects.read_destroy_of_ne _ own, Objects.read_create_of_ne _ _ own]
        rw [registeredNext, registeredMiddle, List.append_assoc] at member
        obtain earlier | new := List.mem_append.mp member
        · exact gone registration earlier
        · simp only [List.cons_append, List.nil_append, List.mem_cons, List.not_mem_nil,
            or_false] at new
          obtain rfl | rfl := new <;> exact absurd rfl own
  · refine ⟨s, [], ?_, routed, gone, rfl⟩
    rw [subscribeStreams, if_neg given]

/-! ## One move -/

structure Sound (s : Process Handle) : Prop where
  routed : Routed s.world
  gone : TickersGone s.tickers s.world
  unopened : s.stage = .starting → ∀ wsi, s.world.network.sessions wsi = none

omit [DecidableEq Handle] in
theorem initial_sound : Sound (Process.initial : Process Handle) where
  routed := initial_routed
  gone := by intro registration member; cases member
  unopened := by intro _ wsi; rfl

theorem start_spec (options : Options) (clientId : Bytes) (answers : Answers)
    {bookTicker aggTrade : Opening Handle} (now : Int) {s : Process Handle} (sound : Sound s)
    (permitted : (Event.start clientId answers bookTicker aggTrade now).Allowed s) :
    ∃ next outputs, start options clientId answers bookTicker aggTrade now s =
        some (next, outputs) ∧ Sound next ∧
      calls outputs = (connectClient options clientId answers).1 ∧
      next.stage = (if (connectClient options clientId answers).2 then .up else .failed) ∧
      next.control = (if (connectClient options clientId answers).2
        then ⟨true, now, s.control.q⟩ else s.control) := by
  obtain ⟨starting, different⟩ := permitted
  have asked : ∀ requests : List ClientCall,
      calls (requests.map (Output.client : ClientCall → Output Handle)) = requests := by
    intro requests
    rw [calls, List.filterMap_map]
    exact List.filterMap_some
  cases connected : (connectClient options clientId answers).2 with
  | false =>
      refine ⟨{ s with stage := .failed }, (connectClient options clientId answers).1.map .client,
        ?_, ⟨sound.routed, sound.gone, nofun⟩, asked _, rfl, rfl⟩
      simp only [start, connected, Bool.false_eq_true, if_false]
  | true =>
      obtain ⟨after, effects, subscribed, routed, gone, same⟩ := subscribeStreams_spec
        options.symbols sound.routed (sound.unopened starting) sound.gone different
      refine ⟨{ after with stage := .up, control := ⟨true, now, after.control.q⟩ },
        (connectClient options clientId answers).1.map .client ++ effects.map .network, ?_,
        ⟨routed, gone, nofun⟩, ?_, rfl, by rw [same]; rfl⟩
      · simp only [start, connected, subscribed, if_true, Option.bind_eq_bind, Option.bind_some]
      · rw [calls_append, asked, calls_network, List.append_nil]

inductive Iterated (reader : Reader) (options : Options) (current : Int) (s : Process Handle) :
    List (StringView × Int64) → Option (Process Handle × List (Output Handle)) → Prop
  | quiet {next : Process Handle} {outputs : List (Output Handle)} (sound : Sound next)
      (stage : next.stage = .up ∧ (∀ entry ∈ s.control.q.take 1, Readable reader entry.2) ∨
        next.stage = .aborted ∧ ¬ ∀ entry ∈ s.control.q.take 1, Readable reader entry.2)
      (running : next.stage = .up ∧ next.control.run = true ↔
        ∀ entry ∈ s.control.q.take 1, Continues reader entry.2)
      (started : next.control.start =
        if secondCounted s.control.start current then current else s.control.start)
      (pinged : calls outputs = pings options s.control.start [current]) :
      Iterated reader options current s [] (some (next, outputs))
  | broken {message : StringView × Int64} {rest : List (StringView × Int64)}
      {next : Process Handle} {outputs : List (Output Handle)} (sound : Sound next)
      (aborted : next.stage = .aborted) (silent : calls outputs = [])
      (bad : ¬ StreamMessage reader message.1.dataString) :
      Iterated reader options current s (message :: rest) (some (next, outputs))
  | dangling {message : StringView × Int64} {rest : List (StringView × Int64)}
      (stream : StreamMessage reader message.1.dataString) :
      Iterated reader options current s (message :: rest) none

theorem iteration_outcome (reader : Reader) (write : Value → Bytes) (options : Options)
    {script : Nat → Visit Handle} {callbacks : List (Callback Handle × Int64)} (current : Int)
    {s : Process Handle} (sound : Sound s)
    (permitted : (Event.iteration script callbacks current).Allowed s) :
    Iterated reader options current s (heard callbacks)
      (iteration reader write options script callbacks current s) := by
  obtain ⟨up, run, passAllowed⟩ := permitted
  have unserved := pass_gone reader write sound.routed sound.gone passAllowed
  generalize heard callbacks = messages at unserved
  generalize passed : pass reader write s.tickers script callbacks s.world = result at unserved
  rw [iteration, passed]
  have soundAfter : ∀ {world : World Handle Nat} {stage : Stage} {control : MainLoop},
      Routed world → world.network.registrations = s.world.network.registrations →
        stage ≠ .starting →
          Sound { s with stage := stage, control := control, world := world } := by
    intro world stage control routed same begun
    refine ⟨routed, ?_, fun starting => absurd starting begun⟩
    rw [TickersGone, same]
    exact sound.gone
  cases unserved with
  | dangling stream => exact .dangling stream
  | broken routed same silent bad =>
      exact .broken (soundAfter routed same (by decide)) rfl silent bad
  | quiet routed same silent =>
      rename_i world served
      obtain ⟨alive, control, outputs, after, started, pinged, readable, stays⟩ :=
        afterPass_spec Handle reader write options current s.control
      have stays := stays run
      simp only [Option.bind_eq_bind, Option.bind_some, if_true, after]
      cases alive with
      | true =>
          refine .quiet (soundAfter routed same ?_) (.inl ⟨up, readable.mp rfl⟩) ?_ started ?_
          · rw [if_pos rfl, up]
            decide
          · rw [← stays]
            exact and_congr_left' (iff_of_true up rfl)
          · rw [calls_append, silent, pinged]
            rfl
      | false =>
          refine .quiet (soundAfter routed same (by simp)) (.inr ⟨rfl, ?_⟩) ?_ started ?_
          · intro read
            exact absurd (readable.mpr read) (by decide)
          · rw [← stays]
            exact and_congr_left' (iff_of_false (by simp) (by simp))
          · rw [calls_append, silent, pinged]
            rfl

theorem sound_preserved {reader : Reader} {write : Value → Bytes} {options : Options} :
    Preserved (program reader write options) (Sound : Process Handle → Prop) := by
  intro s event next outputs sound permitted stepped
  cases event with
  | start clientId answers bookTicker aggTrade now =>
      obtain ⟨after, asked, ran, soundAfter, _⟩ :=
        start_spec options clientId answers now sound permitted
      obtain ⟨rfl, _⟩ := Prod.mk.inj (Option.some.inj (ran.symm.trans stepped))
      exact soundAfter
  | arrived topicName payload =>
      obtain ⟨rfl, _⟩ := Prod.mk.inj (Option.some.inj stepped)
      exact ⟨sound.routed, sound.gone, sound.unopened⟩
  | iteration script callbacks current =>
      have outcome := iteration_outcome reader write options current sound permitted
      rw [show iteration reader write options script callbacks current s = _ from stepped]
        at outcome
      generalize heard callbacks = messages at outcome
      cases outcome with
      | quiet soundNext _ _ _ _ => exact soundNext
      | broken soundNext _ _ _ => exact soundNext
  | leave =>
      obtain ⟨rfl, _⟩ := Prod.mk.inj (Option.some.inj stepped)
      exact ⟨sound.routed, sound.gone, nofun⟩

theorem reachable_sound {reader : Reader} {write : Value → Bytes} {options : Options}
    {s : Process Handle} (reached : Reachable (program reader write options) s) : Sound s :=
  invariant_of_preserved sound_preserved initial_sound reached

/-- The process goes on to another iteration exactly if no message is received in
this one and the entry that it takes out of the queue, if there is one, can be
read and does not ask for the end; it survives exactly if none is received and
the entry can be read.  A stream message that comes first is the one thing that
leads out of defined behaviour. -/
theorem iteration_survived_iff {reader : Reader} {write : Value → Bytes} {options : Options}
    {script : Nat → Visit Handle} {callbacks : List (Callback Handle × Int64)} {current : Int}
    {s : Process Handle} (reached : Reachable (program reader write options) s)
    (permitted : (Event.iteration script callbacks current).Allowed s) :
    ((∃ next outputs, iteration reader write options script callbacks current s =
          some (next, outputs) ∧ next.stage = .up ∧ next.control.run = true) ↔
      heard callbacks = [] ∧ ∀ entry ∈ s.control.q.take 1, Continues reader entry.2) ∧
    ((∃ next outputs, iteration reader write options script callbacks current s =
          some (next, outputs) ∧ next.stage = .up) ↔
      heard callbacks = [] ∧ ∀ entry ∈ s.control.q.take 1, Readable reader entry.2) ∧
    (iteration reader write options script callbacks current s = none ↔
      ∃ message rest, heard callbacks = message :: rest ∧
        StreamMessage reader message.1.dataString) := by
  have outcome := iteration_outcome reader write options current (reachable_sound reached) permitted
  generalize heard callbacks = messages at outcome
  generalize iteration reader write options script callbacks current s = result at outcome
  cases outcome with
  | @quiet next outputs _ stage running _ _ =>
      refine ⟨?_, ?_, by simp⟩
      · rw [← running]
        constructor
        · intro survived
          obtain ⟨_, _, same, stays⟩ := survived
          obtain ⟨rfl, _⟩ := Prod.mk.inj (Option.some.inj same)
          exact ⟨rfl, stays⟩
        · exact fun both => ⟨next, outputs, rfl, both.2⟩
      · obtain ⟨up, readable⟩ | ⟨aborted, unreadable⟩ := stage
        · exact iff_of_true ⟨next, outputs, rfl, up⟩ ⟨rfl, readable⟩
        · exact iff_of_false (by simp [aborted]) (fun both => unreadable both.2)
  | broken _ aborted _ bad =>
      refine ⟨iff_of_false (by simp [aborted]) (by simp),
        iff_of_false (by simp [aborted]) (by simp), iff_of_false (by simp) ?_⟩
      intro heardFirst
      obtain ⟨first, others, same, stream⟩ := heardFirst
      obtain ⟨rfl, _⟩ := List.cons.inj same
      exact bad stream
  | dangling stream => exact ⟨by simp, by simp, iff_of_true rfl ⟨_, _, rfl, stream⟩⟩

def oneSymbol : Options := { Options.default with symbols := literal "ethbtc" }

def oneStart : Event Nat :=
  .start (literal "id") ⟨0, 0, 0⟩ ⟨0, .opened 1, 0⟩ ⟨0, .refused, 0⟩ 0

def bookTickerPath : Bytes := literal "/stream?streams=ethbtc@bookTicker"

def aggTradePath : Bytes := literal "/stream?streams=ethbtc@aggTrade"

def oneStream : Process Nat :=
  ⟨.up, ⟨true, 0, []⟩,
    ((((World.initial.registered bookTickerPath 0 0).attempted 0 (.opened 1) 0
      (connectInfo bookTickerPath)).registered aggTradePath 0 0).attempted 1 .refused 0
      (connectInfo aggTradePath)),
    (Objects.empty.create ()).2.destroy 0⟩

theorem oneStart_stepped (reader : Reader) (write : Value → Bytes) :
    ∃ outputs, (program reader write oneSymbol).step Process.initial oneStart =
      some (oneStream, outputs) := by
  have bookTicker : channel (split (literal "ethbtc") 59) (literal "bookTicker") =
      some bookTickerPath := by decide +kernel
  have aggTrade : channel (split (literal "ethbtc") 59) (literal "aggTrade") =
      some aggTradePath := by decide +kernel
  have subscribed : ∃ effects, subscribeStreams oneSymbol.symbols ⟨0, .opened 1, 0⟩
      ⟨0, .refused, 0⟩ Process.initial =
        some ({ oneStream with stage := .starting }, effects) := by
    rw [subscribeStreams, if_pos (by decide)]
    simp only [oneSymbol, bookTicker, aggTrade]
    exact ⟨_, rfl⟩
  obtain ⟨effects, subscribed⟩ := subscribed
  refine ⟨(connectClient oneSymbol (literal "id") ⟨0, 0, 0⟩).1.map .client ++
    effects.map .network, ?_⟩
  have granted : (connectClient oneSymbol (literal "id") ⟨0, 0, 0⟩).2 = true := by decide
  simp only [program, step, oneStart, start, granted, subscribed, if_true, Option.bind_eq_bind,
    Option.bind_some]
  rfl

theorem oneStream_reachable (reader : Reader) (write : Value → Bytes) :
    Reachable (program reader write oneSymbol) oneStream := by
  obtain ⟨outputs, stepped⟩ := oneStart_stepped reader write
  have permitted : (program reader write oneSymbol).allowed Process.initial oneStart :=
    ⟨rfl, nofun⟩
  exact reachable_step reachable_init permitted stepped

def bookTickerReceived : List (Callback Nat × Int64) :=
  [(⟨1, .clientReceive, StringView.ofString bookTickerText⟩, 5)]

theorem bookTickerReceived_allowed :
    (Event.iteration (fun _ => ⟨0, .refused, 0⟩) bookTickerReceived 0).Allowed oneStream := by
  refine ⟨rfl, rfl, ⟨by decide, nofun⟩, ?_⟩
  intro next emitted stepped
  cases stepped
  refine ⟨⟨by decide, nofun⟩, ?_⟩
  intro next emitted stepped
  cases stepped
  exact ⟨⟨_, rfl⟩, fun _ _ _ => trivial⟩

def stopQueued : Process Nat :=
  { oneStream with control := ⟨true, 0, [(ControlRuns.controlTopic, Control.stopText)]⟩ }

theorem stopQueued_reachable (write : Value → Bytes) :
    Reachable (program ControlRuns.stopReader write oneSymbol) stopQueued := by
  have permitted : (program ControlRuns.stopReader write oneSymbol).allowed oneStream
      (.arrived ControlRuns.controlTopic Control.stopText) := rfl
  exact reachable_step (oneStream_reachable _ _) permitted rfl

theorem nothingReceived_allowed :
    (Event.iteration (fun _ => ⟨0, .refused, 0⟩) [] 0).Allowed stopQueued := by
  refine ⟨rfl, rfl, ⟨by decide, nofun⟩, ?_⟩
  intro next emitted stepped
  cases stepped
  exact ⟨⟨by decide, nofun⟩, fun _ _ _ => trivial⟩

theorem iteration_survived_iff_oneStream :
    iteration bookTickerReader (fun _ => publishedText) oneSymbol (fun _ => ⟨0, .refused, 0⟩)
        bookTickerReceived 0 oneStream = none ∧
      ∃ next outputs, iteration ControlRuns.stopReader (fun _ => []) oneSymbol
        (fun _ => ⟨0, .refused, 0⟩) [] 0 stopQueued = some (next, outputs) ∧
          next.stage = .up ∧ next.control.run = false := by
  constructor
  · exact (iteration_survived_iff (oneStream_reachable _ _)
      bookTickerReceived_allowed).2.2.mpr ⟨_, _, rfl, _, _, _, rfl, rfl, rfl⟩
  · obtain ⟨goesOn, survives, _⟩ :=
      iteration_survived_iff (stopQueued_reachable fun _ => []) nothingReceived_allowed
    have readable : Readable ControlRuns.stopReader Control.stopText := by
      refine ⟨[(literal "command", .string (literal "stop"))], rfl, ?_⟩
      intro value named
      cases named
      exact ⟨_, rfl⟩
    have stops : ¬ Continues ControlRuns.stopReader Control.stopText := by
      intro continues
      obtain ⟨members, read, others⟩ := continues
      cases read
      obtain ⟨command, same, different⟩ := others (.string (literal "stop")) rfl
      cases same
      exact different (by decide)
    obtain ⟨next, outputs, ran, up⟩ :=
      survives.mpr ⟨rfl, by simpa [stopQueued] using readable⟩
    refine ⟨next, outputs, ran, up, ?_⟩
    rw [← Bool.not_eq_true]
    intro running
    have continues := (goesOn.mp ⟨next, outputs, ran, up, running⟩).2
    exact stops (continues _ List.mem_cons_self)

/-! ## Whole runs -/

/-- The clock that an iteration reads, unless a message ends it before. -/
def Event.reading : Event Handle → Option Int
  | .iteration _ callbacks current => if (heard callbacks).isEmpty then some current else none
  | _ => none

def readings (events : List (Event Handle)) : List Int := events.filterMap Event.reading

def closing (stage : Stage) : List ClientCall :=
  if stage = .ended then [.disconnect 10000, .destroy] else []

theorem run_over {reader : Reader} {write : Value → Bytes} {options : Options}
    {s final : Process Handle} {moves : List (Move (Process Handle) (Event Handle) (Output Handle))}
    (run : Path (program reader write options) s moves final) (begun : s.stage ≠ .starting)
    (notUp : s.stage ≠ .up) : moves = [] ∧ final = s := by
  cases run with
  | nil state => exact ⟨rfl, rfl⟩
  | @cons _ _ _ event _ _ permitted _ _ =>
      cases event with
      | start clientId answers bookTicker aggTrade now => exact absurd permitted.1 begun
      | arrived topicName payload => exact absurd permitted notUp
      | iteration script callbacks current => exact absurd permitted.1 notUp
      | leave => exact absurd permitted.1 notUp

theorem run_calls {reader : Reader} {write : Value → Bytes} {options : Options}
    {s final : Process Handle} {moves : List (Move (Process Handle) (Event Handle) (Output Handle))}
    (run : Path (program reader write options) s moves final) (sound : Sound s)
    (up : s.stage = .up) :
    calls (moves.flatMap Move.emitted) =
        pings options s.control.start (readings (moves.map Move.label)) ++ closing final.stage ∧
      final.stage ≠ .failed := by
  induction run with
  | nil state =>
      rw [up]
      exact ⟨rfl, nofun⟩
  | @cons state next final event emitted moves permitted stepped rest ih =>
      have soundNext := sound_preserved _ _ _ _ sound permitted stepped
      rw [List.flatMap_cons, calls_append, List.map_cons, readings, List.filterMap_cons]
      cases event with
      | start clientId answers bookTicker aggTrade now =>
          rw [permitted.1] at up
          cases up
      | arrived topicName payload =>
          obtain ⟨rfl, rfl⟩ := Prod.mk.inj (Option.some.inj stepped)
          exact ih soundNext up
      | iteration script callbacks current =>
          have outcome := iteration_outcome reader write options current sound permitted
          rw [show iteration reader write options script callbacks current state = _ from stepped]
            at outcome
          generalize met : heard callbacks = messages at outcome
          simp only [Event.reading, met]
          cases outcome with
          | quiet _ stage _ started pinged =>
              rw [List.isEmpty_nil, if_pos rfl, pings_cons, pinged, List.append_assoc, ← started]
              obtain ⟨stillUp, _⟩ | ⟨aborted, _⟩ := stage
              · obtain ⟨later, unfailed⟩ := ih soundNext stillUp
                rw [later]
                exact ⟨rfl, unfailed⟩
              · obtain ⟨rfl, rfl⟩ := run_over rest (by rw [aborted]; nofun) (by rw [aborted]; nofun)
                rw [aborted]
                exact ⟨rfl, nofun⟩
          | broken _ aborted silent _ =>
              obtain ⟨rfl, rfl⟩ := run_over rest (by rw [aborted]; nofun) (by rw [aborted]; nofun)
              rw [silent, aborted]
              exact ⟨rfl, nofun⟩
      | leave =>
          obtain ⟨rfl, rfl⟩ := Prod.mk.inj (Option.some.inj stepped)
          obtain ⟨rfl, rfl⟩ := run_over rest nofun nofun
          exact ⟨rfl, nofun⟩

/-- Over every run: the client is asked for the subscription of the control
topic; if it grants everything, for the pings of a timer and for nothing else,
whatever the streams send; and it is disconnected and destroyed only when the
loop has been left. -/
theorem client_calls {reader : Reader} {write : Value → Bytes} {options : Options}
    {moves : List (Move (Process Handle) (Event Handle) (Output Handle))}
    {final : Process Handle} (run : Path (program reader write options)
      (program reader write options).init moves final) :
    moves = [] ∨ ∃ clientId answers bookTicker aggTrade now first rest,
      moves = first :: rest ∧ first.label = .start clientId answers bookTicker aggTrade now ∧
      calls (moves.flatMap Move.emitted) = (connectClient options clientId answers).1 ++
        (if (connectClient options clientId answers).2
          then pings options now (readings (rest.map Move.label)) ++ closing final.stage
          else []) ∧
      (final.stage = .failed ↔ (connectClient options clientId answers).2 = false) := by
  cases run with
  | nil state => exact .inl rfl
  | @cons _ next _ event emitted moves permitted stepped rest =>
      refine .inr ?_
      cases event with
      | start clientId answers bookTicker aggTrade now =>
          obtain ⟨after, outputs, ran, sound, asked, stage, control⟩ :=
            start_spec options clientId answers now initial_sound permitted
          obtain ⟨rfl, rfl⟩ := Prod.mk.inj (Option.some.inj (ran.symm.trans stepped))
          refine ⟨clientId, answers, bookTicker, aggTrade, now, _, moves, rfl, rfl, ?_⟩
          rw [List.flatMap_cons, calls_append, asked]
          cases connected : (connectClient options clientId answers).2 with
          | false =>
              rw [connected] at stage
              obtain ⟨rfl, rfl⟩ := run_over rest (by rw [stage]; nofun) (by rw [stage]; nofun)
              exact ⟨rfl, iff_of_true stage rfl⟩
          | true =>
              rw [connected] at stage control
              obtain ⟨later, unfailed⟩ := run_calls rest sound stage
              rw [later, control]
              exact ⟨rfl, iff_of_false unfailed nofun⟩
      | arrived topicName payload => cases permitted
      | iteration script callbacks current => cases permitted.1
      | leave => cases permitted.1

def stopEvents : List (Event Nat) :=
  [.arrived ControlRuns.controlTopic Control.stopText,
    .iteration (fun _ => ⟨0, .refused, 0⟩) [] 1000000000, .leave]

theorem stopEvents_offered (write : Value → Bytes) :
    Offered (program ControlRuns.stopReader write oneSymbol) stopEvents oneStream := by
  refine ⟨rfl, ?_⟩
  intro next emitted stepped
  cases stepped
  refine ⟨⟨rfl, rfl, ⟨by decide, nofun⟩, ?_⟩, ?_⟩
  · intro next emitted stepped
    cases stepped
    exact ⟨⟨by decide, nofun⟩, fun _ _ _ => trivial⟩
  · intro next emitted stepped
    cases stepped
    exact ⟨⟨rfl, rfl⟩, fun _ _ _ => trivial⟩

theorem client_calls_stop :
    ∃ moves : List (Move (Process Nat) (Event Nat) (Output Nat)),
      moves.map Move.label = oneStart :: stopEvents ∧
      calls (moves.flatMap Move.emitted) =
        (connectClient oneSymbol (literal "id") ⟨0, 0, 0⟩).1 ++
          [pingCall oneSymbol 1000000000, .disconnect 10000, .destroy] := by
  obtain ⟨outputs, stepped⟩ := oneStart_stepped ControlRuns.stopReader (fun _ => [])
  have permitted : (program ControlRuns.stopReader (fun _ => []) oneSymbol).allowed
      Process.initial oneStart := ⟨rfl, nofun⟩
  have ran : ∃ final emitted, final.stage = .ended ∧
      sequence (fun event s => (program ControlRuns.stopReader (fun _ => []) oneSymbol).step s
        event) stopEvents oneStream = some (final, emitted) := ⟨_, _, rfl, rfl⟩
  obtain ⟨final, emitted, ended, ran⟩ := ran
  obtain ⟨moves, run, labels, _⟩ := path_of_sequence (stopEvents_offered _) ran
  have whole := Path.cons permitted stepped run
  refine ⟨⟨Process.initial, oneStart, outputs, oneStream⟩ :: moves, by rw [List.map_cons, labels],
    ?_⟩
  obtain none | ⟨_, _, _, _, _, _, _, same, label, called, _⟩ := client_calls whole
  · cases none
  · obtain ⟨rfl, rfl⟩ := List.cons.inj same
    cases label
    rw [called, labels, ended]
    rfl

end BinanceNativeApp.Program
