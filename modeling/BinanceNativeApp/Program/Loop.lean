import BinanceNativeApp.Heartbeat
import BinanceNativeApp.Program.Runs

/-!
# The loop of the process

`Heartbeat` and `ControlRuns` look at the loop of `main` alone, on a given api.
As long as the process stays in its loop, that is what it does: what is known
of every run of the loop is known of the process.
-/

set_option autoImplicit false

namespace BinanceNativeApp.Program

open BinanceNativeApp.Library.Containers
open BinanceNativeApp.Library.Json
open BinanceNativeApp.Library.Transition
open BinanceNativeApp.Websocket.Subscriptions
open BinanceNativeApp.Heartbeat (mainLoop Reading)

variable {Handle : Type} [DecidableEq Handle]

def Process.loop (s : Process Handle) : Heartbeat.Process Handle Nat := ⟨s.control, s.world.api⟩

/-- The process looks at `system_clock` only; `steady` is any other clock. -/
def Event.loop (steady : Int → Int) : Event Handle → Option (Heartbeat.Event Handle)
  | .arrived topicName payload => some (.arrived topicName payload)
  | .iteration script callbacks current =>
      some (.iteration script (callbacks.map Prod.fst) ⟨steady current, current⟩)
  | _ => none

theorem iteration_loop {reader : Reader} {write : Value → Bytes} {options : Options}
    {script : Nat → Visit Handle} {callbacks : List (Callback Handle × Int64)} {current : Int}
    {s next : Process Handle} {outputs : List (Output Handle)}
    (ran : iteration reader write options script callbacks current s = some (next, outputs))
    (up : next.stage = .up) (steady : Int) :
    ∃ emitted, Heartbeat.step reader write options.pingTopic s.loop
      (.iteration script (callbacks.map Prod.fst) ⟨steady, current⟩) =
        some (next.loop, emitted) := by
  obtain ⟨⟨alive, world, served⟩, passed, rest⟩ := Option.bind_eq_some_iff.mp ran
  cases alive with
  | false =>
      obtain ⟨rfl, _⟩ : ({ s with stage := .aborted, world := world } : Process Handle) = next ∧
          served = outputs := by simpa using rest
      cases up
  | true =>
      obtain ⟨effects, looped⟩ := pass_eventLoop passed
      cases controlled : Control.iteration reader write options.pingTopic current s.control with
      | error violation =>
          have after : afterPass reader write options.pingTopic current s.control =
              (false, (Control.ping options.pingTopic current s.control).1,
                (Control.ping options.pingTopic current s.control).2.map
                  (controlOutput : Control.Effect → Output Handle)) := by
            rw [afterPass, controlled]
          simp only [if_true, after] at rest
          obtain ⟨rfl, _⟩ := Prod.mk.inj (Option.some.inj rest)
          cases up
      | ok result =>
          have after : afterPass reader write options.pingTopic current s.control =
              (true, result.1,
                result.2.map (controlOutput : Control.Effect → Output Handle)) := by
            rw [afterPass, controlled]
          simp only [if_true, after] at rest
          obtain ⟨rfl, _⟩ := Prod.mk.inj (Option.some.inj rest)
          refine ⟨effects.map .api ++ result.2.map .control, ?_⟩
          simp only [Heartbeat.step, Process.loop, looped, Heartbeat.afterEventLoop, controlled,
            Option.bind_eq_bind, Option.bind_some]

omit [DecidableEq Handle] in
theorem afterPass_stage (alive : Bool) :
    (if alive = true then Stage.up else .aborted) ≠ .starting := by
  cases alive <;> nofun

theorem step_begun {reader : Reader} {write : Value → Bytes} {options : Options}
    {s next : Process Handle} {event : Event Handle} {outputs : List (Output Handle)}
    (up : s.stage = .up) (permitted : event.Allowed s)
    (stepped : step reader write options s event = some (next, outputs)) :
    next.stage ≠ .starting := by
  cases event with
  | start clientId answers bookTicker aggTrade now =>
      rw [permitted.1] at up
      cases up
  | arrived topicName payload =>
      obtain ⟨rfl, _⟩ := Prod.mk.inj (Option.some.inj stepped)
      rw [up]
      exact nofun
  | iteration script callbacks current =>
      obtain ⟨⟨alive, world, served⟩, _, rest⟩ := Option.bind_eq_some_iff.mp stepped
      cases alive with
      | false =>
          obtain ⟨rfl, _⟩ : ({ s with stage := .aborted, world := world } : Process Handle) = next ∧
              served = outputs := by simpa using rest
          exact nofun
      | true =>
          obtain ⟨rfl, _⟩ := Prod.mk.inj (Option.some.inj rest)
          simp only [up]
          exact afterPass_stage _
  | leave =>
      obtain ⟨rfl, _⟩ := Prod.mk.inj (Option.some.inj stepped)
      exact nofun

/-- A run in the loop is one of `mainLoop`, with the same arrivals and the same
iterations, whatever the other clock shows. -/
theorem run_mainLoop {reader : Reader} {write : Value → Bytes} {options : Options}
    {s final : Process Handle} {moves : List (Move (Process Handle) (Event Handle) (Output Handle))}
    (run : Path (program reader write options) s moves final) (begun : s.stage = .up)
    (up : final.stage = .up) (steady : Int → Int) (start : Reading) (api : Api Handle Nat) :
    ∃ looped, Path (mainLoop reader write options.pingTopic start api) s.loop looped final.loop ∧
      looped.map Move.label = (moves.map Move.label).filterMap (Event.loop steady) := by
  induction run with
  | nil state => exact ⟨[], Path.nil _, rfl⟩
  | @cons state next final event emitted moves permitted stepped rest ih =>
      have still : next.stage = .up := by
        by_contra other
        have unstarted : next.stage ≠ .starting := step_begun begun permitted stepped
        obtain ⟨_, rfl⟩ := run_over rest unstarted other
        exact other up
      obtain ⟨looped, laterRun, labels⟩ := ih still up
      cases event with
      | start clientId answers bookTicker aggTrade now =>
          rw [permitted.1] at begun
          cases begun
      | arrived topicName payload =>
          obtain ⟨rfl, _⟩ := Prod.mk.inj (Option.some.inj stepped)
          have permitted : (mainLoop reader write options.pingTopic start api).allowed state.loop
              (.arrived topicName payload) := trivial
          refine ⟨_, Path.cons permitted rfl laterRun, ?_⟩
          rw [List.map_cons, labels]
          rfl
      | iteration script callbacks current =>
          obtain ⟨effects, ran⟩ := iteration_loop stepped still (steady current)
          have running : (mainLoop reader write options.pingTopic start api).allowed state.loop
              (.iteration script (callbacks.map Prod.fst) ⟨steady current, current⟩) :=
            permitted.2.1
          refine ⟨_, Path.cons running ran laterRun, ?_⟩
          rw [List.map_cons, labels]
          rfl
      | leave =>
          obtain ⟨rfl, _⟩ := Prod.mk.inj (Option.some.inj stepped)
          cases still

theorem run_mainLoop_stop :
    ∃ (final : Process Nat)
      (looped : List (Move (Heartbeat.Process Nat Nat) (Heartbeat.Event Nat)
        (Heartbeat.Output Nat Nat))),
      Path (mainLoop ControlRuns.stopReader (fun _ => []) oneSymbol.pingTopic ⟨0, 0⟩
        Websocket.Subscriptions.initial) oneStream.loop looped final.loop ∧
      looped.map Move.label =
        [.arrived ControlRuns.controlTopic Control.stopText,
          .iteration (fun _ => ⟨0, .refused, 0⟩) [] ⟨0, 1000000000⟩] := by
  have ran : ∃ final emitted, final.stage = .up ∧
      sequence (fun event s => (program ControlRuns.stopReader (fun _ => []) oneSymbol).step s
        event) (stopEvents.take 2) oneStream = some (final, emitted) := ⟨_, _, rfl, rfl⟩
  obtain ⟨final, emitted, up, ran⟩ := ran
  have offered : Offered (program ControlRuns.stopReader (fun _ => []) oneSymbol)
      (stopEvents.take 2) oneStream :=
    (offered_of_append (stopEvents_offered (fun _ => []))).1
  obtain ⟨moves, run, labels, _⟩ := path_of_sequence offered ran
  obtain ⟨looped, path, same⟩ := run_mainLoop run rfl up (fun _ => 0) ⟨0, 0⟩
    Websocket.Subscriptions.initial
  refine ⟨final, looped, path, ?_⟩
  rw [same, labels]
  rfl

end BinanceNativeApp.Program
