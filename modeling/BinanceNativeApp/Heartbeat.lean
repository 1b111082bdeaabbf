import BinanceNativeApp.Library.Timers
import BinanceNativeApp.Library.Transition
import BinanceNativeApp.Control
import BinanceNativeApp.Websocket.Subscriptions

/-!
# The pings of the main loop

An iteration of the loop in `main` is a pass of `api::event_loop`, which may
take any time, and then the part that `Control` describes.  Both clocks are
read at the ping.  The loop itself looks at `system_clock` only, which can be
adjusted while it runs; `steady_clock` tells how much time has elapsed.
-/

set_option autoImplicit false

namespace BinanceNativeApp.Heartbeat

open BinanceNativeApp.Library.Containers
open BinanceNativeApp.Library.Json
open BinanceNativeApp.Library.Timers
open BinanceNativeApp.Library.Transition
open BinanceNativeApp.Control
open BinanceNativeApp.Websocket.Subscriptions (Api Callback Visit eventLoop)

/-- `steady_clock` and `system_clock` at one moment, in nanoseconds. -/
structure Reading where
  steady : Int
  wall : Int
  deriving DecidableEq

inductive Event (Handle : Type) where
  | arrived (topicName payload : Bytes)
  | iteration (script : Nat → Visit Handle) (callbacks : List (Callback Handle)) (now : Reading)

inductive Output (Handle Func : Type) where
  | api (effect : Websocket.Subscriptions.Effect Handle Func)
  | control (effect : Control.Effect)

structure Process (Handle Func : Type) where
  control : MainLoop
  api : Api Handle Func

/-- The iteration after `event_loop`.  A document that breaks a precondition
of `rapidjson` ends the process, when the ping has already been published. -/
def afterEventLoop (reader : Reader) (write : Value → Bytes) (pingTopic : Bytes) (current : Int)
    (s : MainLoop) : MainLoop × List Control.Effect :=
  match iteration reader write pingTopic current s with
  | .ok result => result
  | .error _ =>
      let (s, pings) := ping pingTopic current s
      ({ s with run := false }, pings)

section Machine
variable {Handle Func : Type} [DecidableEq Handle]

def step (reader : Reader) (write : Value → Bytes) (pingTopic : Bytes)
    (s : Process Handle Func) :
    Event Handle → Option (Process Handle Func × List (Output Handle Func))
  | .arrived topicName payload =>
      some ({ s with
        control := { s.control with q := mqttArrivedCb topicName payload s.control.q } }, [])
  | .iteration script callbacks now => do
      let (api, services) ← eventLoop script callbacks s.api
      let (control, effects) := afterEventLoop reader write pingTopic now.wall s.control
      some (⟨control, api⟩, services.map .api ++ effects.map .control)

/-- `api` with the subscriptions that `main` has made before the loop. -/
def mainLoop (reader : Reader) (write : Value → Bytes) (pingTopic : Bytes) (start : Reading)
    (api : Api Handle Func) :
    System (Process Handle Func) (Event Handle) (Output Handle Func) where
  init := ⟨⟨true, start.wall, []⟩, api⟩
  allowed := fun s event =>
    match event with
    | .arrived _ _ => True
    | .iteration _ _ _ => s.control.run = true
  step := step reader write pingTopic

end Machine

/-! ## What is wanted of the pings -/

def Reading.secondElapsed (since now : Reading) : Prop := since.steady + 1000000000 ≤ now.steady

instance (since now : Reading) : Decidable (since.secondElapsed now) :=
  inferInstanceAs (Decidable (since.steady + 1000000000 ≤ now.steady))

def Reading.secondOnWall (since now : Reading) : Bool := since.wall + 1000000000 ≤ now.wall

def isPing {Handle Func : Type} (pingTopic : Bytes) : Output Handle Func → Bool
  | .control (.publish topic _) => decide (topic = pingTopic)
  | _ => false

def Event.reading {Handle : Type} : Event Handle → Option Reading
  | .arrived _ _ => none
  | .iteration _ _ now => some now

/-- The readings of the iterations, each with whether a ping was published. -/
def observed {Handle Func : Type} (pingTopic : Bytes)
    (moves : List (Move (Process Handle Func) (Event Handle) (Output Handle Func))) :
    List (Reading × Bool) :=
  moves.filterMap fun move =>
    move.label.reading.map fun now => (now, move.emitted.any (isPing pingTopic))

/-! ## One iteration -/

theorem secondCounted_iff (elapsed : Int) :
    1 ≤ elapsed.tdiv 1000000000 ↔ 1000000000 ≤ elapsed := by
  by_cases forward : 0 ≤ elapsed
  · rw [Int.tdiv_eq_ediv_of_nonneg forward]
    omega
  · have truncated : elapsed.tdiv 1000000000 = -(-elapsed / 1000000000) := by
      rw [← Int.tdiv_eq_ediv_of_nonneg (by omega), Int.neg_tdiv, Int.neg_neg]
    rw [truncated]
    omega

theorem afterEventLoop_spec (reader : Reader) (write : Value → Bytes) (pingTopic : Bytes)
    (current : Int) (s : MainLoop) :
    (afterEventLoop reader write pingTopic current s).1.start =
      (ping pingTopic current s).1.start ∧
    ∃ logged, (afterEventLoop reader write pingTopic current s).2 =
        (ping pingTopic current s).2 ++ logged ∧
      ∀ effect ∈ logged, ∃ text, effect = .warn text := by
  unfold afterEventLoop
  cases ran : iteration reader write pingTopic current s with
  | error violation =>
      refine ⟨rfl, [], (List.append_nil _).symm, ?_⟩
      intro effect member
      cases member
  | ok result => exact (iteration_spec ran).2

section Steps
variable {Handle Func : Type}

theorem any_isPing_of_warnings {pingTopic : Bytes} {effects : List Control.Effect}
    (warnings : ∀ effect ∈ effects, ∃ text, effect = .warn text) :
    (effects.map (Output.control : Control.Effect → Output Handle Func)).any (isPing pingTopic) =
      false := by
  rw [List.any_eq_false]
  intro output member
  obtain ⟨effect, inside, rfl⟩ := List.mem_map.mp member
  obtain ⟨text, rfl⟩ := warnings effect inside
  simp [isPing]

theorem any_isPing_of_services {pingTopic : Bytes}
    (services : List (Websocket.Subscriptions.Effect Handle Func)) :
    (services.map Output.api).any (isPing pingTopic) = false := by
  rw [List.any_eq_false]
  intro output member
  obtain ⟨effect, _, rfl⟩ := List.mem_map.mp member
  simp [isPing]

variable [DecidableEq Handle] {reader : Reader} {write : Value → Bytes} {pingTopic : Bytes}

/-- A ping is published exactly if a second has passed on `system_clock`, and
`start` is then the new reading of it. -/
theorem step_iteration {s next : Process Handle Func} {script : Nat → Visit Handle}
    {callbacks : List (Callback Handle)} {now : Reading} {emitted : List (Output Handle Func)}
    (stepped : step reader write pingTopic s (.iteration script callbacks now) =
      some (next, emitted)) {since : Reading} (same : s.control.start = since.wall) :
    emitted.any (isPing pingTopic) = since.secondOnWall now ∧
      next.control.start = (if since.secondOnWall now then now else since).wall := by
  obtain ⟨⟨api, services⟩, _, rest⟩ := Option.bind_eq_some_iff.mp stepped
  have spec := afterEventLoop_spec reader write pingTopic now.wall s.control
  generalize afterEventLoop reader write pingTopic now.wall s.control = result at rest spec
  obtain ⟨control, effects⟩ := result
  obtain ⟨rfl, rfl⟩ := Prod.mk.inj (Option.some.inj rest)
  obtain ⟨sameStart, logged, rfl, warnings⟩ := spec
  rw [List.map_append, List.any_append, List.any_append,
    any_isPing_of_services, any_isPing_of_warnings warnings, sameStart, ping]
  have passed := secondCounted_iff (now.wall - s.control.start)
  by_cases due : since.secondOnWall now = true
  · have second : since.wall + 1000000000 ≤ now.wall := of_decide_eq_true due
    rw [if_pos (passed.mpr (by omega)), if_pos due, due]
    simp [isPing]
  · have early : ¬ since.wall + 1000000000 ≤ now.wall := mt decide_eq_true due
    rw [if_neg (mt passed.mp (by omega)), if_neg due, Bool.eq_false_iff.mpr due]
    exact ⟨rfl, same⟩

end Steps

/-! ## Runs -/

def readings {Handle : Type} (events : List (Event Handle)) : List Reading :=
  events.filterMap Event.reading

section Runs
variable {Handle Func : Type} [DecidableEq Handle] {reader : Reader} {write : Value → Bytes}
  {pingTopic : Bytes} {start : Reading} {api : Api Handle Func}

theorem run_polled {s final : Process Handle Func}
    {moves : List (Move (Process Handle Func) (Event Handle) (Output Handle Func))}
    (run : Path (mainLoop reader write pingTopic start api) s moves final) (since : Reading)
    (same : s.control.start = since.wall) :
    observed pingTopic moves =
      polled Reading.secondOnWall since (readings (moves.map Move.label)) := by
  induction run generalizing since with
  | nil state => rfl
  | @cons state next final event emitted moves permitted stepped rest ih =>
      cases event with
      | arrived topicName payload =>
          obtain ⟨rfl, rfl⟩ := Prod.mk.inj (Option.some.inj stepped)
          exact ih since same
      | iteration script callbacks now =>
          obtain ⟨pinged, started⟩ := step_iteration stepped same
          have later := ih _ started
          simp only [observed, readings, List.map_cons, List.filterMap_cons, Event.reading,
            Option.map_some, polled] at later ⊢
          rw [pinged, later]

/-- By the clock that it looks at the loop is punctual. -/
theorem keepsTime_onWall {final : Process Handle Func}
    {moves : List (Move (Process Handle Func) (Event Handle) (Output Handle Func))}
    (run : Path (mainLoop reader write pingTopic start api)
      (mainLoop reader write pingTopic start api).init moves final) :
    KeepsTime (fun since now => since.secondOnWall now = true) start none
      (observed pingTopic moves) := by
  rw [run_polled run start rfl]
  apply (keepsTime_polled_iff none _).mpr
  exact agrees_of_same (fun _ => True) (fun _ _ _ _ => Iff.rfl) trivial (fun _ _ => trivial)
    (fun _ _ => trivial)

theorem keepsTime_of_unadjusted {final : Process Handle Func}
    {moves : List (Move (Process Handle Func) (Event Handle) (Output Handle Func))}
    (run : Path (mainLoop reader write pingTopic start api)
      (mainLoop reader write pingTopic start api).init moves final)
    (unadjusted : ∀ now ∈ readings (moves.map Move.label),
      now.wall - now.steady = start.wall - start.steady) :
    KeepsTime Reading.secondElapsed start none (observed pingTopic moves) := by
  rw [run_polled run start rfl]
  apply (keepsTime_polled_iff none _).mpr
  refine agrees_of_same (fun now => now.wall - now.steady = start.wall - start.steady) ?_ rfl ?_
    unadjusted
  · intro since now before after
    rw [Reading.secondOnWall, Reading.secondElapsed, decide_eq_true_iff]
    omega
  · intro since fired
    cases fired

/-- In time that has elapsed, the loop publishes a ping at every iteration that
is a second after the last one, and never two within a second, if and only if
`system_clock` tells of no second too many or too few at any iteration. -/
theorem keepsTime_iff {final : Process Handle Func}
    {moves : List (Move (Process Handle Func) (Event Handle) (Output Handle Func))}
    (run : Path (mainLoop reader write pingTopic start api)
      (mainLoop reader write pingTopic start api).init moves final) :
    KeepsTime Reading.secondElapsed start none (observed pingTopic moves) ↔
      Agrees Reading.secondOnWall Reading.secondElapsed start none
        (readings (moves.map Move.label)) := by
  rw [run_polled run start rfl]
  exact keepsTime_polled_iff none _

end Runs

/-! ## Adjusted clocks -/

def quietLoop (start : Reading) : System (Process Unit Unit) (Event Unit) (Output Unit Unit) :=
  mainLoop (Reader.ofTable []) (fun _ => []) (literal "ping") start Websocket.Subscriptions.initial

def pass (now : Reading) : Event Unit := .iteration (fun _ => ⟨0, .refused, 0⟩) [] now

theorem keepsTime_iff_putForward :
    ∃ moves final, Path (quietLoop ⟨0, 0⟩) (quietLoop ⟨0, 0⟩).init moves final ∧
      moves.map Move.label =
        [pass ⟨1000000000, 1000000000⟩, pass ⟨2100000000, 2300000000⟩] ∧
      KeepsTime Reading.secondElapsed ⟨0, 0⟩ none (observed (literal "ping") moves) := by
  have run : Path (quietLoop ⟨0, 0⟩) (quietLoop ⟨0, 0⟩).init
      [⟨_, pass ⟨1000000000, 1000000000⟩, _, _⟩, ⟨_, pass ⟨2100000000, 2300000000⟩, _, _⟩] _ :=
    Path.cons rfl rfl (Path.cons rfl rfl (Path.nil _))
  refine ⟨_, _, run, rfl, (keepsTime_iff run).mpr ?_⟩
  refine ⟨fun _ => rfl, ?_, ?_⟩
  · intro since fired
    cases fired
  · refine ⟨fun _ => rfl, ?_, trivial⟩
    intro since fired _
    cases fired
    decide

/-- The clock is put back by an hour, and a second later there is no ping. -/
theorem putBack_no_ping :
    ∃ moves final, Path (quietLoop ⟨0, 3600000000000⟩) (quietLoop ⟨0, 3600000000000⟩).init
        moves final ∧
      moves.map Move.label = [pass ⟨1000000000, 1000000000⟩] ∧
      ¬ KeepsTime Reading.secondElapsed ⟨0, 3600000000000⟩ none
        (observed (literal "ping") moves) := by
  have run : Path (quietLoop ⟨0, 3600000000000⟩) (quietLoop ⟨0, 3600000000000⟩).init
      [⟨_, pass ⟨1000000000, 1000000000⟩, _, _⟩] _ := path_single rfl rfl
  refine ⟨_, _, run, rfl, ?_⟩
  intro keeps
  have pinged := (keeps [] (⟨1000000000, 1000000000⟩, false) [] rfl).1 (by decide)
  cases pinged

end BinanceNativeApp.Heartbeat
