import BinanceNativeApp.Library.Transition
import BinanceNativeApp.Control

/-!
# Arrivals and iterations

The MQTT client calls `mqtt_arrived_cb` from a thread of its own, at any time.
An iteration of the main loop looks at the queue once, so that a run of both
is a sequence of arrivals and iterations.  The loop is left as soon as `run`
is false; messages may go on arriving.
-/

set_option autoImplicit false

namespace BinanceNativeApp.ControlRuns

open BinanceNativeApp.Library.Containers
open BinanceNativeApp.Library.Json
open BinanceNativeApp.Library.Transition
open BinanceNativeApp.Control

inductive Event where
  | arrived (topicName payload : Bytes)
  | iteration (current : Int)
  deriving DecidableEq

/-- A JSON object with at most one member `command`, a string without a NUL. -/
def ControlPayload (reader : Reader) (payload : Bytes) : Prop :=
  ∃ members, reader.read payload = some (.object members) ∧
    (members.filter fun entry => entry.1 = literal "command").length ≤ 1 ∧
    ∀ value, (literal "command", value) ∈ members →
      ∃ command, value = .string command ∧ 0 ∉ command

def Event.Allowed (reader : Reader) (s : MainLoop) : Event → Prop
  | .arrived _ payload => ControlPayload reader payload
  | .iteration _ => s.run = true

def dequeued (s : MainLoop) : List Entry := s.q.take 1

/-- Emits the entries that are taken out of the queue. -/
def step (reader : Reader) (write : Value → Bytes) (pingTopic : Bytes) (s : MainLoop) :
    Event → Option (MainLoop × List Entry)
  | .arrived topicName payload =>
      some ({ s with q := mqttArrivedCb topicName payload s.q }, [])
  | .iteration current =>
      match iteration reader write pingTopic current s with
      | .ok (next, _) => some (next, dequeued s)
      | .error _ => none

def control (reader : Reader) (write : Value → Bytes) (pingTopic : Bytes) (start : Int) :
    System MainLoop Event Entry where
  init := ⟨true, start, []⟩
  allowed := fun s event => event.Allowed reader s
  step := step reader write pingTopic

/-- The topic and the payload that arrive, NULs in the topic included. -/
def Event.arrives : Event → List (Bytes × Bytes)
  | .arrived topicName payload => [(topicName, payload)]
  | .iteration _ => []

def Event.enqueued : Event → List Entry
  | .arrived topicName payload => [entry topicName payload]
  | .iteration _ => []

/-- An iteration takes the first entry, if there is one, and leaves the loop
exactly if that is a stop command. -/
def Takes (reader : Reader) (move : Move MainLoop Event Entry) : Prop :=
  match move.label with
  | .arrived _ _ => move.emitted = [] ∧ move.after.run = move.before.run
  | .iteration _ => move.emitted = move.before.q.take 1 ∧ move.after.q = move.before.q.drop 1 ∧
      (move.after.run = false ↔ ∃ one ∈ move.before.q.take 1, StopCommand reader one.2)

/-! ## One event -/

theorem step_conserves {reader : Reader} {write : Value → Bytes} {pingTopic : Bytes}
    {s next : MainLoop} {event : Event} {taken : List Entry}
    (stepped : step reader write pingTopic s event = some (next, taken)) :
    s.q ++ event.enqueued = taken ++ next.q := by
  cases event with
  | arrived topicName payload =>
      obtain ⟨rfl, rfl⟩ := Prod.mk.inj (Option.some.inj stepped)
      rfl
  | iteration current =>
      simp only [step] at stepped
      split at stepped
      · rename_i after effects ran
        obtain ⟨rfl, rfl⟩ := Prod.mk.inj (Option.some.inj stepped)
        obtain ⟨left, _⟩ := iteration_spec ran
        rw [left, dequeued, Event.enqueued, List.append_nil, List.take_append_drop]
      · cases stepped

theorem wellFormed_of_controlPayload {reader : Reader} {payload : Bytes}
    (control : ControlPayload reader payload) : WellFormed reader payload := by
  obtain ⟨members, read, _, strings⟩ := control
  refine ⟨members, by rw [Reader.cString_of_read read, read], ?_⟩
  intro value named
  obtain ⟨before, after, whole, _⟩ := List.lookup_eq_some_iff.mp named
  obtain ⟨command, rfl, clean⟩ := strings value (by rw [whole]; simp)
  refine ⟨command, rfl, ?_⟩
  rw [cString_eq_self clean]
  exact fun stop => ⟨stop, reader.clean read⟩

theorem iteration_total {reader : Reader} (write : Value → Bytes) (pingTopic : Bytes)
    (current : Int) {s : MainLoop} (running : s.run = true)
    (proper : ∀ entry ∈ s.q, ControlPayload reader entry.2) :
    ∃ next effects, iteration reader write pingTopic current s = .ok (next, effects) ∧
      (next.run = false ↔ ∃ taken ∈ dequeued s, StopCommand reader taken.2) := by
  cases queued : s.q with
  | nil =>
      refine ⟨(ping pingTopic current s).1, (ping pingTopic current s).2, ?_, ?_⟩
      · rw [iteration]
        simp only [ping_q, queued]
        rfl
      · simp [ping_run, running, dequeued, queued]
  | cons head rest =>
      have formed : WellFormed reader head.2 :=
        wellFormed_of_controlPayload (proper head (by rw [queued]; exact List.mem_cons_self))
      obtain ⟨next, effects, ran, exits⟩ : Obeys reader write pingTopic current s head.2 :=
        (obeys_iff_isStop running queued).mpr (isStop_agrees_iff.mpr formed)
      refine ⟨next, effects, ran, ?_⟩
      simpa [dequeued, queued] using exits

/-! ## Runs -/

section Runs
variable {reader : Reader} {write : Value → Bytes} {pingTopic : Bytes} {start : Int}

def ProperQueue (reader : Reader) (s : MainLoop) : Prop :=
  ∀ entry ∈ s.q, ControlPayload reader entry.2

theorem properQueue_preserved :
    Preserved (control reader write pingTopic start) (ProperQueue reader) := by
  intro s event next taken proper permitted stepped
  have conserved : s.q ++ event.enqueued = taken ++ next.q := step_conserves stepped
  intro other queued
  have member : other ∈ s.q ++ event.enqueued := by
    rw [conserved]
    exact List.mem_append_right taken queued
  obtain earlier | new := List.mem_append.mp member
  · exact proper other earlier
  · cases event with
    | arrived topicName payload =>
        rw [List.mem_singleton.mp new]
        exact permitted
    | iteration current => cases new

theorem step_takes {s next : MainLoop} {event : Event} {taken : List Entry}
    (proper : ProperQueue reader s) (permitted : event.Allowed reader s)
    (stepped : step reader write pingTopic s event = some (next, taken)) :
    Takes reader ⟨s, event, taken, next⟩ := by
  cases event with
  | arrived topicName payload =>
      obtain ⟨rfl, rfl⟩ := Prod.mk.inj (Option.some.inj stepped)
      exact ⟨rfl, rfl⟩
  | iteration current =>
      obtain ⟨after, effects, ran, exits⟩ :=
        iteration_total write pingTopic current permitted proper
      obtain ⟨left, -⟩ := iteration_spec ran
      simp only [step, ran] at stepped
      obtain ⟨rfl, rfl⟩ := Prod.mk.inj (Option.some.inj stepped)
      exact ⟨rfl, left, exits⟩

theorem Takes.exits {s next : MainLoop} {event : Event} {taken : List Entry}
    (takes : Takes reader ⟨s, event, taken, next⟩) :
    taken.length ≤ 1 ∧ (s.run = true →
      (next.run = false ↔ ∃ one ∈ taken, StopCommand reader one.2)) := by
  cases event with
  | arrived topicName payload =>
      obtain ⟨rfl, same⟩ := takes
      refine ⟨Nat.zero_le 1, fun running => ?_⟩
      have same : next.run = s.run := same
      simp [same, running]
  | iteration current =>
      obtain ⟨first, -, exits⟩ := takes
      have first : taken = s.q.take 1 := first
      rw [first]
      exact ⟨List.length_take_le 1 s.q, fun _ => exits⟩

theorem left_takes_nothing {s final : MainLoop} {moves : List (Move MainLoop Event Entry)}
    (run : Path (control reader write pingTopic start) s moves final) (left : s.run = false) :
    moves.flatMap Move.emitted = [] ∧ final.run = false := by
  induction run with
  | nil state => exact ⟨rfl, left⟩
  | @cons state next final event taken moves permitted stepped rest ih =>
      cases event with
      | arrived topicName payload =>
          obtain ⟨rfl, rfl⟩ := Prod.mk.inj (Option.some.inj stepped)
          exact ih left
      | iteration current =>
          have running : state.run = true := permitted
          rw [left] at running
          cases running

def LeftAtStop (reader : Reader) (taken : List Entry) (s : MainLoop) : Prop :=
  s.run = true ∧ (∀ one ∈ taken, ¬ StopCommand reader one.2) ∨
    s.run = false ∧ ∃ earlier last, taken = earlier ++ [last] ∧
      StopCommand reader last.2 ∧ ∀ one ∈ earlier, ¬ StopCommand reader one.2

theorem run_leftAtStop {s final : MainLoop} {moves : List (Move MainLoop Event Entry)}
    (run : Path (control reader write pingTopic start) s moves final)
    (proper : ProperQueue reader s) (running : s.run = true) :
    LeftAtStop reader (moves.flatMap Move.emitted) final := by
  induction run with
  | nil state => exact .inl ⟨running, by simp⟩
  | @cons state next final event taken moves permitted stepped rest ih =>
      obtain ⟨atMostOne, exits⟩ := (step_takes proper permitted stepped).exits
      have nextProper := properQueue_preserved _ _ _ _ proper permitted stepped
      rw [List.flatMap_cons]
      cases stays : next.run with
      | true =>
          have none : ∀ one ∈ taken, ¬ StopCommand reader one.2 := by
            intro one member stop
            have left := (exits running).mpr ⟨one, member, stop⟩
            rw [stays] at left
            cases left
          obtain ⟨running, later⟩ | ⟨left, earlier, last, same, stop, before⟩ :=
            ih nextProper stays
          · exact .inl ⟨running, List.forall_mem_append.mpr ⟨none, later⟩⟩
          · refine .inr ⟨left, taken ++ earlier, last, ?_, stop,
              List.forall_mem_append.mpr ⟨none, before⟩⟩
            rw [same, List.append_assoc]
      | false =>
          obtain ⟨nothing, left⟩ := left_takes_nothing rest stays
          obtain ⟨last, member, stop⟩ := (exits running).mp stays
          have single : taken = [last] := by
            cases taken with
            | nil => cases member
            | cons first others =>
                have empty : others = [] := List.eq_nil_of_length_eq_zero (by simpa using atMostOne)
                subst empty
                rw [List.mem_singleton.mp member]
          rw [nothing, single]
          exact .inr ⟨left, [], last, rfl, stop, by simp⟩

theorem run_takes {s final : MainLoop} {moves : List (Move MainLoop Event Entry)}
    (run : Path (control reader write pingTopic start) s moves final)
    (proper : ProperQueue reader s) : ∀ move ∈ moves, Takes reader move := by
  induction run with
  | nil state => simp
  | cons permitted stepped rest ih =>
      have nextProper := properQueue_preserved _ _ _ _ proper permitted stepped
      exact List.forall_mem_cons.mpr ⟨step_takes proper permitted stepped, ih nextProper⟩

end Runs

/-- The topic is read up to its first NUL; the payload is whole. -/
theorem enqueued_eq_arrives (event : Event) :
    event.enqueued = event.arrives.map fun pair => (cString pair.1, pair.2) := by
  cases event <;> rfl

/-- Over every run of arrivals and iterations: what was taken is a prefix of
what arrived, with the topics up to their first NUL; each iteration takes what
is first in the queue, and the loop ends with the first stop command. -/
theorem commands_taken_in_order {reader : Reader} {write : Value → Bytes} {pingTopic : Bytes}
    {start : Int} {moves : List (Move MainLoop Event Entry)} {final : MainLoop}
    (run : Path (control reader write pingTopic start)
      (control reader write pingTopic start).init moves final) :
    moves.flatMap Move.emitted <+:
      (moves.flatMap fun move => move.label.arrives).map (fun pair => (cString pair.1, pair.2)) ∧
    moves.flatMap Move.emitted ++ final.q =
      (moves.flatMap fun move => move.label.arrives).map (fun pair => (cString pair.1, pair.2)) ∧
    (∀ move ∈ moves, Takes reader move) ∧
    LeftAtStop reader (moves.flatMap Move.emitted) final ∧
    (final.run = true → ∀ current, ∃ next effects,
      iteration reader write pingTopic current final = .ok (next, effects)) := by
  have empty : ProperQueue reader (control reader write pingTopic start).init := by
    intro entry queued
    cases queued
  have arrived : (moves.flatMap fun move => move.label.arrives).map
      (fun pair => (cString pair.1, pair.2)) = moves.flatMap fun move => move.label.enqueued := by
    simp only [List.map_flatMap, enqueued_eq_arrives]
  have conserved : moves.flatMap Move.emitted ++ final.q =
      moves.flatMap (fun move => move.label.enqueued) :=
    (path_conserves (fun _ _ _ _ _ stepped => step_conserves stepped) run).symm
  rw [arrived]
  refine ⟨⟨final.q, conserved⟩, conserved, run_takes run empty, run_leftAtStop run empty rfl, ?_⟩
  intro running current
  obtain ⟨next, effects, ran, _⟩ := iteration_total write pingTopic current running
    (path_preserves properQueue_preserved run empty)
  exact ⟨next, effects, ran⟩

/-! ## A stop command that arrives between two iterations -/

def stopReader : Reader := Reader.ofTable [(stopText, stopDocument)]

def controlTopic : Bytes := literal "strategy_control/binancenativeapp/control"

theorem stopText_controlPayload : ControlPayload stopReader stopText := by
  refine ⟨[(literal "command", .string (literal "stop"))], rfl, by simp, ?_⟩
  intro value member
  obtain ⟨_, rfl⟩ := Prod.mk.inj (List.mem_singleton.mp member)
  exact ⟨literal "stop", rfl, by decide⟩

def stopControl : System MainLoop Event Entry := control stopReader (fun _ => []) [] 0

def stopEvents : List Event := [.iteration 0, .arrived controlTopic stopText, .iteration 1]

theorem stopEvents_offered : Offered stopControl stopEvents stopControl.init := by
  refine ⟨rfl, ?_⟩
  intro next emitted stepped
  cases stepped
  refine ⟨stopText_controlPayload, ?_⟩
  intro next emitted stepped
  cases stepped
  exact ⟨rfl, fun _ _ _ => trivial⟩

theorem commands_taken_in_order_stop :
    ∃ (moves : List (Move MainLoop Event Entry)) (final : MainLoop),
      moves.map Move.label = stopEvents ∧ final.run = false ∧
      moves.flatMap Move.emitted = [(controlTopic, stopText)] ∧
      moves.flatMap Move.emitted ++ final.q =
        (moves.flatMap fun move => move.label.arrives).map (fun pair => (cString pair.1, pair.2)) ∧
      (∀ move ∈ moves, Takes stopReader move) ∧
      LeftAtStop stopReader (moves.flatMap Move.emitted) final := by
  have ran : sequence (fun event s => stopControl.step s event) stopEvents stopControl.init =
      some (⟨false, 0, []⟩, [(controlTopic, stopText)]) := rfl
  obtain ⟨moves, run, labels, taken⟩ := path_of_sequence stopEvents_offered ran
  obtain ⟨_, conserved, takes, left, _⟩ := commands_taken_in_order run
  exact ⟨moves, _, labels, rfl, taken, conserved, takes, left⟩

/-! ## A topic with a NUL in it -/

def nulTopic : Bytes := controlTopic ++ [0, 98]

def nulEvents : List Event := [.arrived nulTopic stopText, .iteration 0]

theorem nulEvents_offered : Offered stopControl nulEvents stopControl.init := by
  refine ⟨stopText_controlPayload, ?_⟩
  intro next emitted stepped
  cases stepped
  exact ⟨rfl, fun _ _ _ => trivial⟩

/-- What is taken is not what arrived. -/
theorem nulTopic_not_kept :
    ∃ (moves : List (Move MainLoop Event Entry)) (final : MainLoop),
      Path stopControl stopControl.init moves final ∧
      (moves.flatMap fun move => move.label.arrives) = [(nulTopic, stopText)] ∧
      moves.flatMap Move.emitted = [(controlTopic, stopText)] ∧
      ¬ moves.flatMap Move.emitted <+: moves.flatMap fun move => move.label.arrives := by
  have ran : sequence (fun event s => stopControl.step s event) nulEvents stopControl.init =
      some (⟨false, 0, []⟩, [(controlTopic, stopText)]) := rfl
  obtain ⟨moves, run, labels, taken⟩ := path_of_sequence nulEvents_offered ran
  have arrived : (moves.flatMap fun move => move.label.arrives) = [(nulTopic, stopText)] := by
    rw [← List.flatMap_map, labels]
    rfl
  refine ⟨moves, _, run, arrived, taken, ?_⟩
  rw [arrived, taken]
  decide +kernel

end BinanceNativeApp.ControlRuns
