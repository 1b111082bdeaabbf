import BinanceNativeApp.Library.Json

/-!
# The control loop of `main`

`mqtt_arrived_cb` puts what arrives on the control topic into the queue `q`,
and every iteration of the loop in `main` takes at most one entry out of it:
the loop is left when the entry asks for it, otherwise the parsed payload is
written out again and logged.  Clock readings are in nanoseconds; the part of
an iteration that belongs to `api::event_loop` is not repeated here.
-/

set_option autoImplicit false

namespace BinanceNativeApp.Control

open BinanceNativeApp.Library.Containers
open BinanceNativeApp.Library.Json

/-! ## The queue and the loop -/

/-- The tuple of topic and payload. -/
abbrev Entry : Type := Bytes × Bytes

def entry (topicName payload : Bytes) : Entry := (cString topicName, payload)

/-- `payload` are the `payloadlen` bytes of the message. -/
def mqttArrivedCb (topicName payload : Bytes) (q : List Entry) : List Entry :=
  q ++ [entry topicName payload]

structure MainLoop where
  run : Bool
  start : Int
  q : List Entry
  deriving DecidableEq

inductive Effect where
  | publish (topic payload : Bytes)
  | warn (text : Bytes)
  deriving DecidableEq

def ping (pingTopic : Bytes) (current : Int) (s : MainLoop) : MainLoop × List Effect :=
  if 1 ≤ (current - s.start).tdiv 1000000000 then
    ({ s with start := current },
      [.publish pingTopic (literal (toString (current.tdiv 1000000)))])
  else (s, [])

/-- `strcmp` compares the command up to its first NUL. -/
def isStop (jsonResult : Value) : Checked Bool := do
  if ← jsonResult.hasMember (literal "command") then
    let command ← jsonResult.stringAt (literal "command")
    return decide (cString command = literal "stop")
  else
    return false

/-- The `break` passes over the rest of the iteration. -/
def processPayload (reader : Reader) (write : Value → Bytes) (payload : Bytes) (s : MainLoop) :
    Checked (MainLoop × List Effect) := do
  let jsonResult := reader.parse payload
  if ← isStop jsonResult then
    return ({ s with run := false }, [])
  else
    return (s, [.warn (cString (write jsonResult))])

def iteration (reader : Reader) (write : Value → Bytes) (pingTopic : Bytes) (current : Int)
    (s : MainLoop) : Checked (MainLoop × List Effect) := do
  let (s, pings) := ping pingTopic current s
  match s.q with
  | [] => return (s, pings)
  | (_, payload) :: rest =>
      let (next, effects) ← processPayload reader write payload { s with q := rest }
      return (next, pings ++ effects)

/-! ## What an iteration does -/

theorem ping_run (pingTopic : Bytes) (current : Int) (s : MainLoop) :
    (ping pingTopic current s).1.run = s.run := by
  unfold ping
  split <;> rfl

theorem ping_q (pingTopic : Bytes) (current : Int) (s : MainLoop) :
    (ping pingTopic current s).1.q = s.q := by
  unfold ping
  split <;> rfl

theorem isStop_eq_ok_iff {document : Value} {answer : Bool} :
    isStop document = .ok answer ↔
      ∃ members, document = .object members ∧
        (members.lookup (literal "command") = none ∧ answer = false ∨
          ∃ command, members.lookup (literal "command") = some (.string command) ∧
            answer = decide (cString command = literal "stop")) := by
  rw [isStop, bind_eq_ok_iff]
  simp only [Value.hasMember_eq_ok_iff]
  constructor
  · intro passed
    obtain ⟨present, ⟨members, rfl, here⟩, rest⟩ := passed
    refine ⟨members, rfl, ?_⟩
    cases found : members.lookup (literal "command") with
    | none =>
        rw [found] at here
        subst here
        exact .inl ⟨rfl, (pure_eq_ok_iff.mp rest).symm⟩
    | some value =>
        rw [found] at here
        subst here
        simp only [Option.isSome_some, if_true, bind_eq_ok_iff, pure_eq_ok_iff,
          Value.stringAt_eq_ok_iff, Value.member, found] at rest
        obtain ⟨command, same, rfl⟩ := rest
        exact .inr ⟨command, same, rfl⟩
  · intro answered
    obtain ⟨members, rfl, ⟨absent, rfl⟩ | ⟨command, found, rfl⟩⟩ := answered
    · exact ⟨false, ⟨members, rfl, by rw [absent]; rfl⟩, rfl⟩
    · refine ⟨true, ⟨members, rfl, by rw [found]; rfl⟩, ?_⟩
      simp only [if_true, bind_eq_ok_iff, pure_eq_ok_iff, Value.stringAt_eq_ok_iff,
        Value.member, found]
      exact ⟨command, rfl, rfl⟩

theorem processPayload_run_iff {reader : Reader} {write : Value → Bytes} {payload : Bytes}
    {s : MainLoop} (running : s.run = true) {answer : Bool} :
    (∃ next effects, processPayload reader write payload s = .ok (next, effects) ∧
        next.run = !answer) ↔ isStop (reader.parse payload) = .ok answer := by
  rw [processPayload]
  cases decided : isStop (reader.parse payload) with
  | error violation => simp [bind, Except.bind]
  | ok stops =>
      cases stops <;> cases answer <;>
        simp [bind, Except.bind, pure, Except.pure, running]

theorem iteration_of_head {reader : Reader} {write : Value → Bytes} {pingTopic : Bytes}
    {current : Int} {s : MainLoop} {head : Entry} {rest : List Entry}
    (queued : s.q = head :: rest) :
    iteration reader write pingTopic current s =
      (processPayload reader write head.2 { (ping pingTopic current s).1 with q := rest } >>=
        fun result => pure (result.1, (ping pingTopic current s).2 ++ result.2)) := by
  rw [iteration]
  simp only [ping_q, queued]

theorem processPayload_spec {reader : Reader} {write : Value → Bytes} {payload : Bytes}
    {s next : MainLoop} {effects : List Effect}
    (ran : processPayload reader write payload s = .ok (next, effects)) :
    next.q = s.q ∧ next.start = s.start ∧ ∀ effect ∈ effects, ∃ text, effect = .warn text := by
  obtain ⟨stops, _, rest⟩ := bind_eq_ok_iff.mp ran
  cases stops with
  | true =>
      obtain ⟨rfl, rfl⟩ := Prod.mk.inj (pure_eq_ok_iff.mp rest)
      refine ⟨rfl, rfl, ?_⟩
      intro effect member
      cases member
  | false =>
      obtain ⟨rfl, rfl⟩ := Prod.mk.inj (pure_eq_ok_iff.mp rest)
      refine ⟨rfl, rfl, ?_⟩
      intro effect member
      exact ⟨_, List.mem_singleton.mp member⟩

theorem iteration_spec {reader : Reader} {write : Value → Bytes} {pingTopic : Bytes}
    {current : Int} {s next : MainLoop} {effects : List Effect}
    (ran : iteration reader write pingTopic current s = .ok (next, effects)) :
    next.q = s.q.drop 1 ∧ next.start = (ping pingTopic current s).1.start ∧
      ∃ logged, effects = (ping pingTopic current s).2 ++ logged ∧
        ∀ effect ∈ logged, ∃ text, effect = .warn text := by
  cases queued : s.q with
  | nil =>
      rw [iteration] at ran
      simp only [ping_q, queued] at ran
      obtain ⟨rfl, rfl⟩ := Prod.mk.inj (pure_eq_ok_iff.mp ran)
      refine ⟨by rw [ping_q, queued]; rfl, rfl, [], (List.append_nil _).symm, ?_⟩
      intro effect member
      cases member
  | cons head rest =>
      rw [iteration_of_head queued] at ran
      obtain ⟨⟨after, logged⟩, processed, same⟩ := bind_eq_ok_iff.mp ran
      obtain ⟨rfl, rfl⟩ := Prod.mk.inj (pure_eq_ok_iff.mp same)
      obtain ⟨left, unchanged, warnings⟩ := processPayload_spec processed
      exact ⟨left, unchanged, logged, rfl, warnings⟩

theorem iteration_run_iff {reader : Reader} {write : Value → Bytes} {pingTopic : Bytes}
    {current : Int} {s : MainLoop} {head : Entry} {rest : List Entry} (running : s.run = true)
    (queued : s.q = head :: rest) {answer : Bool} :
    (∃ next effects, iteration reader write pingTopic current s = .ok (next, effects) ∧
        next.run = !answer) ↔ isStop (reader.parse head.2) = .ok answer := by
  have pinged : { (ping pingTopic current s).1 with q := rest }.run = true := by
    rw [ping_run, running]
  rw [iteration_of_head queued, ← processPayload_run_iff pinged]
  constructor
  · intro ran
    obtain ⟨next, effects, ran, run⟩ := ran
    obtain ⟨⟨after, logged⟩, processed, same⟩ := bind_eq_ok_iff.mp ran
    obtain ⟨rfl, rfl⟩ := Prod.mk.inj (pure_eq_ok_iff.mp same)
    exact ⟨after, logged, processed, run⟩
  · intro processed
    obtain ⟨next, effects, processed, run⟩ := processed
    exact ⟨next, _, bind_eq_ok_iff.mpr ⟨_, processed, rfl⟩, run⟩

/-! ## Obedience to the stop command -/

/-- The whole payload is a JSON object whose `command` is exactly `stop`. -/
def StopCommand (reader : Reader) (payload : Bytes) : Prop :=
  ∃ document, reader.read payload = some document ∧
    document.member (literal "command") = some (.string (literal "stop"))

/-- The iteration breaks no precondition, and it ends the loop exactly when it
is told to. -/
def Obeys (reader : Reader) (write : Value → Bytes) (pingTopic : Bytes) (current : Int)
    (s : MainLoop) (payload : Bytes) : Prop :=
  ∃ next effects, iteration reader write pingTopic current s = .ok (next, effects) ∧
    (next.run = false ↔ StopCommand reader payload)

/-- The text up to the first NUL is an object whose `command`, if there is
one, is a string, and one that only `strcmp` takes for `stop` does not occur. -/
def WellFormed (reader : Reader) (payload : Bytes) : Prop :=
  ∃ members, reader.read (cString payload) = some (.object members) ∧
    ∀ value, members.lookup (literal "command") = some value →
      ∃ command, value = .string command ∧
        (cString command = literal "stop" → command = literal "stop" ∧ 0 ∉ payload)

/-- What the iteration answers for an object is what it is told, as soon as
the payload holds no NUL and `strcmp` compares the whole command. -/
theorem stopCommand_iff {reader : Reader} {payload : Bytes} {members : List (Bytes × Value)}
    (read : reader.read (cString payload) = some (.object members)) :
    StopCommand reader payload ↔
      0 ∉ payload ∧ members.lookup (literal "command") = some (.string (literal "stop")) := by
  constructor
  · intro stop
    obtain ⟨document, whole, command⟩ := stop
    have clean := reader.clean whole
    rw [cString_eq_self clean, whole] at read
    rw [Option.some.inj read] at command
    exact ⟨clean, command⟩
  · intro exactly
    obtain ⟨clean, command⟩ := exactly
    rw [cString_eq_self clean] at read
    exact ⟨_, read, command⟩

theorem obeys_iff_isStop {reader : Reader} {write : Value → Bytes} {pingTopic : Bytes}
    {current : Int} {s : MainLoop} {head : Entry} {rest : List Entry} (running : s.run = true)
    (queued : s.q = head :: rest) :
    Obeys reader write pingTopic current s head.2 ↔
      ∃ answer, isStop (reader.parse head.2) = .ok answer ∧
        (answer = true ↔ StopCommand reader head.2) := by
  constructor
  · intro obeys
    obtain ⟨next, effects, ran, agrees⟩ := obeys
    have result : isStop (reader.parse head.2) = .ok (!next.run) :=
      (iteration_run_iff running queued).mp ⟨next, effects, ran, by simp⟩
    exact ⟨_, result, by simpa using agrees⟩
  · intro decided
    obtain ⟨answer, answered, agrees⟩ := decided
    obtain ⟨next, effects, ran, run⟩ :=
      (iteration_run_iff running queued).mpr answered
    exact ⟨next, effects, ran, by rw [run]; simpa using agrees⟩

theorem isStop_agrees_iff {reader : Reader} {payload : Bytes} :
    (∃ answer, isStop (reader.parse payload) = .ok answer ∧
        (answer = true ↔ StopCommand reader payload)) ↔ WellFormed reader payload := by
  constructor
  · intro decided
    obtain ⟨answer, answered, agrees⟩ := decided
    obtain ⟨members, parsed, commands⟩ := isStop_eq_ok_iff.mp answered
    have read := Reader.read_of_parse parsed (by simp)
    refine ⟨members, read, ?_⟩
    intro value named
    obtain ⟨absent, _⟩ | ⟨command, found, rfl⟩ := commands
    · rw [absent] at named
      cases named
    · rw [found] at named
      refine ⟨command, (Option.some.inj named).symm, ?_⟩
      intro taken
      obtain ⟨clean, exactly⟩ := (stopCommand_iff read).mp (agrees.mp (decide_eq_true taken))
      rw [found] at exactly
      exact ⟨Value.string.inj (Option.some.inj exactly), clean⟩
  · intro wellFormed
    obtain ⟨members, read, commands⟩ := wellFormed
    have parsed := Reader.parse_of_read read
    simp only [isStop_eq_ok_iff, stopCommand_iff read]
    cases named : members.lookup (literal "command") with
    | none => exact ⟨false, ⟨members, parsed, .inl ⟨named, rfl⟩⟩, by simp⟩
    | some value =>
        obtain ⟨command, rfl, strict⟩ := commands value named
        refine ⟨_, ⟨members, parsed, .inr ⟨command, named, rfl⟩⟩, ?_⟩
        rw [decide_eq_true_iff]
        constructor
        · intro taken
          obtain ⟨exactly, clean⟩ := strict taken
          exact ⟨clean, by rw [exactly]⟩
        · intro stop
          obtain ⟨_, same⟩ := stop
          rw [Value.string.inj (Option.some.inj same)]
          decide

theorem iteration_obeys_iff (reader : Reader) (write : Value → Bytes) (pingTopic : Bytes)
    (current : Int) (topicName payload : Bytes) {s : MainLoop} {rest : List Entry}
    (running : s.run = true) (queued : s.q = entry topicName payload :: rest) :
    Obeys reader write pingTopic current s payload ↔ WellFormed reader payload := by
  calc Obeys reader write pingTopic current s payload
      ↔ ∃ answer, isStop (reader.parse payload) = .ok answer ∧
          (answer = true ↔ StopCommand reader payload) := obeys_iff_isStop running queued
    _ ↔ WellFormed reader payload := isStop_agrees_iff

/-! ## A payload that is no object -/

def oneArrival (payload : Bytes) : MainLoop :=
  ⟨true, 0, mqttArrivedCb (literal "strategy_control/binancenativeapp/control") payload []⟩

/-- `HasMember` is applied to the null document that the failed `Parse` left. -/
theorem plainText_not_obeyed :
    ¬ Obeys (Reader.ofTable []) (fun _ => literal "null") (literal "ping") 0
      (oneArrival (literal "stop")) (literal "stop") := by
  intro obeys
  obtain ⟨next, effects, ran, _⟩ := obeys
  cases ran

def stopText : Bytes := literal "\x7b\"command\":\"stop\"\x7d"

def stopDocument : Value := .object [(literal "command", .string (literal "stop"))]

theorem iteration_obeys_iff_stopText :
    Obeys (Reader.ofTable [(stopText, stopDocument)]) (fun _ => stopText) (literal "ping") 0
      (oneArrival stopText) stopText := by
  apply (iteration_obeys_iff _ _ _ 0 (literal "strategy_control/binancenativeapp/control")
    stopText rfl rfl).mpr
  refine ⟨[(literal "command", .string (literal "stop"))], rfl, ?_⟩
  intro value named
  exact ⟨literal "stop", (Option.some.inj named).symm, fun _ => ⟨rfl, by decide⟩⟩

end BinanceNativeApp.Control
