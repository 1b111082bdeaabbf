import BinanceNativeApp.ControlRuns
import BinanceNativeApp.Queue.Runs

/-!
# The control loop over the queue itself

In the model of `main` the queue `q` is a list.  Here it is the queue of
`concurrentqueue.h`, which one thread of the MQTT client fills and the main
loop empties.
-/

set_option autoImplicit false

namespace BinanceNativeApp.Queue

open BinanceNativeApp.Library.Containers
open BinanceNativeApp.Library.Json
open BinanceNativeApp.Library.Transition
open BinanceNativeApp.Control
open BinanceNativeApp.ControlRuns

structure QueuedLoop where
  run : Bool
  start : Int
  q : ConcurrentQueue Entry

/-- What `mqtt_arrived_cb` and an iteration do to the queue: what `enqueue`
answers is not looked at, and an iteration sees of the queue what `try_dequeue`
takes out. -/
def queuedStep (w : Nat) (memory : Memory) (thread : Nat) (reader : Reader)
    (write : Value → Bytes) (pingTopic : Bytes) (s : QueuedLoop) :
    Event → Option (QueuedLoop × List Entry)
  | .arrived topicName payload => do
      let (_, q) ← enqueue w memory thread (entry topicName payload) s.q
      some ({ s with q := q }, [])
  | .iteration current => do
      let (item, q) ← tryDequeue w s.q
      match iteration reader write pingTopic current ⟨s.run, s.start, item.toList⟩ with
      | .ok (next, _) => some (⟨next.run, next.start, q⟩, item.toList)
      | .error _ => none

/-- What is seen of a run from outside the queue. -/
def seen (result : QueuedLoop × List Entry) : Bool × Int × List Entry :=
  (result.1.run, result.1.start, result.2)

def seenOfList (result : MainLoop × List Entry) : Bool × Int × List Entry :=
  (result.1.run, result.1.start, result.2)

section Loop
variable {w : Nat} {memory : Memory} {thread : Nat} (reader : Reader) (write : Value → Bytes)
  (pingTopic : Bytes)

theorem processPayload_q (payload : Bytes) (run : Bool) (start : Int) (q q' : List Entry) :
    processPayload reader write payload ⟨run, start, q'⟩ =
      (processPayload reader write payload ⟨run, start, q⟩).map fun result =>
        ({ result.1 with q := q' }, result.2) := by
  simp only [processPayload]
  cases isStop (reader.parse payload) with
  | error code => rfl
  | ok stop => cases stop <;> rfl

theorem iteration_take (current : Int) (s : MainLoop) :
    iteration reader write pingTopic current ⟨s.run, s.start, s.q.take 1⟩ =
      (iteration reader write pingTopic current s).map fun result =>
        ({ result.1 with q := [] }, result.2) := by
  obtain ⟨run, start, q⟩ := s
  have due : ∃ start' pings, ∀ q,
      ping pingTopic current ⟨run, start, q⟩ = (⟨run, start', q⟩, pings) := by
    by_cases second : 1 ≤ (current - start).tdiv 1000000000
    · exact ⟨_, _, fun q => if_pos second⟩
    · exact ⟨_, _, fun q => if_neg second⟩
  obtain ⟨start', pings, due⟩ := due
  cases q with
  | nil =>
    simp only [Control.iteration, List.take_nil, due]
    rfl
  | cons head rest =>
    show Control.iteration reader write pingTopic current ⟨run, start, [head]⟩ = _
    simp only [Control.iteration, due]
    rw [processPayload_q reader write head.2 run start' rest []]
    cases processPayload reader write head.2 ⟨run, start', rest⟩ <;> rfl

/-- The queue holds the entries of the list, all from one thread. -/
def Carries (w thread : Nat) (s : QueuedLoop) (t : MainLoop) : Prop :=
  s.run = t.run ∧ s.start = t.start ∧ Ready w s.q (Function.update (fun _ => []) thread t.q)

theorem Carries.arrived (bits : 10 ≤ w) (enough : memory.Enough) {s : QueuedLoop} {t : MainLoop}
    (carries : Carries w thread s t) (short : t.q.length + blockSize < 2 ^ (w - 1))
    (topicName payload : Bytes) :
    ∃ s', queuedStep w memory thread reader write pingTopic s (.arrived topicName payload) =
        some (s', []) ∧
      Carries w thread s' { t with q := mqttArrivedCb topicName payload t.q } := by
  obtain ⟨run, start, represents, equipped⟩ := carries
  obtain ⟨ok, q', done, represents', refusal⟩ :=
    represents.enqueue bits memory thread (entry topicName payload)
  obtain ⟨equipped', long⟩ := refusal enough equipped
  rw [Function.update_self] at represents' long
  refine ⟨{ s with q := q' }, ?_, run, start, ?_, equipped'⟩
  · simp only [queuedStep, done, Option.bind_eq_bind, Option.bind_some]
  · cases ok with
    | false =>
      have full := long rfl
      omega
    | true =>
      rw [if_pos rfl, Function.update_idem] at represents'
      exact represents'

theorem Carries.tryDequeue (bits : 10 ≤ w) {s : QueuedLoop} {t : MainLoop}
    (carries : Carries w thread s t) :
    ∃ q', Queue.tryDequeue w s.q = some (t.q.head?, q') ∧
      Ready w q' (Function.update (fun _ => []) thread (t.q.drop 1)) := by
  obtain ⟨-, -, represents, equipped⟩ := carries
  rcases represents.tryDequeue bits with
    ⟨done, nothing⟩ | ⟨first, q', id, rest, done, held, represents', equipped'⟩
  · have none := nothing thread
    rw [Function.update_self] at none
    refine ⟨s.q, by rw [none]; exact done, ?_, equipped⟩
    rw [none] at represents ⊢
    exact represents
  · have same : id = thread := by
      by_contra other
      rw [Function.update_of_ne other] at held
      cases held
    subst same
    rw [Function.update_self] at held
    rw [Function.update_idem] at represents'
    refine ⟨q', by rw [held]; exact done, ?_, equipped' equipped⟩
    rw [held]
    exact represents'

theorem Carries.step (bits : 10 ≤ w) (enough : memory.Enough) {s : QueuedLoop} {t : MainLoop}
    (carries : Carries w thread s t) (short : t.q.length + blockSize < 2 ^ (w - 1))
    (event : Event) :
    (∃ s' t' taken, queuedStep w memory thread reader write pingTopic s event = some (s', taken) ∧
        ControlRuns.step reader write pingTopic t event = some (t', taken) ∧
          Carries w thread s' t' ∧ t'.q.length ≤ t.q.length + 1) ∨
      queuedStep w memory thread reader write pingTopic s event = none ∧
        ControlRuns.step reader write pingTopic t event = none := by
  cases event with
  | arrived topicName payload =>
    obtain ⟨s', done, carries'⟩ :=
      carries.arrived reader write pingTopic bits enough short topicName payload
    refine .inl ⟨s', _, [], done, rfl, carries', ?_⟩
    rw [mqttArrivedCb, List.length_append, List.length_singleton]
  | iteration current =>
    obtain ⟨q', done, ready⟩ := carries.tryDequeue bits
    obtain ⟨run, start, -⟩ := carries
    have item : t.q.head?.toList = t.q.take 1 := by
      cases t.q <;> rfl
    have iterated := iteration_take reader write pingTopic current t
    simp only [queuedStep, done, Option.bind_eq_bind, Option.bind_some, item, run, start, iterated,
      ControlRuns.step]
    cases ran : Control.iteration reader write pingTopic current t with
    | error code => exact .inr ⟨rfl, rfl⟩
    | ok result =>
      obtain ⟨next, effects⟩ := result
      obtain ⟨left, -⟩ := iteration_spec ran
      refine .inl ⟨_, next, t.q.take 1, rfl, rfl, ⟨rfl, rfl, ?_⟩, ?_⟩
      · rw [left]
        exact ready
      · rw [left, List.length_drop]
        omega

theorem Carries.run (bits : 10 ≤ w) (enough : memory.Enough) {start : Int} {events : List Event} :
    ∀ {s : QueuedLoop} {t : MainLoop}, Carries w thread s t →
      t.q.length + events.length + blockSize ≤ 2 ^ (w - 1) →
      (sequence (fun event s => queuedStep w memory thread reader write pingTopic s event) events
          s).map seen =
        (sequence (fun event t => (control reader write pingTopic start).step t event) events
          t).map seenOfList := by
  induction events with
  | nil =>
    intro s t carries _
    obtain ⟨run, start, -⟩ := carries
    simp only [Library.Transition.sequence, Option.map_some, seen, seenOfList, run, start]
  | cons event rest ih =>
    intro s t carries short
    rw [List.length_cons] at short
    rcases carries.step reader write pingTopic bits enough (by omega) event with
      ⟨s', t', taken, queued, listed, carries', grown⟩ | ⟨queued, listed⟩
    · have listed' : (control reader write pingTopic start).step t event = some (t', taken) :=
        listed
      have same := ih carries' (by omega)
      simp only [Library.Transition.sequence, queued, listed', Option.bind_eq_bind,
        Option.bind_some]
      cases later : sequence
          (fun event s => queuedStep w memory thread reader write pingTopic s event) rest s' with
      | none =>
        rw [later, Option.map_none] at same
        rw [Option.map_eq_none_iff.mp same.symm]
        rfl
      | some result =>
        rw [later, Option.map_some] at same
        obtain ⟨result', ran, equal⟩ := Option.map_eq_some_iff.mp same.symm
        rw [ran]
        obtain ⟨final, outputs⟩ := result
        obtain ⟨final', outputs'⟩ := result'
        obtain ⟨run, pair⟩ := Prod.mk.inj equal
        obtain ⟨start, rfl⟩ := Prod.mk.inj pair
        change final'.run = final.run at run
        change final'.start = final.start at start
        simp only [Option.bind_some, Option.map_some, seen, seenOfList, run, start]
    · have listed' : (control reader write pingTopic start).step t event = none := listed
      simp only [Library.Transition.sequence, queued, listed', Option.bind_eq_bind,
        Option.bind_none, Option.map_none]

end Loop

/-- Over the queue the main loop does what it does over a list. -/
theorem loop_over_queue {w : Nat} (bits : 10 ≤ w) {memory : Memory} (enough : memory.Enough)
    (thread : Nat) (reader : Reader) (write : Value → Bytes) (pingTopic : Bytes) (start : Int)
    (available : Bool) (capacity : Nat) {events : List Event}
    (short : events.length + blockSize ≤ 2 ^ (w - 1)) :
    (sequence (fun event s => queuedStep w memory thread reader write pingTopic s event) events
        ⟨true, start, concurrentQueue available capacity⟩).map seen =
      (sequence (fun event s => (control reader write pingTopic start).step s event) events
        (control reader write pingTopic start).init).map seenOfList := by
  have carries : Carries w thread ⟨true, start, concurrentQueue available capacity⟩
      (control reader write pingTopic start).init := by
    refine ⟨rfl, rfl, ?_⟩
    show Ready w _ (Function.update (fun _ => []) thread [])
    rw [Function.update_eq_self_iff.mpr rfl]
    exact ready_constructed w available capacity
  refine carries.run reader write pingTopic bits enough ?_
  show 0 + events.length + blockSize ≤ 2 ^ (w - 1)
  omega

theorem loop_over_queue_stop :
    (sequence (fun event s => queuedStep 64 ⟨true, true, true, true⟩ 1 stopReader (fun _ => []) []
        s event) stopEvents ⟨true, 0, concurrentQueue true 1024⟩).map seen =
      some (false, 0, [(controlTopic, stopText)]) := by
  rw [loop_over_queue (by decide) ⟨rfl, rfl, rfl, rfl⟩ 1 stopReader (fun _ => []) [] 0 true 1024
    (by decide)]
  rfl

end BinanceNativeApp.Queue
