import BinanceNativeApp.Websocket.Passes

/-!
# The time between connection attempts

Every attempt ends with a reading of the steady clock in `subscribe_ts`, and a
pass makes another one only when that reading is three seconds old.  The time
stamps of a run are readings made in it, so that on a clock that does not go
back none of them is ever ahead of the next reading.
-/

set_option autoImplicit false

namespace BinanceNativeApp.Websocket.Throttle

open BinanceNativeApp.Library.Containers
open BinanceNativeApp.Library.Transition
open BinanceNativeApp.Websocket.Subscriptions
open BinanceNativeApp.Websocket.Runs
open BinanceNativeApp.Websocket.Routing
open BinanceNativeApp.Websocket.Passes

variable {Handle Func : Type}

def threeSeconds : Int := 3000000000

/-! ## The readings of a run -/

/-- The readings of the steady clock that an event makes, in order.  A visit
makes none unless the handle is null, and a second one for an attempt. -/
def readings (g : World Handle Func) : Event Handle Func → List Int
  | .connectEndpoint _ _ created _ completed => [created, completed]
  | .visit i met =>
      match g.api.subscribers[i]? with
      | none => []
      | some subscriber =>
          if reconnectDue subscriber met.now then [met.now, met.completed]
          else if subscriber.wsi.isNone then [met.now]
          else []
  | .callback _ => []

def clock (moves : List (Move (World Handle Func) (Event Handle Func) (Effect Handle Func))) :
    List Int :=
  moves.flatMap fun move => readings move.before move.label

/-- A `time_point` of the steady clock counts nanoseconds in 64 bits. -/
structure Steady (moves : List (Move (World Handle Func) (Event Handle Func)
    (Effect Handle Func))) : Prop where
  nondecreasing : (clock moves).Pairwise (· ≤ ·)
  representable : ∀ reading ∈ clock moves, -2 ^ 63 ≤ reading ∧ reading < 2 ^ 63

/-- The readings before and after the connect call of an event. -/
def attemptStart : Event Handle Func → Option Int
  | .connectEndpoint _ _ created _ _ => some created
  | .visit _ met => some met.now
  | .callback _ => none

def attemptCompleted : Event Handle Func → Option Int
  | .connectEndpoint _ _ _ _ completed => some completed
  | .visit _ met => some met.completed
  | .callback _ => none

def attempts (effects : List (Effect Handle Func)) : List Nat :=
  effects.filterMap fun effect =>
    match effect with
    | .clientConnectViaInfo _ k => some k
    | _ => none

/-- The handle is null and the time stamp three seconds back. -/
def Due (g : World Handle Func) (k : Nat) (now : Int) : Prop :=
  ∃ subscriber, g.api.subscribers[k]? = some subscriber ∧ subscriber.wsi = none ∧
    subscriber.subscribeTs + threeSeconds ≤ now

/-- Neither the truncation nor the unsigned count matters for a time stamp that
is not ahead. -/
theorem elapsedSeconds_iff {now since : Int} (past : since ≤ now) (low : -2 ^ 63 ≤ since)
    (high : now < 2 ^ 63) : 2 < elapsedSeconds now since ↔ since + threeSeconds ≤ now := by
  rw [elapsedSeconds, Int.tdiv_eq_ediv_of_nonneg (by omega), threeSeconds]
  omega

/-! ## Time stamps are readings -/

theorem attempt_readings {g base : World Handle Func} {event : Event Handle Func} {k : Nat}
    {outcome : ConnectOutcome Handle} {completed : Int}
    (starts : Attempt g event base k outcome completed) :
    completed ∈ readings g event ∧ attemptCompleted event = some completed := by
  cases starts with
  | first path func created outcome completed => exact ⟨by simp [readings], rfl⟩
  | again found due => exact ⟨by simp [readings, found, due], rfl⟩

variable [DecidableEq Handle]

theorem reportEnd_stamp {wsi : Handle} {s : Api Handle Func} {k : Nat}
    {subscriber : Subscriber Handle Func}
    (found : (reportEnd wsi s).subscribers[k]? = some subscriber) :
    ∃ before, s.subscribers[k]? = some before ∧
      subscriber.subscribeTs = before.subscribeTs := by
  rw [reportEnd_getElem?] at found
  split at found
  · obtain ⟨before, foundBefore, rfl⟩ := Option.map_eq_some_iff.mp found
    exact ⟨before, foundBefore, rfl⟩
  · exact ⟨subscriber, found, rfl⟩

theorem afterReport_stamp {outcome : ConnectOutcome Handle} {s : Api Handle Func} {k : Nat}
    {subscriber : Subscriber Handle Func}
    (found : (afterReport outcome s).subscribers[k]? = some subscriber) :
    ∃ before, s.subscribers[k]? = some before ∧
      subscriber.subscribeTs = before.subscribeTs := by
  unfold afterReport at found
  split at found
  · exact reportEnd_stamp found
  · exact ⟨subscriber, found, rfl⟩

theorem step_stamp {g next : World Handle Func} {event : Event Handle Func}
    {effects : List (Effect Handle Func)} (routed : Routed g) (permitted : event.Allowed g)
    (stepped : g.step event = some (next, effects)) {k : Nat}
    {subscriber : Subscriber Handle Func} (found : next.api.subscribers[k]? = some subscriber) :
    (∃ before, g.api.subscribers[k]? = some before ∧
      subscriber.subscribeTs = before.subscribeTs) ∨
    subscriber.subscribeTs ∈ readings g event := by
  rcases step_cases routed.indexed stepped with
    ⟨base, own, outcome, completed, _, starts, _, rfl, _⟩ | ⟨_, _, _, _, _, _, rfl, _⟩ |
      ⟨c, rfl, ran, _⟩
  · simp only [World.attempted, settle_getElem?] at found
    by_cases here : own = k
    · rw [if_pos here] at found
      obtain ⟨_, _, rfl⟩ := Option.map_eq_some_iff.mp found
      exact .inr (attempt_readings starts).1
    · rw [if_neg here] at found
      obtain ⟨before, foundBefore, same⟩ := afterReport_stamp found
      rw [attempt_base_getElem? starts (Ne.symm here)] at foundBefore
      exact .inl ⟨before, foundBefore, same⟩
  · exact .inl ⟨subscriber, found, rfl⟩
  · rcases callback_cases routed c permitted with ⟨_, ran'⟩ | ⟨_, _, ran', _⟩
    · rw [ran] at ran'
      rw [(Prod.mk.inj (Option.some.inj ran')).1] at found
      exact .inl (reportEnd_stamp found)
    · rw [ran] at ran'
      rw [(Prod.mk.inj (Option.some.inj ran')).1] at found
      exact .inl ⟨subscriber, found, rfl⟩

theorem run_stamp {moves : List (Move (World Handle Func) (Event Handle Func)
      (Effect Handle Func))} {g final : World Handle Func}
    (run : Path (world Handle Func) g moves final) (routed : Routed g) {k : Nat}
    {subscriber : Subscriber Handle Func} (found : final.api.subscribers[k]? = some subscriber) :
    (∃ before, g.api.subscribers[k]? = some before ∧
      subscriber.subscribeTs = before.subscribeTs) ∨ subscriber.subscribeTs ∈ clock moves := by
  induction run with
  | nil state => exact .inl ⟨subscriber, found, rfl⟩
  | @cons state next final event effects moves permitted stepped rest ih =>
      have nextRouted := routed_preserved _ _ _ _ routed permitted stepped
      obtain ⟨middle, foundMiddle, same⟩ | later := ih nextRouted found
      · obtain ⟨before, foundBefore, sameBefore⟩ | now :=
          step_stamp routed permitted stepped foundMiddle
        · exact .inl ⟨before, foundBefore, same.trans sameBefore⟩
        · refine .inr (List.mem_append_left _ ?_)
          rw [same]
          exact now
      · exact .inr (List.mem_append_right _ later)

/-! ## The attempts of one event -/

theorem step_attempts {g next : World Handle Func} {event : Event Handle Func}
    {effects : List (Effect Handle Func)} (routed : Routed g) (permitted : event.Allowed g)
    (stepped : g.step event = some (next, effects)) :
    (∃ base k outcome completed, Attempt g event base k outcome completed ∧
      attempts effects = [k] ∧ ∃ subscriber, next.api.subscribers[k]? = some subscriber ∧
        subscriber.subscribeTs = completed) ∨
    attempts effects = [] ∧ ∀ i met subscriber, event = .visit i met →
      g.api.subscribers[i]? = some subscriber → reconnectDue subscriber met.now = false := by
  rcases step_cases routed.indexed stepped with
    ⟨base, k, outcome, completed, subscriber, starts, found, rfl, rfl⟩ |
      ⟨i, met, subscriber, rfl, found, notDue, _, rfl⟩ | ⟨c, rfl, ran, _⟩
  · refine .inl ⟨base, k, outcome, completed, starts, rfl, ?_⟩
    have inRange : k < (afterReport outcome base.api).subscribers.length := by
      rw [afterReport_length]
      exact (List.getElem?_eq_some_iff.mp found).1
    simp only [World.attempted, settle_getElem?, if_true, List.getElem?_eq_getElem inRange,
      Option.map_some]
    exact ⟨_, rfl, rfl⟩
  · refine .inr ⟨rfl, ?_⟩
    intro j other subscriber' same found'
    cases same
    cases Option.some.inj (found.symm.trans found')
    exact notDue
  · refine .inr ⟨?_, by intro i met subscriber same; cases same⟩
    rcases callback_cases routed c permitted with ⟨_, ran'⟩ | ⟨_, others, ran', quiet⟩
    · rw [ran] at ran'
      rw [(Prod.mk.inj (Option.some.inj ran')).2]
      rfl
    · rw [ran] at ran'
      rw [(Prod.mk.inj (Option.some.inj ran')).2]
      apply List.filterMap_eq_nil_iff.mpr
      intro effect member
      cases effect with
      | clientConnectViaInfo info k => exact absurd member (quiet info k)
      | callbackOnWritable wsi => rfl
      | callbackFunc func message => rfl

theorem stamp_le_reading {earlier later : List (Move (World Handle Func) (Event Handle Func)
      (Effect Handle Func))} {move : Move (World Handle Func) (Event Handle Func)
      (Effect Handle Func)}
    (run : Path (world Handle Func) World.initial earlier move.before)
    (steady : Steady (earlier ++ move :: later)) {k : Nat} {subscriber : Subscriber Handle Func}
    (found : move.before.api.subscribers[k]? = some subscriber) {reading : Int}
    (read : reading ∈ readings move.before move.label) :
    -2 ^ 63 ≤ subscriber.subscribeTs ∧ subscriber.subscribeTs ≤ reading ∧ reading < 2 ^ 63 := by
  have recorded : subscriber.subscribeTs ∈ clock earlier := by
    obtain ⟨before, foundBefore, _⟩ | recorded := run_stamp run initial_routed found
    · cases foundBefore
    · exact recorded
  have readNow : reading ∈ clock (move :: later) := List.mem_append_left _ read
  obtain ⟨nondecreasing, representable⟩ := steady
  rw [clock, List.flatMap_append] at nondecreasing representable
  have ordered := (List.pairwise_append.mp nondecreasing).2.2 _ recorded _ readNow
  exact ⟨(representable _ (List.mem_append_left _ recorded)).1, ordered,
    (representable _ (List.mem_append_right _ readNow)).2⟩

theorem reconnectDue_iff {earlier later : List (Move (World Handle Func) (Event Handle Func)
      (Effect Handle Func))} {move : Move (World Handle Func) (Event Handle Func)
      (Effect Handle Func)}
    (run : Path (world Handle Func) World.initial earlier move.before)
    (steady : Steady (earlier ++ move :: later)) {i : Nat} {met : Visit Handle}
    (visited : move.label = .visit i met) {subscriber : Subscriber Handle Func}
    (found : move.before.api.subscribers[i]? = some subscriber) :
    reconnectDue subscriber met.now = true ↔
      subscriber.wsi = none ∧ subscriber.subscribeTs + threeSeconds ≤ met.now := by
  by_cases vacant : subscriber.wsi = none
  · have read : met.now ∈ readings move.before move.label := by
      rw [visited]
      simp only [readings, found, vacant]
      split <;> simp
    obtain ⟨low, past, high⟩ := stamp_le_reading run steady found read
    have due := elapsedSeconds_iff past low high
    simp only [reconnectDue, vacant, Option.isNone_none, Bool.true_and, decide_eq_true_iff, due,
      true_and]
  · have held : subscriber.wsi.isNone = false := by
      rwa [← Bool.not_eq_true, Option.isNone_iff_eq_none]
    simp [reconnectDue, held, vacant]

/-! ## A pass -/

def DueWhenReached (moves : List (Move (World Handle Func) (Event Handle Func)
    (Effect Handle Func))) (k : Nat) : Prop :=
  ∃ move ∈ moves, ∃ met, move.label = .visit k met ∧ Due move.before k met.now

omit [DecidableEq Handle] in
theorem passEvents_cases {script : Nat → Visit Handle} {callbacks : List (Callback Handle)}
    {n : Nat} {event : Event Handle Func} (member : event ∈ passEvents script callbacks n) :
    (∃ i, event = .visit i (script i)) ∨ ∃ c, event = .callback c := by
  obtain visited | served := List.mem_append.mp member
  · obtain ⟨i, _, rfl⟩ := List.mem_map.mp visited
    exact .inl ⟨i, rfl⟩
  · obtain ⟨c, _, rfl⟩ := List.mem_map.mp served
    exact .inr ⟨c, rfl⟩

theorem move_attempts {earlier later : List (Move (World Handle Func) (Event Handle Func)
      (Effect Handle Func))} {move : Move (World Handle Func) (Event Handle Func)
      (Effect Handle Func)} {final : World Handle Func}
    (run : Path (world Handle Func) World.initial (earlier ++ move :: later) final)
    (inPass : (∃ i met, move.label = .visit i met) ∨ ∃ c, move.label = .callback c) :
    (attempts move.emitted = [] ∨
      ∃ i met, move.label = .visit i met ∧ attempts move.emitted = [i]) ∧
    (Steady (earlier ++ move :: later) → ∀ k, k ∈ attempts move.emitted ↔
      ∃ met, move.label = .visit k met ∧ Due move.before k met.now) := by
  obtain ⟨before, permitted, stepped, _⟩ := path_at run
  have routed := reachable_routed ⟨earlier, before⟩
  obtain ⟨base, k, outcome, completed, starts, one, _⟩ | ⟨none, notDue⟩ :=
    step_attempts routed permitted stepped
  · generalize labelled : move.label = event at starts
    cases starts with
    | first path func created outcome completed =>
        rw [labelled] at inPass
        obtain ⟨_, _, same⟩ | ⟨_, same⟩ := inPass <;> cases same
    | @again i met subscriber found due =>
        refine ⟨.inr ⟨k, met, rfl, one⟩, ?_⟩
        intro steady j
        rw [one, List.mem_singleton]
        constructor
        · intro same
          subst same
          obtain ⟨vacant, past⟩ := (reconnectDue_iff before steady labelled found).mp due
          exact ⟨met, rfl, subscriber, found, vacant, past⟩
        · intro reached
          obtain ⟨other, same, _⟩ := reached
          cases same
          rfl
  · refine ⟨.inl none, ?_⟩
    intro steady k
    rw [none]
    constructor
    · intro member
      cases member
    · intro reached
      obtain ⟨met, labelled, subscriber, found, vacant, past⟩ := reached
      have due := (reconnectDue_iff before steady labelled found).mpr ⟨vacant, past⟩
      rw [notDue k met subscriber labelled found] at due
      cases due

def visited : Event Handle Func → List Nat
  | .visit i _ => [i]
  | _ => []

omit [DecidableEq Handle] in
theorem passEvents_visited (script : Nat → Visit Handle) (callbacks : List (Callback Handle))
    (n : Nat) :
    (passEvents script callbacks n : List (Event Handle Func)).flatMap visited = List.range n := by
  have quiet : (callbacks.map (Event.callback : _ → Event Handle Func)).flatMap visited = [] := by
    simp [List.flatMap_map, visited]
  rw [passEvents, List.flatMap_append, quiet, List.append_nil, List.flatMap_map]
  simp [visited]

omit [DecidableEq Handle] in
theorem attempts_sublist {moves : List (Move (World Handle Func) (Event Handle Func)
      (Effect Handle Func))}
    (each : ∀ move ∈ moves, attempts move.emitted = [] ∨
      ∃ i met, move.label = .visit i met ∧ attempts move.emitted = [i]) :
    (moves.flatMap fun move => attempts move.emitted).Sublist
      (moves.flatMap fun move => visited move.label) := by
  induction moves with
  | nil => exact List.Sublist.refl []
  | cons move rest ih =>
      obtain ⟨here, later⟩ := List.forall_mem_cons.mp each
      rw [List.flatMap_cons, List.flatMap_cons]
      apply List.Sublist.append _ (ih later)
      obtain none | ⟨i, met, same, one⟩ := here
      · rw [none]
        exact List.nil_sublist _
      · rw [one, same]
        exact List.Sublist.refl [i]

/-- Each subscriber that a pass finds due gets one attempt, no other any. -/
theorem pass_attempts {earlier pass : List (Move (World Handle Func) (Event Handle Func)
      (Effect Handle Func))} {g last : World Handle Func} {script : Nat → Visit Handle}
    {callbacks : List (Callback Handle)}
    (run : Path (world Handle Func) World.initial earlier g)
    (passRun : Path (world Handle Func) g pass last)
    (labels : pass.map Move.label = passEvents script callbacks g.api.subscribers.length)
    (steady : Steady (earlier ++ pass)) :
    (attempts (pass.flatMap Move.emitted)).Nodup ∧
      ∀ k, k ∈ attempts (pass.flatMap Move.emitted) ↔ DueWhenReached pass k := by
  have each : ∀ move ∈ pass,
      (attempts move.emitted = [] ∨
        ∃ i met, move.label = .visit i met ∧ attempts move.emitted = [i]) ∧
      ∀ k, k ∈ attempts move.emitted ↔
        ∃ met, move.label = .visit k met ∧ Due move.before k met.now := by
    intro move member
    have labelled : move.label ∈ passEvents script callbacks g.api.subscribers.length := by
      rw [← labels]
      exact List.mem_map_of_mem member
    obtain ⟨before, after, rfl⟩ := List.append_of_mem member
    rw [← List.append_assoc] at steady
    have whole := path_append run passRun
    rw [← List.append_assoc] at whole
    obtain ⟨one, exactly⟩ := move_attempts whole (by
      obtain ⟨i, same⟩ | ⟨c, same⟩ := passEvents_cases labelled
      · exact .inl ⟨i, script i, same⟩
      · exact .inr ⟨c, same⟩)
    exact ⟨one, exactly steady⟩
  have flat : attempts (pass.flatMap Move.emitted) =
      pass.flatMap fun move => attempts move.emitted := List.filterMap_flatMap
  refine ⟨?_, ?_⟩
  · have inOrder := attempts_sublist fun move member => (each move member).1
    have range : (pass.flatMap fun move => visited move.label) =
        List.range g.api.subscribers.length := by
      rw [← passEvents_visited script callbacks, ← labels, List.flatMap_map]
    rw [flat]
    rw [range] at inOrder
    exact inOrder.nodup List.nodup_range
  · intro k
    rw [flat, List.mem_flatMap]
    constructor
    · intro attempted
      obtain ⟨move, member, made⟩ := attempted
      exact ⟨move, member, ((each move member).2 k).mp made⟩
    · intro due
      obtain ⟨move, member, reached⟩ := due
      exact ⟨move, member, ((each move member).2 k).mpr reached⟩

/-! ## Between two attempts -/

theorem step_length {g next : World Handle Func} {event : Event Handle Func}
    {effects : List (Effect Handle Func)} (routed : Routed g) (permitted : event.Allowed g)
    (stepped : g.step event = some (next, effects)) :
    g.api.subscribers.length ≤ next.api.subscribers.length := by
  rcases step_cases routed.indexed stepped with
    ⟨base, k, outcome, completed, subscriber, starts, _, rfl, _⟩ | ⟨_, _, _, _, _, _, rfl, _⟩ |
      ⟨c, rfl, ran, _⟩
  · simp only [World.attempted, settle, List.length_modify, afterReport_length]
    cases starts with
    | first path func created outcome completed => simp [World.registered, emplaceBack]
    | again _ _ => exact Nat.le_refl _
  · exact Nat.le_refl _
  · rcases callback_cases routed c permitted with ⟨_, ran'⟩ | ⟨_, _, ran', _⟩
    · rw [ran] at ran'
      rw [(Prod.mk.inj (Option.some.inj ran')).1, reportEnd, List.length_modify]
    · rw [ran] at ran'
      rw [(Prod.mk.inj (Option.some.inj ran')).1]

theorem run_length {moves : List (Move (World Handle Func) (Event Handle Func)
      (Effect Handle Func))} {g final : World Handle Func}
    (run : Path (world Handle Func) g moves final) (routed : Routed g) :
    g.api.subscribers.length ≤ final.api.subscribers.length := by
  induction run with
  | nil state => exact Nat.le_refl _
  | cons permitted stepped rest ih =>
      exact Nat.le_trans (step_length routed permitted stepped)
        (ih (routed_preserved _ _ _ _ routed permitted stepped))

theorem completed_le_stamp {first : Move (World Handle Func) (Event Handle Func)
      (Effect Handle Func)} {between : List (Move (World Handle Func) (Event Handle Func)
      (Effect Handle Func))} {final : World Handle Func}
    (meanwhile : Path (world Handle Func) first.after between final) (routed : Routed first.after)
    (nondecreasing : (clock (first :: between)).Pairwise (· ≤ ·)) {completed : Int}
    (read : completed ∈ readings first.before first.label) {k : Nat}
    {stamped reached : Subscriber Handle Func}
    (found : first.after.api.subscribers[k]? = some stamped)
    (same : stamped.subscribeTs = completed)
    (later : final.api.subscribers[k]? = some reached) : completed ≤ reached.subscribeTs := by
  obtain ⟨origin, foundOrigin, kept⟩ | recorded := run_stamp meanwhile routed later
  · cases Option.some.inj (found.symm.trans foundOrigin)
    exact Int.le_of_eq (kept.trans same).symm
  · rw [clock, List.flatMap_cons] at nondecreasing
    exact (List.pairwise_append.mp nondecreasing).2.2 _ read _ recorded

/-- Three seconds pass between the end of an attempt and the beginning of a
later one for the same subscriber. -/
theorem attempts_apart {earlier between later : List (Move (World Handle Func)
      (Event Handle Func) (Effect Handle Func))} {first second : Move (World Handle Func)
      (Event Handle Func) (Effect Handle Func)} {final : World Handle Func}
    (run : Path (world Handle Func) World.initial
      (earlier ++ first :: (between ++ second :: later)) final)
    (steady : Steady (earlier ++ first :: (between ++ second :: later))) {k : Nat}
    (firstMade : k ∈ attempts first.emitted) (secondMade : k ∈ attempts second.emitted) :
    ∃ completed start, attemptCompleted first.label = some completed ∧
      attemptStart second.label = some start ∧ completed + threeSeconds ≤ start := by
  obtain ⟨before, permitted, stepped, rest⟩ := path_at run
  obtain ⟨meanwhile, secondPermitted, secondStepped, _⟩ := path_at rest
  have routed := reachable_routed ⟨earlier, before⟩
  have afterRouted := routed_preserved _ _ _ _ routed permitted stepped
  have toSecond : Path (world Handle Func) World.initial (earlier ++ first :: between)
      second.before := path_append before (Path.cons permitted stepped meanwhile)
  have secondRouted := reachable_routed ⟨_, toSecond⟩
  have wholeSteady : Steady ((earlier ++ first :: between) ++ second :: later) := by
    rw [List.append_assoc]
    exact steady
  obtain ⟨base, k', outcome, completed, starts, one, stamped, found, sameStamp⟩ | ⟨none, _⟩ :=
    step_attempts routed permitted stepped
  · rw [one, List.mem_singleton] at firstMade
    subst firstMade
    obtain ⟨read, ended⟩ := attempt_readings starts
    obtain ⟨_, j, _, _, secondStarts, oneMore, _⟩ | ⟨none, _⟩ :=
      step_attempts secondRouted secondPermitted secondStepped
    · rw [oneMore, List.mem_singleton] at secondMade
      subst secondMade
      generalize labelled : second.label = event at secondStarts
      cases secondStarts with
      | first path func created outcome completed =>
          -- a new subscriber comes behind all those there are
          have inRange := (List.getElem?_eq_some_iff.mp found).1
          have grown := run_length meanwhile afterRouted
          omega
      | @again i met subscriber reached due =>
          have past := ((reconnectDue_iff toSecond wholeSteady labelled reached).mp due).2
          have ordered := wholeSteady.nondecreasing
          rw [clock, List.flatMap_append, List.flatMap_append] at ordered
          have fromFirst := (List.pairwise_append.mp (List.pairwise_append.mp ordered).1).2.1
          have notBefore := completed_le_stamp meanwhile afterRouted fromFirst read found
            sameStamp reached
          exact ⟨completed, met.now, ended, rfl, by omega⟩
    · rw [none] at secondMade
      cases secondMade
  · rw [none] at firstMade
    cases firstMade

/-- In every run on a clock that does not go back: a pass connects exactly the
subscribers it finds due, and attempts for one subscriber are three seconds
apart, whatever happens in between. -/
theorem reconnects_throttled {moves : List (Move (World Handle Func) (Event Handle Func)
      (Effect Handle Func))} {g : World Handle Func}
    (run : Path (world Handle Func) World.initial moves g) :
    (∀ (script : Nat → Visit Handle) (callbacks : List (Callback Handle)),
      PassAllowed script callbacks g →
      ∃ after effects pass last, eventLoop script callbacks g.api = some (after, effects) ∧
        Path (world Handle Func) g pass last ∧ last.api = after ∧
        pass.map Move.label = passEvents script callbacks g.api.subscribers.length ∧
        pass.flatMap Move.emitted = effects ∧
        (Steady (moves ++ pass) → (attempts effects).Nodup ∧
          ∀ k, k ∈ attempts effects ↔ DueWhenReached pass k)) ∧
    (Steady moves → ∀ earlier first between second later,
      moves = earlier ++ first :: (between ++ second :: later) →
      ∀ k, k ∈ attempts first.emitted → k ∈ attempts second.emitted →
      ∃ completed start, attemptCompleted first.label = some completed ∧
        attemptStart second.label = some start ∧ completed + threeSeconds ≤ start) := by
  refine ⟨?_, ?_⟩
  · intro script callbacks permitted
    obtain ⟨after, effects, ran⟩ := eventLoop_defined ⟨moves, run⟩ permitted
    obtain ⟨pass, last, passRun, same, labels, outputs⟩ := eventLoop_is_run permitted ran
    refine ⟨after, effects, pass, last, ran, passRun, same, labels, outputs, ?_⟩
    intro steady
    rw [← outputs]
    exact pass_attempts run passRun labels steady
  · intro steady earlier first between second later shape k firstMade secondMade
    subst shape
    exact attempts_apart run steady firstMade secondMade

/-! ## A refused connection -/

def refused : World Nat Nat :=
  (World.initial.registered [47] 5 0).attempted 0 .refused 0 (connectInfo [47])

def refusedRun : List (Move (World Nat Nat) (Event Nat Nat) (Effect Nat Nat)) :=
  [⟨World.initial, .connectEndpoint [47] 5 0 .refused 0,
    [.clientConnectViaInfo (connectInfo [47]) 0], refused⟩]

theorem refusedRun_path : Path (world Nat Nat) World.initial refusedRun refused := by
  have permitted : (world Nat Nat).allowed World.initial
      (.connectEndpoint [47] 5 0 .refused 0) := by
    intro wsi handle
    cases handle
  exact path_single permitted rfl

def retry (_ : Nat) : Visit Nat := ⟨3000000000, .opened 1, 3000000001⟩

theorem retry_allowed : PassAllowed retry [] refused := by
  refine ⟨⟨by decide, ?_⟩, fun _ _ _ => trivial⟩
  intro wsi _
  rfl

theorem reconnects_throttled_refused :
    ∃ after effects, eventLoop retry [] refused.api = some (after, effects) ∧
      (attempts effects).Nodup ∧ 0 ∈ attempts effects := by
  obtain ⟨after, effects, pass, last, ran, passRun, _, labels, _, exactly⟩ :=
    (reconnects_throttled refusedRun_path).1 retry [] retry_allowed
  have shape : ∃ emitted, pass = [⟨refused, .visit 0 (retry 0), emitted, last⟩] := by
    cases passRun with
    | nil => cases labels
    | cons permitted stepped rest =>
        obtain ⟨rfl, none⟩ := List.cons.inj labels
        cases List.map_eq_nil_iff.mp none
        cases rest
        exact ⟨_, rfl⟩
  obtain ⟨emitted, rfl⟩ := shape
  have readings : clock (refusedRun ++ [⟨refused, .visit 0 (retry 0), emitted, last⟩]) =
      [0, 0, 3000000000, 3000000001] := rfl
  have steady : Steady (refusedRun ++ [⟨refused, .visit 0 (retry 0), emitted, last⟩]) := by
    constructor
    · rw [readings]
      decide
    · rw [readings]
      decide
  obtain ⟨once, due⟩ := exactly steady
  exact ⟨after, effects, ran, once, (due 0).mpr
    ⟨_, List.mem_cons_self, retry 0, rfl, _, rfl, rfl, by decide⟩⟩

end BinanceNativeApp.Websocket.Throttle
