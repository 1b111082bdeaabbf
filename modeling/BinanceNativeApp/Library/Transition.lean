import Mathlib.Data.List.Basic

/-!
# Partial transition systems driven by labels

`step` answers what a machine does with one label: the state it moves to and
what it emits on the way, or nothing at all where its own code has no defined
behaviour.  `allowed` is the part played by the environment: the labels it may
offer in a state.  A `Path` is a finite run written move by move, so that a
statement about a run can speak of the state before and after each of its
moves and of what that move emitted.
-/

set_option autoImplicit false

namespace BinanceNativeApp.Library.Transition

universe u v w

structure System (State : Type u) (Label : Type v) (Output : Type w) where
  init : State
  allowed : State → Label → Prop
  step : State → Label → Option (State × List Output)

structure Move (State : Type u) (Label : Type v) (Output : Type w) where
  before : State
  label : Label
  emitted : List Output
  after : State

/-- Perform the labels in order, as far as they are defined, and collect what
is emitted. -/
def sequence {State : Type u} {Label : Type v} {Output : Type w}
    (act : Label → State → Option (State × List Output)) :
    List Label → State → Option (State × List Output)
  | [], state => some (state, [])
  | label :: rest, state => do
      let (next, first) ← act label state
      let (final, later) ← sequence act rest next
      some (final, first ++ later)

section Runs
variable {State : Type u} {Label : Type v} {Output : Type w}

inductive Path (system : System State Label Output) :
    State → List (Move State Label Output) → State → Prop
  | nil (state : State) : Path system state [] state
  | cons {state next final : State} {label : Label} {emitted : List Output}
      {moves : List (Move State Label Output)}
      (permitted : system.allowed state label)
      (stepped : system.step state label = some (next, emitted))
      (rest : Path system next moves final) :
      Path system state (⟨state, label, emitted, next⟩ :: moves) final

def Reachable (system : System State Label Output) (state : State) : Prop :=
  ∃ moves, Path system system.init moves state

def Preserved (system : System State Label Output) (property : State → Prop) : Prop :=
  ∀ state label next emitted, property state → system.allowed state label →
    system.step state label = some (next, emitted) → property next

variable {system : System State Label Output}

theorem path_append {start middle final : State}
    {first second : List (Move State Label Output)}
    (left : Path system start first middle) (right : Path system middle second final) :
    Path system start (first ++ second) final := by
  induction left with
  | nil state => exact right
  | cons permitted stepped _ ih => exact Path.cons permitted stepped (ih right)

theorem path_split {start final : State} {first second : List (Move State Label Output)}
    (run : Path system start (first ++ second) final) :
    ∃ middle, Path system start first middle ∧ Path system middle second final := by
  induction first generalizing start with
  | nil => exact ⟨start, Path.nil start, run⟩
  | cons move rest ih =>
      cases run with
      | cons permitted stepped later =>
          obtain ⟨middle, left, right⟩ := ih later
          exact ⟨middle, Path.cons permitted stepped left, right⟩

theorem path_at {start final : State} {earlier later : List (Move State Label Output)}
    {move : Move State Label Output}
    (run : Path system start (earlier ++ move :: later) final) :
    Path system start earlier move.before ∧ system.allowed move.before move.label ∧
      system.step move.before move.label = some (move.after, move.emitted) ∧
      Path system move.after later final := by
  obtain ⟨middle, left, right⟩ := path_split run
  cases right with
  | cons permitted stepped rest => exact ⟨left, permitted, stepped, rest⟩

theorem path_single {state next : State} {label : Label} {emitted : List Output}
    (permitted : system.allowed state label)
    (stepped : system.step state label = some (next, emitted)) :
    Path system state [⟨state, label, emitted, next⟩] next :=
  Path.cons permitted stepped (Path.nil next)

theorem reachable_init : Reachable system system.init := ⟨[], Path.nil _⟩

theorem reachable_of_path {start final : State} {moves : List (Move State Label Output)}
    (reached : Reachable system start) (run : Path system start moves final) :
    Reachable system final := by
  obtain ⟨earlier, earlierRun⟩ := reached
  exact ⟨earlier ++ moves, path_append earlierRun run⟩

theorem reachable_step {state next : State} {label : Label} {emitted : List Output}
    (reached : Reachable system state) (permitted : system.allowed state label)
    (stepped : system.step state label = some (next, emitted)) : Reachable system next :=
  reachable_of_path reached (path_single permitted stepped)

theorem path_preserves {property : State → Prop} (preserved : Preserved system property)
    {start final : State} {moves : List (Move State Label Output)}
    (run : Path system start moves final) (holds : property start) : property final := by
  induction run with
  | nil state => exact holds
  | cons permitted stepped _ ih => exact ih (preserved _ _ _ _ holds permitted stepped)

theorem invariant_of_preserved {property : State → Prop}
    (preserved : Preserved system property) (holds : property system.init)
    {state : State} (reached : Reachable system state) : property state := by
  obtain ⟨moves, run⟩ := reached
  exact path_preserves preserved run holds

/-- When one step keeps `good` exactly if `condition` held before it, a run
stays good throughout exactly if all its steps meet the condition. -/
theorem path_stays_iff {background good : State → Prop} {condition : State → Label → Prop}
    (preserved : Preserved system background)
    (exactly : ∀ state label next emitted, background state → good state →
      system.allowed state label → system.step state label = some (next, emitted) →
        (good next ↔ condition state label))
    {start final : State} {moves : List (Move State Label Output)}
    (run : Path system start moves final) (known : background start) (holds : good start) :
    (∀ move ∈ moves, good move.after) ↔
      ∀ move ∈ moves, condition move.before move.label := by
  induction run with
  | nil state => simp
  | @cons state next final label emitted moves permitted stepped rest ih =>
      have head := exactly state label next emitted known holds permitted stepped
      have known' := preserved state label next emitted known permitted stepped
      simp only [List.forall_mem_cons]
      constructor
      · intro allGood
        obtain ⟨now, later⟩ := allGood
        exact ⟨head.mp now, (ih known' now).mp later⟩
      · intro allMet
        obtain ⟨now, later⟩ := allMet
        have goodNext := head.mpr now
        exact ⟨goodNext, (ih known' goodNext).mpr later⟩

/-- What a queue is given comes out of it in the same order or is still in it,
when that is so of every step. -/
theorem path_conserves {held : State → List Output} {given : Label → List Output}
    (conserves : ∀ state label next emitted, system.allowed state label →
      system.step state label = some (next, emitted) →
        held state ++ given label = emitted ++ held next)
    {start final : State} {moves : List (Move State Label Output)}
    (run : Path system start moves final) :
    held start ++ moves.flatMap (fun move => given move.label) =
      moves.flatMap Move.emitted ++ held final := by
  induction run with
  | nil state => simp
  | @cons state next final label emitted moves permitted stepped rest ih =>
      have head := conserves state label next emitted permitted stepped
      rw [List.flatMap_cons, List.flatMap_cons, ← List.append_assoc, head, List.append_assoc,
        ih, List.append_assoc]

end Runs

/-! ## Sequences as runs -/

section Sequences
variable {State Other : Type u} {Label : Type v} {Output : Type w}

theorem sequence_append (act : Label → State → Option (State × List Output))
    (first second : List Label) (state : State) :
    sequence act (first ++ second) state =
      (sequence act first state).bind fun middle =>
        (sequence act second middle.1).map fun final => (final.1, middle.2 ++ final.2) := by
  induction first generalizing state with
  | nil => cases ran : sequence act second state <;> simp [sequence, ran]
  | cons label rest ih =>
      simp only [List.cons_append, sequence, Option.bind_eq_bind]
      cases stepped : act label state with
      | none => rfl
      | some next =>
          simp only [Option.bind_some, ih]
          cases ranFirst : sequence act rest next.1 with
          | none => rfl
          | some middle =>
              simp only [Option.bind_some]
              cases sequence act second middle.1 with
              | none => rfl
              | some final => simp

theorem sequence_map {Name : Type v} (act : Label → State → Option (State × List Output))
    (label : Name → Label) (names : List Name) (state : State) :
    sequence act (names.map label) state =
      sequence (fun name => act (label name)) names state := by
  induction names generalizing state with
  | nil => rfl
  | cons name rest ih => simp only [List.map_cons, sequence, ih]

/-- A machine that carries each step of another carries its sequences. -/
theorem sequence_project {act : Label → State → Option (State × List Output)}
    {other : Label → Other → Option (Other × List Output)} (project : State → Other)
    (square : ∀ label state,
      (act label state).map (Prod.map project id) = other label (project state))
    (labels : List Label) (state : State) :
    (sequence act labels state).map (Prod.map project id) =
      sequence other labels (project state) := by
  induction labels generalizing state with
  | nil => rfl
  | cons label rest ih =>
      simp only [sequence, Option.bind_eq_bind, ← square]
      cases act label state with
      | none => rfl
      | some next =>
          simp only [Option.bind_some, Option.map_some, Prod.map, ← ih, id]
          cases sequence act rest next.1 <;> rfl

/-- Each of the labels is allowed when its turn comes. -/
def Offered (system : System State Label Output) : List Label → State → Prop
  | [], _ => True
  | label :: rest, state => system.allowed state label ∧
      ∀ next emitted, system.step state label = some (next, emitted) →
        Offered system rest next

theorem offered_of_append {system : System State Label Output} {first second : List Label}
    {state : State} (offered : Offered system (first ++ second) state) :
    Offered system first state ∧ ∀ middle emitted,
      sequence (fun label state => system.step state label) first state =
        some (middle, emitted) → Offered system second middle := by
  induction first generalizing state with
  | nil =>
      refine ⟨trivial, ?_⟩
      intro middle emitted ran
      cases ran
      exact offered
  | cons label rest ih =>
      obtain ⟨permitted, later⟩ := offered
      refine ⟨⟨permitted, fun next emitted stepped => (ih (later next emitted stepped)).1⟩, ?_⟩
      intro middle emitted ran
      simp only [sequence, Option.bind_eq_bind] at ran
      obtain ⟨⟨next, first⟩, stepped, ran⟩ := Option.bind_eq_some_iff.mp ran
      obtain ⟨⟨last, outputs⟩, ranLater, same⟩ := Option.bind_eq_some_iff.mp ran
      obtain ⟨rfl, _⟩ := Prod.mk.inj (Option.some.inj same)
      exact (ih (later next first stepped)).2 last outputs ranLater

theorem path_of_sequence {system : System State Label Output} {labels : List Label}
    {state final : State} {emitted : List Output} (offered : Offered system labels state)
    (ran : sequence (fun label state => system.step state label) labels state =
      some (final, emitted)) :
    ∃ moves, Path system state moves final ∧ moves.map Move.label = labels ∧
      moves.flatMap Move.emitted = emitted := by
  induction labels generalizing state emitted with
  | nil =>
      cases ran
      exact ⟨[], Path.nil _, rfl, rfl⟩
  | cons label rest ih =>
      simp only [sequence, Option.bind_eq_bind] at ran
      obtain ⟨⟨next, first⟩, stepped, ran⟩ := Option.bind_eq_some_iff.mp ran
      obtain ⟨⟨last, later⟩, ranLater, same⟩ := Option.bind_eq_some_iff.mp ran
      obtain ⟨rfl, rfl⟩ := Prod.mk.inj (Option.some.inj same)
      obtain ⟨moves, run, labels, outputs⟩ := ih (offered.2 next first stepped) ranLater
      refine ⟨⟨state, label, first, next⟩ :: moves, Path.cons offered.1 stepped run, ?_, ?_⟩
      · rw [List.map_cons, labels]
      · rw [List.flatMap_cons, outputs]

theorem path_of_checked {system : System State Label Output}
    [∀ state label, Decidable (system.allowed state label)] {labels : List Label}
    {state final : State} {emitted : List Output}
    (ran : sequence (fun label state =>
      if system.allowed state label then system.step state label else none) labels state =
        some (final, emitted)) :
    ∃ moves, Path system state moves final ∧ moves.map Move.label = labels ∧
      moves.flatMap Move.emitted = emitted := by
  induction labels generalizing state emitted with
  | nil =>
      cases ran
      exact ⟨[], Path.nil _, rfl, rfl⟩
  | cons label rest ih =>
      simp only [sequence, Option.bind_eq_bind] at ran
      obtain ⟨⟨next, first⟩, stepped, ran⟩ := Option.bind_eq_some_iff.mp ran
      obtain ⟨⟨last, later⟩, ranLater, same⟩ := Option.bind_eq_some_iff.mp ran
      obtain ⟨rfl, rfl⟩ := Prod.mk.inj (Option.some.inj same)
      by_cases permitted : system.allowed state label
      · rw [if_pos permitted] at stepped
        obtain ⟨moves, run, labels, outputs⟩ := ih ranLater
        refine ⟨⟨state, label, first, next⟩ :: moves, Path.cons permitted stepped run, ?_, ?_⟩
        · rw [List.map_cons, labels]
        · rw [List.flatMap_cons, outputs]
      · rw [if_neg permitted] at stepped
        cases stepped

theorem sequence_defined {system : System State Label Output} {property : State → Prop}
    (preserved : Preserved system property)
    (defined : ∀ state label, property state → system.allowed state label →
      ∃ next emitted, system.step state label = some (next, emitted))
    {labels : List Label} {state : State} (holds : property state)
    (offered : Offered system labels state) :
    ∃ final emitted,
      sequence (fun label state => system.step state label) labels state =
        some (final, emitted) := by
  induction labels generalizing state with
  | nil => exact ⟨state, [], rfl⟩
  | cons label rest ih =>
      obtain ⟨next, first, stepped⟩ := defined state label holds offered.1
      have holdsNext := preserved state label next first holds offered.1 stepped
      obtain ⟨final, later, ran⟩ := ih holdsNext (offered.2 next first stepped)
      exact ⟨final, first ++ later, by simp [sequence, stepped, ran]⟩

/-- A run of a machine that may have several answers to a label. -/
inductive Trace (answers : State → Label → List Output → State → Prop) :
    State → List Label → List Output → State → Prop
  | nil (state : State) : Trace answers state [] [] state
  | cons {state next final : State} {label : Label} {labels : List Label}
      {emitted outputs : List Output} (answered : answers state label emitted next)
      (rest : Trace answers next labels outputs final) :
      Trace answers state (label :: labels) (emitted ++ outputs) final

/-- A machine whose every step is an answer of another one runs on, and its runs
are runs of the other. -/
theorem sequence_refines {act : Label → State → Option (State × List Output)}
    {answers : Other → Label → List Output → Other → Prop} {related : State → Other → Prop} :
    ∀ {labels : List Label} {state : State} {other : Other},
      (∀ label ∈ labels, ∀ state other, related state other → ∃ next emitted other',
        act label state = some (next, emitted) ∧ answers other label emitted other' ∧
          related next other') →
      related state other → ∃ final outputs other', sequence act labels state =
        some (final, outputs) ∧ Trace answers other labels outputs other' ∧
          related final other' := by
  intro labels
  induction labels with
  | nil =>
      intro state other _ relates
      exact ⟨state, [], other, rfl, .nil other, relates⟩
  | cons label rest ih =>
      intro state other square relates
      obtain ⟨next, emitted, middle, stepped, answered, relates⟩ :=
        square label List.mem_cons_self state other relates
      obtain ⟨final, outputs, other', ran, trace, relates⟩ :=
        ih (fun label later => square label (List.mem_cons_of_mem _ later)) relates
      refine ⟨final, emitted ++ outputs, other', ?_, .cons answered trace, relates⟩
      simp only [sequence, stepped, ran, Option.bind_eq_bind, Option.bind_some]

end Sequences

end BinanceNativeApp.Library.Transition
