import Mathlib.Data.List.Basic
import Mathlib.Logic.Function.Iterate

/-!
# Loops that wait

A while loop takes one input for each round and is over when its test fails;
with a list of inputs that ends before that, there is no result yet.  A loop
that waits makes progress only in the rounds whose input is `ready`.  What
matters of its state, the `core`, then runs through the iterates of one
function, and how long it takes is a matter of counting.
-/

set_option autoImplicit false

namespace BinanceNativeApp.Library.Loops

universe u v w

section Loops
variable {Input : Type u} {State : Type v} {test : State → Bool} {body : Input → State → State}

def whileLoop (test : State → Bool) (body : Input → State → State) :
    List Input → State → Option State
  | [], state => if test state then none else some state
  | input :: rest, state =>
      if test state then whileLoop test body rest (body input state) else some state

theorem whileLoop_of_test {state : State} (inputs : List Input) (exited : test state = false) :
    whileLoop test body inputs state = some state := by
  cases inputs with
  | nil => simp [whileLoop, exited]
  | cons input rest => simp [whileLoop, exited]

theorem whileLoop_keeps (property : State → Prop)
    (kept : ∀ input state, test state = true → property state → property (body input state))
    {inputs : List Input} {state final : State} (holds : property state)
    (returned : whileLoop test body inputs state = some final) :
    property final ∧ test final = false := by
  induction inputs generalizing state with
  | nil =>
      rw [whileLoop] at returned
      split at returned
      · cases returned
      · rename_i exited
        cases returned
        exact ⟨holds, Bool.eq_false_iff.mpr exited⟩
  | cons input rest ih =>
      rw [whileLoop] at returned
      split at returned
      · rename_i more
        exact ih (kept input state more holds) returned
      · rename_i exited
        cases returned
        exact ⟨holds, Bool.eq_false_iff.mpr exited⟩

end Loops

section Waiting
variable {Input : Type u} {State : Type v} {Core : Type w}

/-- Progress is made by `advance`, in the rounds that are ready. -/
structure Waits (test : State → Bool) (body : Input → State → State) (core : State → Core)
    (going : Core → Bool) (advance : Core → Core) (ready : Input → Bool) : Prop where
  test : ∀ state, test state = going (core state)
  body : ∀ input state,
    core (body input state) = if ready input then advance (core state) else core state

variable {test : State → Bool} {body : Input → State → State} {core : State → Core}
  {going : Core → Bool} {advance : Core → Core} {ready : Input → Bool}

/-- The result is the first iterate at which the loop does not go on. -/
theorem result_of_waits (waits : Waits test body core going advance ready)
    {inputs : List Input} {state final : State}
    (returned : whileLoop test body inputs state = some final) :
    ∃ n ≤ inputs.countP ready, core final = advance^[n] (core state) ∧
      going (core final) = false ∧ ∀ m < n, going (advance^[m] (core state)) = true := by
  induction inputs generalizing state with
  | nil =>
      rw [whileLoop] at returned
      split at returned
      · cases returned
      · rename_i exited
        cases returned
        rw [waits.test, Bool.not_eq_true] at exited
        exact ⟨0, Nat.zero_le _, rfl, exited, by omega⟩
  | cons input rest ih =>
      rw [whileLoop, waits.test] at returned
      split at returned
      · rename_i more
        obtain ⟨n, counted, same, exited, before⟩ := ih returned
        rw [waits.body] at same before
        by_cases moves : ready input = true
        · rw [if_pos moves] at same before
          refine ⟨n + 1, ?_, same, exited, ?_⟩
          · rw [List.countP_cons_of_pos moves]
            omega
          · intro m earlier
            cases m with
            | zero => exact more
            | succ m => exact before m (by omega)
        · rw [if_neg moves] at same before
          refine ⟨n, ?_, same, exited, before⟩
          rw [List.countP_cons_of_neg moves]
          exact counted
      · rename_i exited
        cases returned
        rw [Bool.not_eq_true] at exited
        exact ⟨0, Nat.zero_le _, rfl, exited, by omega⟩

/-- The loop returns if and only if there are as many ready rounds as it needs
to advance. -/
theorem returns_iff_of_waits (waits : Waits test body core going advance ready)
    (inputs : List Input) (state : State) :
    (∃ final, whileLoop test body inputs state = some final) ↔
      ∃ n ≤ inputs.countP ready, going (advance^[n] (core state)) = false := by
  constructor
  · intro returns
    obtain ⟨final, returned⟩ := returns
    obtain ⟨n, counted, same, exited, _⟩ := result_of_waits waits returned
    rw [same] at exited
    exact ⟨n, counted, exited⟩
  · intro enough
    obtain ⟨n, counted, exited⟩ := enough
    induction inputs generalizing state n with
    | nil =>
        have none : n = 0 := Nat.le_zero.mp counted
        subst none
        have stops : test state = false := (waits.test state).trans exited
        exact ⟨state, whileLoop_of_test [] stops⟩
    | cons input rest ih =>
        cases more : test state with
        | false => exact ⟨state, whileLoop_of_test _ more⟩
        | true =>
            rw [whileLoop, if_pos more]
            have start : going (core state) = true := by rw [← waits.test, more]
            by_cases moves : ready input = true
            · cases n with
              | zero =>
                  rw [Function.iterate_zero_apply, start] at exited
                  cases exited
              | succ n =>
                  apply ih (body input state) n
                  · rw [List.countP_cons_of_pos moves] at counted
                    omega
                  · rw [waits.body, if_pos moves]
                    exact exited
            · apply ih (body input state) n
              · rwa [List.countP_cons_of_neg moves] at counted
              · rw [waits.body, if_neg moves]
                exact exited

end Waiting

end BinanceNativeApp.Library.Loops
