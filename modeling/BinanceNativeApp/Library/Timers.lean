import Mathlib.Data.List.Basic

/-!
# Timers that are polled

A timer is polled with one reading after the other.  It fires when `due` says
so of the reading at which it last fired, or of the start, and the new one.
What is wanted of it may be put in other terms, those of `elapsed`: that it
never misses a reading, and that it does not fire too soon after it has fired.
-/

set_option autoImplicit false

namespace BinanceNativeApp.Library.Timers

universe u

section Timers
variable {Reading : Type u}

def polled (due : Reading → Reading → Bool) : Reading → List Reading → List (Reading × Bool)
  | _, [] => []
  | since, now :: rest =>
      (now, due since now) :: polled due (if due since now then now else since) rest

/-- The reading of the last firing, `last` when there is none among these. -/
def lastFired (last : Option Reading) (observed : List (Reading × Bool)) : Option Reading :=
  observed.foldl (fun last one => if one.2 then some one.1 else last) last

def Punctual (elapsed : Reading → Reading → Prop) (start : Reading) (last : Option Reading)
    (one : Reading × Bool) : Prop :=
  (elapsed (last.getD start) one.1 → one.2 = true) ∧
    (one.2 = true → ∀ since, last = some since → elapsed since one.1)

/-- It fires wherever the time since the last firing, or since the start, has
elapsed, and from one firing to the next that time elapses. -/
def KeepsTime (elapsed : Reading → Reading → Prop) (start : Reading) (last : Option Reading)
    (observed : List (Reading × Bool)) : Prop :=
  ∀ earlier one later, observed = earlier ++ one :: later →
    Punctual elapsed start (lastFired last earlier) one

/-- Along these readings `due` goes with `elapsed`, wherever it is asked.
Before the first firing it may be due too soon. -/
def Agrees (due : Reading → Reading → Bool) (elapsed : Reading → Reading → Prop)
    (start : Reading) : Option Reading → List Reading → Prop
  | _, [] => True
  | last, now :: rest =>
      (elapsed (last.getD start) now → due (last.getD start) now = true) ∧
      (∀ since, last = some since → due since now = true → elapsed since now) ∧
      Agrees due elapsed start (if due (last.getD start) now then some now else last) rest

variable {due : Reading → Reading → Bool} {elapsed : Reading → Reading → Prop} {start : Reading}

theorem keepsTime_nil (last : Option Reading) : KeepsTime elapsed start last [] := by
  intro earlier one later split
  cases earlier <;> cases split

theorem keepsTime_cons (last : Option Reading) (one : Reading × Bool)
    (rest : List (Reading × Bool)) :
    KeepsTime elapsed start last (one :: rest) ↔
      Punctual elapsed start last one ∧
        KeepsTime elapsed start (if one.2 then some one.1 else last) rest := by
  constructor
  · intro keeps
    refine ⟨keeps [] one rest rfl, ?_⟩
    intro earlier other later split
    exact keeps (one :: earlier) other later (by rw [split, List.cons_append])
  · intro both earlier other later split
    obtain ⟨now, keeps⟩ := both
    cases earlier with
    | nil =>
        obtain ⟨rfl, _⟩ := List.cons.inj split
        exact now
    | cons first earlier =>
        obtain ⟨rfl, remaining⟩ := List.cons.inj split
        exact keeps earlier other later remaining

theorem keepsTime_polled_iff (last : Option Reading) (readings : List Reading) :
    KeepsTime elapsed start last (polled due (last.getD start) readings) ↔
      Agrees due elapsed start last readings := by
  induction readings generalizing last with
  | nil => exact iff_of_true (keepsTime_nil last) trivial
  | cons now rest ih =>
      have next : (if due (last.getD start) now then now else last.getD start) =
          (if due (last.getD start) now then some now else last).getD start := by
        split <;> rfl
      have first : (due (last.getD start) now = true →
            ∀ since, last = some since → elapsed since now) ↔
          ∀ since, last = some since → due since now = true → elapsed since now := by
        cases last with
        | none => simp
        | some since => simp
      rw [polled, keepsTime_cons, next, ih, Punctual, Agrees, first, and_assoc]

theorem agrees_of_same (met : Reading → Prop)
    (same : ∀ since now, met since → met now → (due since now = true ↔ elapsed since now))
    (atStart : met start) {last : Option Reading} (fired : ∀ since, last = some since → met since)
    {readings : List Reading} (read : ∀ now ∈ readings, met now) :
    Agrees due elapsed start last readings := by
  induction readings generalizing last with
  | nil => trivial
  | cons now rest ih =>
      obtain ⟨here, later⟩ := List.forall_mem_cons.mp read
      have since : met (last.getD start) := by
        cases last with
        | none => exact atStart
        | some since => exact fired since rfl
      refine ⟨(same _ now since here).mpr, ?_, ih ?_ later⟩
      · intro since firedThere
        exact (same since now (fired since firedThere) here).mp
      · intro other firedThere
        split at firedThere
        · cases firedThere
          exact here
        · exact fired other firedThere

end Timers

end BinanceNativeApp.Library.Timers
