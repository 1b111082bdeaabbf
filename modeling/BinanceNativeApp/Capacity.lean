import BinanceNativeApp.Buffer

/-!
# The capacity of a `buffer_struct`

`append` doubles what it needs.  The doubled size is representable for totals
below `2 ^ (w - 1)` only; from there on the capacity that `new` is asked for is
smaller than what is copied.  Whether that happens depends on where the
earlier growths have left the capacity.
-/

set_option autoImplicit false

namespace BinanceNativeApp.Capacity

open BinanceNativeApp.Library.Containers
open BinanceNativeApp.Buffer
open BinanceNativeApp.Buffer.BufferStruct

structure Call where
  available : Bool
  content : Bytes
  deriving DecidableEq

/-- No call leaves its blocks, and each that returns keeps the size within the
capacity.  Nothing catches what a call throws, so that it is the last one. -/
def Contained (w : Nat) : List Call → BufferStruct → Prop
  | [], _ => True
  | call :: rest, s =>
      ∃ returned next, append w call.available call.content s = some (returned, next) ∧
        (returned = true → next.size ≤ next.maxSize ∧ Contained w rest next)

/-- Each call that outgrows the capacity, and gets a new block, doubles to a
size of `w` bits. -/
def DoublesInRange (w : Nat) : List Call → Nat → Nat → Prop
  | [], _, _ => True
  | call :: rest, size, maxSize =>
      let requiredSize := size + call.content.length
      if requiredSize ≤ maxSize then
        DoublesInRange w rest requiredSize maxSize
      else
        call.available = true →
          requiredSize * 2 < 2 ^ w ∧ DoublesInRange w rest requiredSize (requiredSize * 2)

instance decidableDoublesInRange (w : Nat) :
    ∀ (calls : List Call) (size maxSize : Nat), Decidable (DoublesInRange w calls size maxSize)
  | [], _, _ => inferInstanceAs (Decidable True)
  | call :: rest, size, maxSize =>
      let requiredSize := size + call.content.length
      have _kept := decidableDoublesInRange w rest requiredSize maxSize
      have _grown := decidableDoublesInRange w rest requiredSize (requiredSize * 2)
      inferInstanceAs (Decidable (if requiredSize ≤ maxSize then _ else _))

def total (calls : List Call) : Nat := (calls.map fun call => call.content.length).sum

/-- A call returns with the content extended, is left by an exception, or
leaves its blocks; the condition tells the last case from the others. -/
theorem append_cases {w : Nat} {s : BufferStruct} {content : Bytes} (holds : Holds w s content)
    (call : Call) (rest : List Call)
    (representable : call.available = false → s.size + call.content.length < 2 ^ w) :
    (∃ next, append w call.available call.content s = some (true, next) ∧
      Holds w next (content ++ call.content) ∧
      (DoublesInRange w (call :: rest) s.size s.maxSize ↔
        DoublesInRange w rest next.size next.maxSize)) ∨
    (∃ left, append w call.available call.content s = some (false, left) ∧
      call.available = false ∧ DoublesInRange w (call :: rest) s.size s.maxSize) ∨
    append w call.available call.content s = none ∧
      ¬ DoublesInRange w (call :: rest) s.size s.maxSize := by
  rw [DoublesInRange]
  by_cases room : s.size + call.content.length ≤ s.maxSize
  · obtain ⟨next, appended, nextHolds, capacity⟩ := append_in_place holds call.available room
    refine .inl ⟨next, appended, nextHolds, ?_⟩
    rw [if_pos room, size_of_appended holds nextHolds, capacity]
  · rw [if_neg room]
    have grows : s.maxSize < s.size + call.content.length := by omega
    cases available : call.available with
    | false =>
        obtain ⟨left, thrown⟩ := append_unavailable grows (representable available)
        exact .inr (.inl ⟨left, thrown, rfl, fun gets => Bool.noConfusion gets⟩)
    | true =>
        by_cases doubles : (s.size + call.content.length) * 2 < 2 ^ w
        · obtain ⟨next, appended, nextHolds, capacity⟩ := append_grown holds grows doubles
          refine .inl ⟨next, appended, nextHolds, ?_⟩
          rw [size_of_appended holds nextHolds, capacity]
          exact ⟨fun both => (both rfl).2, fun later _ => ⟨doubles, later⟩⟩
        · have overflow := append_overflows holds grows (by omega)
          exact .inr (.inr ⟨overflow, fun both => doubles (both rfl).1⟩)

theorem contained_iff {w : Nat} {calls : List Call} {s : BufferStruct} {content : Bytes}
    (holds : Holds w s content) (representable : s.size + total calls < 2 ^ w) :
    Contained w calls s ↔ DoublesInRange w calls s.size s.maxSize := by
  induction calls generalizing s content with
  | nil => exact Iff.rfl
  | cons call rest ih =>
      have sum : total (call :: rest) = call.content.length + total rest := rfl
      rw [Contained]
      obtain ⟨next, returned, nextHolds, same⟩ | ⟨left, thrown, _, inRange⟩ | ⟨outside, fails⟩ :=
        append_cases holds call rest (by omega)
      · have size := size_of_appended holds nextHolds
        rw [same, ← ih nextHolds (by omega), returned]
        constructor
        · intro contained
          obtain ⟨_, _, equal, kept⟩ := contained
          obtain ⟨rfl, rfl⟩ := Prod.mk.inj (Option.some.inj equal)
          exact (kept rfl).2
        · intro contained
          exact ⟨true, next, rfl, fun _ => ⟨nextHolds.filled, contained⟩⟩
      · refine iff_of_true ⟨false, left, thrown, ?_⟩ inRange
        intro returned
        cases returned
      · refine iff_of_false ?_ fails
        intro contained
        obtain ⟨_, _, ran, _⟩ := contained
        rw [outside] at ran
        cases ran

theorem appends_contained_iff (w : Nat) {calls : List Call}
    (representable : total calls < 2 ^ w) :
    Contained w calls BufferStruct.default ↔ DoublesInRange w calls 0 0 :=
  contained_iff (default_holds w) (by simpa [BufferStruct.default] using representable)

theorem appends_contained_iff_twoChunks :
    Contained 8 [⟨true, List.replicate 100 0⟩, ⟨true, List.replicate 90 0⟩]
        BufferStruct.default ↔
      DoublesInRange 8 [⟨true, List.replicate 100 0⟩, ⟨true, List.replicate 90 0⟩] 0 0 :=
  appends_contained_iff 8 (by decide)

/-- With 32 bits, the capacity for two GiB is zero. -/
theorem twoGib_not_contained :
    total [⟨true, List.replicate (2 ^ 31) 0⟩] < 2 ^ 32 ∧
      ¬ Contained 32 [⟨true, List.replicate (2 ^ 31) 0⟩] BufferStruct.default := by
  have length : (List.replicate (2 ^ 31) (0 : UInt8)).length = 2 ^ 31 := List.length_replicate
  refine ⟨?_, ?_⟩
  · simp only [total, List.map_cons, List.map_nil, List.sum_cons, List.sum_nil, length]
    decide
  · intro contained
    obtain ⟨_, _, ran, _⟩ := contained
    have overflow : append 32 true (List.replicate (2 ^ 31) 0) BufferStruct.default = none := by
      apply append_overflows (default_holds 32)
      · rw [length]
        decide
      · rw [length]
        decide
    rw [overflow] at ran
    cases ran

end BinanceNativeApp.Capacity
