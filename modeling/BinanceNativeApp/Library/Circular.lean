import Mathlib.Algebra.Ring.Nat
import Mathlib.Data.List.Rotate

/-!
# Counters that wrap

A counter of `w` bits stands for a number that keeps growing, modulo `2 ^ w`.
Two of them are compared by their difference: the order is that of the numbers
as long as they are less than half the range apart.  The places of a ring are
counted backwards from the last one, its tail.
-/

set_option autoImplicit false

namespace BinanceNativeApp.Library.Circular

universe u

/-! ## Words -/

/-- The counter that stands for `n`. -/
def word (w n : Nat) : Nat := n % 2 ^ w

def wrapAdd (w a b : Nat) : Nat := (a + b) % 2 ^ w

/-- The unsigned difference. -/
def wrapSub (w a b : Nat) : Nat := (a + (2 ^ w - b)) % 2 ^ w

def circularLessThan (w a b : Nat) : Bool := decide (2 ^ (w - 1) < wrapSub w a b)

theorem word_lt (w n : Nat) : word w n < 2 ^ w := Nat.mod_lt n (Nat.two_pow_pos w)

theorem word_of_lt {w n : Nat} (small : n < 2 ^ w) : word w n = n := Nat.mod_eq_of_lt small

theorem word_add_range (w n q : Nat) : word w (n + 2 ^ w * q) = word w n :=
  Nat.add_mul_mod_self_left n (2 ^ w) q

theorem wrapAdd_word (w n k : Nat) : wrapAdd w (word w n) k = word w (n + k) :=
  Nat.mod_add_mod n (2 ^ w) k

theorem wrapSub_ahead (w n d : Nat) : wrapSub w (word w (n + d)) (word w n) = word w d := by
  have below := word_lt w n
  have whole : 2 ^ w * (n / 2 ^ w) + word w n = n := Nat.div_add_mod n (2 ^ w)
  have sum : n + d + (2 ^ w - word w n) = d + 2 ^ w * (n / 2 ^ w + 1) := by
    rw [Nat.mul_add, Nat.mul_one]
    omega
  calc wrapSub w (word w (n + d)) (word w n)
      = word w (n + d + (2 ^ w - word w n)) := Nat.mod_add_mod _ _ _
    _ = word w d := by rw [sum, word_add_range]

theorem wrapSub_behind {w d : Nat} (n : Nat) (small : d ≤ 2 ^ w) :
    wrapSub w (word w n) (word w (n + d)) = word w (2 ^ w - d) := by
  have below := word_lt w (n + d)
  have whole : 2 ^ w * ((n + d) / 2 ^ w) + word w (n + d) = n + d := Nat.div_add_mod _ _
  have sum : n + (2 ^ w - word w (n + d)) = (2 ^ w - d) + 2 ^ w * ((n + d) / 2 ^ w) := by omega
  calc wrapSub w (word w n) (word w (n + d))
      = word w (n + (2 ^ w - word w (n + d))) := Nat.mod_add_mod _ _ _
    _ = word w (2 ^ w - d) := by rw [sum, word_add_range]

theorem half_range {w : Nat} (positive : 0 < w) : 2 ^ w = 2 * 2 ^ (w - 1) := by
  rw [← Nat.pow_succ']
  congr 1
  omega

/-- A counter is less than one that is ahead of it by less than half the range. -/
theorem circularLessThan_ahead {w d : Nat} (positive : 0 < w) (n : Nat) (small : d ≤ 2 ^ w) :
    circularLessThan w (word w n) (word w (n + d)) = true ↔ 0 < d ∧ d < 2 ^ (w - 1) := by
  have range := half_range positive
  have half := Nat.two_pow_pos (w - 1)
  rw [circularLessThan, decide_eq_true_iff, wrapSub_behind n small]
  rcases Nat.eq_zero_or_pos d with rfl | ahead
  · rw [Nat.sub_zero, word, Nat.mod_self]
    omega
  · rw [word_of_lt (by omega)]
    omega

theorem circularLessThan_behind {w d : Nat} (positive : 0 < w) (n : Nat)
    (small : d ≤ 2 ^ (w - 1)) : circularLessThan w (word w (n + d)) (word w n) = false := by
  have range := half_range positive
  have half := Nat.two_pow_pos (w - 1)
  rw [circularLessThan, decide_eq_false_iff_not, wrapSub_ahead, word_of_lt (by omega)]
  omega

theorem circularLessThan_of_lt {w a b : Nat} (positive : 0 < w) (first : a < 2 ^ (w - 1))
    (second : b < 2 ^ (w - 1)) : circularLessThan w a b = true ↔ a < b := by
  have half := half_range positive
  rcases Nat.le_total a b with ahead | behind
  · obtain ⟨d, rfl⟩ := Nat.exists_eq_add_of_le ahead
    have less := circularLessThan_ahead positive a (d := d) (by omega)
    rw [word_of_lt (by omega), word_of_lt (by omega)] at less
    rw [less]
    omega
  · obtain ⟨d, rfl⟩ := Nat.exists_eq_add_of_le behind
    have less := circularLessThan_behind positive b (d := d) (by omega)
    rw [word_of_lt (by omega), word_of_lt (by omega)] at less
    rw [less]
    refine iff_of_false Bool.false_ne_true ?_
    omega

theorem wrapSub_of_le {w a b : Nat} (order : b ≤ a) (small : a < 2 ^ w) :
    wrapSub w a b = a - b := by
  have difference := wrapSub_ahead w b (a - b)
  rw [Nat.add_sub_cancel' order, word_of_lt small, word_of_lt (by omega),
    word_of_lt (by omega)] at difference
  exact difference

theorem wrapAdd_of_lt {w a : Nat} (small : a + 1 < 2 ^ w) : wrapAdd w a 1 = a + 1 :=
  Nat.mod_eq_of_lt small

/-! ## Rings -/

/-- The place that comes `j` places before the tail. -/
def behind (capacity tail j : Nat) : Nat := (tail + (capacity - j)) % capacity

section Rings
variable {capacity tail : Nat}

theorem behind_lt (positive : 0 < capacity) (tail j : Nat) : behind capacity tail j < capacity :=
  Nat.mod_lt _ positive

theorem behind_zero (inside : tail < capacity) : behind capacity tail 0 = tail := by
  rw [behind, Nat.sub_zero, Nat.add_mod_right, Nat.mod_eq_of_lt inside]

theorem behind_succ {j : Nat} (inside : j < capacity) :
    behind capacity ((tail + 1) % capacity) (j + 1) = behind capacity tail j := by
  rw [behind, behind, Nat.mod_add_mod]
  congr 1
  omega

theorem behind_last (positive : 0 < capacity) :
    behind capacity tail (capacity - 1) = (tail + 1) % capacity := by
  rw [behind]
  congr 2
  omega

theorem behind_injective (inside : tail < capacity) {j k : Nat} (first : j < capacity)
    (second : k < capacity) (same : behind capacity tail j = behind capacity tail k) : j = k := by
  have place : ∀ {i : Nat}, i < capacity →
      behind capacity tail i = if i ≤ tail then tail - i else tail + capacity - i := by
    intro i below
    rw [behind]
    split
    · have sum : tail + (capacity - i) = tail - i + capacity := by omega
      rw [sum, Nat.add_mod_right, Nat.mod_eq_of_lt (by omega)]
    · rw [Nat.mod_eq_of_lt (by omega)]
      omega
  rw [place first, place second] at same
  split at same <;> split at same <;> omega

/-- What stands where when a ring is turned so that its tail comes last. -/
theorem rotate_behind {Element : Type u} {ring : List Element} (length : ring.length = capacity)
    {j : Nat} (inside : j < capacity) :
    (ring.rotate (tail + 1))[capacity - 1 - j]? = ring[behind capacity tail j]? := by
  have there : capacity - 1 - j < ring.length := by omega
  rw [List.getElem?_rotate there, behind, length]
  congr 2
  omega

end Rings

end BinanceNativeApp.Library.Circular
