import Mathlib.Algebra.Ring.Nat
import BinanceNativeApp.Library.Containers
import BinanceNativeApp.Library.Memory

/-!
# `buffer_struct`

The sizes are numbers of `w` bits, and both sums and the doubling in `append`
are taken modulo `2 ^ w`.  `available` says whether the `new` of an append
succeeds; when it throws, `max_size_` has its new value and the block is still
the old one.  A function answers `none` where a `memcpy` would leave one of its
blocks.
-/

set_option autoImplicit false

namespace BinanceNativeApp.Buffer

open BinanceNativeApp.Library.Containers
open BinanceNativeApp.Library.Memory

/-- `data` is the block that the pointer leads to, and no byte at all when the
pointer is null. -/
structure BufferStruct where
  data : Block UInt8
  size : Nat
  maxSize : Nat
  deriving DecidableEq

namespace BufferStruct

def default : BufferStruct := ⟨[], 0, 0⟩

def reallocate (w : Nat) (available : Bool) (requiredSize : Nat) (s : BufferStruct) :
    Option (Bool × BufferStruct) :=
  let s := { s with maxSize := requiredSize * 2 % 2 ^ w }
  if available then do
    let b ← memcpy (allocate s.maxSize) 0 (← read s.data s.size)
    some (true, { s with data := b })
  else
    some (false, s)

/-- Answers with false when the call was left by an exception. -/
def append (w : Nat) (available : Bool) (content : Bytes) (s : BufferStruct) :
    Option (Bool × BufferStruct) := do
  let requiredSize := (s.size + content.length) % 2 ^ w
  let (allocated, s) ←
    if s.maxSize < requiredSize then reallocate w available requiredSize s else some (true, s)
  if allocated then
    let data ← memcpy s.data s.size (content.map some)
    some (true, { s with data := data, size := (s.size + content.length) % 2 ^ w })
  else
    some (false, s)

def copy (other : BufferStruct) : Option BufferStruct := do
  let data ← memcpy (allocate other.maxSize) 0 (← read other.data other.size)
  some ⟨data, other.size, other.maxSize⟩

/-! ## What a buffer holds -/

structure Holds (w : Nat) (s : BufferStruct) (content : Bytes) : Prop where
  data : Starts s.data content
  size : s.size = content.length
  block : s.data.length = s.maxSize
  filled : s.size ≤ s.maxSize
  representable : s.maxSize < 2 ^ w

theorem default_holds (w : Nat) : Holds w default [] :=
  ⟨starts_nil _, rfl, rfl, Nat.le_refl 0, Nat.two_pow_pos w⟩

variable {w : Nat} {s : BufferStruct} {content : Bytes}

theorem holds_unique {other : Bytes} (holds : Holds w s content)
    (otherHolds : Holds w s other) : content = other := by
  have length : (content.map some).length = (other.map some).length := by
    rw [List.length_map, List.length_map, ← holds.size, otherHolds.size]
  have starts : content.map some <+: other.map some :=
    List.prefix_of_prefix_length_le holds.data otherHolds.data length.le
  have injective : Function.Injective (some : UInt8 → Option UInt8) :=
    fun _ _ same => Option.some.inj same
  exact List.map_injective_iff.mpr injective (starts.eq_of_length length)

theorem size_of_appended {next : BufferStruct} {added : Bytes} (holds : Holds w s content)
    (nextHolds : Holds w next (content ++ added)) : next.size = s.size + added.length := by
  rw [nextHolds.size, List.length_append, holds.size]

theorem append_in_place (holds : Holds w s content) (available : Bool) {added : Bytes}
    (room : s.size + added.length ≤ s.maxSize) :
    ∃ next, append w available added s = some (true, next) ∧
      Holds w next (content ++ added) ∧ next.maxSize = s.maxSize := by
  obtain ⟨data, size, block, filled, representable⟩ := holds
  have exact' : (s.size + added.length) % 2 ^ w = s.size + added.length :=
    Nat.mod_eq_of_lt (by omega)
  obtain ⟨next, copied, starts, length⟩ := memcpy_behind data added (by omega)
  rw [← size] at copied
  refine ⟨{ s with data := next, size := s.size + added.length }, ?_, ?_, rfl⟩
  · have kept : ¬ s.maxSize < s.size + added.length := by omega
    simp only [append, exact', if_neg kept, Option.bind_eq_bind, Option.bind_some, if_true,
      copied]
  · refine ⟨starts, ?_, ?_, room, representable⟩
    · rw [List.length_append, size]
    · rw [length, block]

theorem reallocate_holds (holds : Holds w s content) {requiredSize : Nat}
    (exact' : requiredSize * 2 < 2 ^ w) (larger : s.maxSize < requiredSize) :
    ∃ next, reallocate w true requiredSize s = some (true, next) ∧ Holds w next content ∧
      next.maxSize = requiredSize * 2 := by
  obtain ⟨data, size, block, filled, representable⟩ := holds
  have doubled : requiredSize * 2 % 2 ^ w = requiredSize * 2 := Nat.mod_eq_of_lt exact'
  have fits : ([] : Bytes).length + content.length ≤
      (allocate (requiredSize * 2) : Block UInt8).length := by
    rw [length_allocate, List.length_nil]
    omega
  obtain ⟨next, copied, starts, length⟩ := memcpy_behind (starts_nil _) content fits
  rw [length_allocate] at length
  refine ⟨{ s with data := next, maxSize := requiredSize * 2 }, ?_, ?_, rfl⟩
  · have taken : read s.data s.size = some (content.map some) := by
      rw [size]
      exact read_of_starts data
    rw [List.length_nil] at copied
    simp only [reallocate, doubled, if_true, taken, Option.bind_eq_bind, Option.bind_some, copied]
  · refine ⟨starts, size, length, ?_, exact'⟩
    show s.size ≤ requiredSize * 2
    omega

theorem append_grown (holds : Holds w s content) {added : Bytes}
    (grows : s.maxSize < s.size + added.length)
    (doubles : (s.size + added.length) * 2 < 2 ^ w) :
    ∃ next, append w true added s = some (true, next) ∧ Holds w next (content ++ added) ∧
      next.maxSize = (s.size + added.length) * 2 := by
  obtain ⟨grown, reallocated, grownHolds, capacity⟩ := reallocate_holds holds doubles grows
  have sameSize : grown.size = s.size := by rw [grownHolds.size, holds.size]
  have room : grown.size + added.length ≤ grown.maxSize := by omega
  obtain ⟨next, appended, nextHolds, kept⟩ := append_in_place grownHolds true room
  refine ⟨next, ?_, nextHolds, kept.trans capacity⟩
  have exact' : (s.size + added.length) % 2 ^ w = s.size + added.length :=
    Nat.mod_eq_of_lt (by omega)
  rw [← appended]
  simp only [append, sameSize, exact', if_pos grows, reallocated, Option.bind_eq_bind,
    Option.bind_some, if_neg (show ¬ grown.maxSize < s.size + added.length by omega)]

/-- Once the doubling leaves the range of `size_t`, the new block is smaller
than what has to go into it. -/
theorem append_overflows (holds : Holds w s content) {added : Bytes}
    (grows : s.maxSize < s.size + added.length)
    (wraps : 2 ^ w ≤ (s.size + added.length) * 2) : append w true added s = none := by
  obtain ⟨data, size, block, filled, representable⟩ := holds
  have small : (s.size + added.length) % 2 ^ w * 2 % 2 ^ w < s.size + added.length := by
    by_cases exact' : s.size + added.length < 2 ^ w
    · rw [Nat.mod_eq_of_lt exact', Nat.mod_eq_sub_mod wraps]
      have bound := Nat.mod_le ((s.size + added.length) * 2 - 2 ^ w) (2 ^ w)
      omega
    · have bound := Nat.mod_lt ((s.size + added.length) % 2 ^ w * 2) (Nat.two_pow_pos w)
      omega
  cases ran : append w true added s with
  | none => rfl
  | some result =>
      simp only [append, Option.bind_eq_bind] at ran
      split at ran
      · obtain ⟨grown, reallocated, ran⟩ := Option.bind_eq_some_iff.mp ran
        simp only [reallocate, if_true, Option.bind_eq_bind] at reallocated
        obtain ⟨taken, _, reallocated⟩ := Option.bind_eq_some_iff.mp reallocated
        obtain ⟨b, copied, same⟩ := Option.bind_eq_some_iff.mp reallocated
        obtain ⟨_, length⟩ := memcpy_inBounds copied
        simp only [← Option.some.inj same, if_true] at ran
        obtain ⟨_, written, _⟩ := Option.bind_eq_some_iff.mp ran
        have outside := (memcpy_inBounds written).1
        rw [List.length_map, length, length_allocate] at outside
        exact absurd outside (by omega)
      · simp only [Option.bind_some, if_true] at ran
        obtain ⟨_, written, _⟩ := Option.bind_eq_some_iff.mp ran
        have outside := (memcpy_inBounds written).1
        rw [List.length_map] at outside
        exact absurd outside (by omega)

theorem append_unavailable {added : Bytes} (grows : s.maxSize < s.size + added.length)
    (exact' : s.size + added.length < 2 ^ w) :
    ∃ left, append w false added s = some (false, left) := by
  simp only [append, Nat.mod_eq_of_lt exact', if_pos grows, reallocate, Bool.false_eq_true,
    if_false, Option.bind_eq_bind, Option.bind_some]
  exact ⟨_, rfl⟩

theorem copy_holds (holds : Holds w s content) :
    ∃ next, copy s = some next ∧ Holds w next content ∧ next.maxSize = s.maxSize := by
  obtain ⟨data, size, block, filled, representable⟩ := holds
  have fits : ([] : Bytes).length + content.length ≤
      (allocate s.maxSize : Block UInt8).length := by
    rw [length_allocate, List.length_nil]
    omega
  obtain ⟨next, copied, starts, length⟩ := memcpy_behind (starts_nil _) content fits
  rw [length_allocate] at length
  refine ⟨⟨next, s.size, s.maxSize⟩, ?_, ⟨starts, size, length, filled, representable⟩, rfl⟩
  have taken : read s.data s.size = some (content.map some) := by
    rw [size]
    exact read_of_starts data
  rw [List.length_nil] at copied
  simp only [copy, taken, Option.bind_eq_bind, Option.bind_some, copied]

end BufferStruct

end BinanceNativeApp.Buffer
