import Mathlib.Logic.Function.Basic
import Mathlib.Data.List.TakeWhile

/-!
# Containers of the C++ standard library

`UnorderedMap` keeps what a program can observe of a `std::unordered_map` it
never iterates over: the value each key is bound to.  `subscript` is
`operator[]`, which binds a missing key to the value-initialised element
before it answers.  `StringView` is a pointer and a length; the characters
after the view are part of it because `data()` hands out the bare pointer, and
a C function that receives it reads on to the first NUL.
-/

set_option autoImplicit false

namespace BinanceNativeApp.Library.Containers

universe u v

/-! ## `std::unordered_map` -/

@[ext] structure UnorderedMap (Key : Type u) (Value : Type v) where
  find : Key → Option Value

namespace UnorderedMap
variable {Key : Type u} {Value : Type v}

def empty : UnorderedMap Key Value := ⟨fun _ => none⟩

theorem find_empty (key : Key) : (empty : UnorderedMap Key Value).find key = none := rfl

variable [DecidableEq Key]

def assign (map : UnorderedMap Key Value) (key : Key) (value : Value) :
    UnorderedMap Key Value :=
  ⟨Function.update map.find key (some value)⟩

def erase (map : UnorderedMap Key Value) (key : Key) : UnorderedMap Key Value :=
  ⟨Function.update map.find key none⟩

def subscript (map : UnorderedMap Key Value) (key : Key) (initial : Value) :
    Value × UnorderedMap Key Value :=
  match map.find key with
  | some value => (value, map)
  | none => (initial, map.assign key initial)

/-- `emplace` leaves the map alone when the key is bound already. -/
def emplace (map : UnorderedMap Key Value) (key : Key) (value : Value) :
    UnorderedMap Key Value :=
  match map.find key with
  | some _ => map
  | none => map.assign key value

@[simp] theorem find_assign_self (map : UnorderedMap Key Value) (key : Key) (value : Value) :
    (map.assign key value).find key = some value := by
  simp [assign]

theorem find_assign_of_ne (map : UnorderedMap Key Value) {key other : Key} (value : Value)
    (different : other ≠ key) : (map.assign key value).find other = map.find other := by
  simp [assign, different]

@[simp] theorem find_erase_self (map : UnorderedMap Key Value) (key : Key) :
    (map.erase key).find key = none := by
  simp [erase]

theorem find_erase_of_ne (map : UnorderedMap Key Value) {key other : Key}
    (different : other ≠ key) : (map.erase key).find other = map.find other := by
  simp [erase, different]

theorem subscript_value (map : UnorderedMap Key Value) (key : Key) (initial : Value) :
    (map.subscript key initial).1 = (map.find key).getD initial := by
  cases found : map.find key <;> simp [subscript, found]

theorem subscript_of_find {map : UnorderedMap Key Value} {key : Key} {value : Value}
    (initial : Value) (found : map.find key = some value) :
    map.subscript key initial = (value, map) := by
  simp [subscript, found]

theorem find_emplace (map : UnorderedMap Key Value) (key : Key) (value : Value) (other : Key) :
    (map.emplace key value).find other =
      (map.find other).or (if key = other then some value else none) := by
  by_cases same : key = other
  · subst same
    cases found : map.find key <;> simp [emplace, found]
  · cases found : map.find key with
    | some earlier => simp [emplace, found, same]
    | none => simp [emplace, found, same, find_assign_of_ne map value (Ne.symm same)]

/-- The element that `operator[]` may have inserted does not survive an
`erase` of the same key. -/
theorem erase_subscript (map : UnorderedMap Key Value) (key : Key) (initial : Value) :
    (map.subscript key initial).2.erase key = map.erase key := by
  cases found : map.find key <;> simp [subscript, found, assign, erase]

end UnorderedMap

/-! ## Objects reached through a pointer -/

/-- Every object has a pointer of its own, `next` being that of the object
created next; a destroyed object leaves its pointer dangling. -/
structure Objects (Value : Type v) where
  next : Nat
  cells : UnorderedMap Nat Value

namespace Objects
variable {Value : Type v}

def empty : Objects Value := ⟨0, UnorderedMap.empty⟩

def create (objects : Objects Value) (value : Value) : Nat × Objects Value :=
  (objects.next, ⟨objects.next + 1, objects.cells.assign objects.next value⟩)

def read (objects : Objects Value) (pointer : Nat) : Option Value := objects.cells.find pointer

def modify (objects : Objects Value) (pointer : Nat) (change : Value → Value) :
    Option (Objects Value) :=
  match objects.read pointer with
  | some value => some { objects with cells := objects.cells.assign pointer (change value) }
  | none => none

def destroy (objects : Objects Value) (pointer : Nat) : Objects Value :=
  { objects with cells := objects.cells.erase pointer }

theorem read_create_self (objects : Objects Value) (value : Value) :
    (objects.create value).2.read objects.next = some value :=
  UnorderedMap.find_assign_self _ _ _

theorem read_create_of_ne (objects : Objects Value) (value : Value) {pointer : Nat}
    (different : pointer ≠ objects.next) :
    (objects.create value).2.read pointer = objects.read pointer :=
  UnorderedMap.find_assign_of_ne _ _ different

theorem read_destroy_self (objects : Objects Value) (pointer : Nat) :
    (objects.destroy pointer).read pointer = none :=
  UnorderedMap.find_erase_self _ _

theorem read_destroy_of_ne (objects : Objects Value) {pointer other : Nat}
    (different : other ≠ pointer) : (objects.destroy pointer).read other = objects.read other :=
  UnorderedMap.find_erase_of_ne _ different

theorem modify_of_read {objects : Objects Value} {pointer : Nat} {value : Value}
    (change : Value → Value) (found : objects.read pointer = some value) :
    ∃ after, objects.modify pointer change = some after ∧
      after.read pointer = some (change value) ∧
      ∀ other, other ≠ pointer → after.read other = objects.read other := by
  refine ⟨{ objects with cells := objects.cells.assign pointer (change value) },
    by rw [modify, found], UnorderedMap.find_assign_self _ _ _, ?_⟩
  intro other different
  exact UnorderedMap.find_assign_of_ne _ _ different

end Objects

/-! ## Character strings -/

abbrev Bytes := List UInt8

def literal (text : String) : Bytes := text.toList.map fun character => character.toNat.toUInt8

/-- What a C function reads from a pointer to these characters. -/
def cString (characters : Bytes) : Bytes := characters.takeWhile (· ≠ 0)

theorem cString_eq_self {characters : Bytes} (clean : 0 ∉ characters) :
    cString characters = characters := by
  rw [cString, List.takeWhile_eq_self_iff]
  intro character member
  have different : character ≠ 0 := fun same => clean (same ▸ member)
  simpa using different

/-- `memory` are the bytes from the pointer on, at least as far as a C function
reads them; a NUL follows. -/
structure StringView where
  memory : Bytes
  length : Nat
  inBounds : length ≤ memory.length
  deriving DecidableEq

namespace StringView

def bytes (view : StringView) : Bytes := view.memory.take view.length

/-- `data()` read as a C string. -/
def dataString (view : StringView) : Bytes := cString view.memory

/-- The view of a `std::string`, whose characters are followed by a NUL. -/
def ofString (characters : Bytes) : StringView :=
  ⟨characters ++ [0], characters.length, by simp⟩

theorem dataString_ofString (characters : Bytes) :
    (ofString characters).dataString = cString characters := by
  simp only [dataString, ofString, cString]
  rw [List.takeWhile_append]
  split
  · rename_i whole
    have same := (List.takeWhile_prefix (fun c : UInt8 => decide (c ≠ 0))
      (l := characters)).eq_of_length whole
    rw [same]
    simp
  · rfl

def Terminated (view : StringView) : Prop := view.memory.getD view.length 0 = 0

theorem terminated_ofString (characters : Bytes) : (ofString characters).Terminated := by
  simp [Terminated, ofString]

theorem bytes_ofString (characters : Bytes) : (ofString characters).bytes = characters := by
  simp [bytes, ofString]

theorem dataString_of_terminated {view : StringView} (terminated : view.Terminated)
    (clean : 0 ∉ view.bytes) : view.dataString = view.bytes := by
  have visible := cString_eq_self clean
  have split : view.memory = view.bytes ++ view.memory.drop view.length :=
    (List.take_append_drop view.length view.memory).symm
  rw [dataString, split, cString, List.takeWhile_append, ← cString, visible, if_pos rfl]
  cases behind : view.memory.drop view.length with
  | nil => simp
  | cons first rest =>
      have head : view.memory.getD view.length 0 = first := by
        have := congrArg List.head? behind
        rw [List.head?_drop, List.head?_cons] at this
        rw [List.getD_eq_getElem?_getD, this, Option.getD_some]
      rw [Terminated, head] at terminated
      simp [terminated]

end StringView

end BinanceNativeApp.Library.Containers
