import Mathlib.Data.List.Basic

/-!
# Blocks of memory

A block is as long as it was allocated, and an element that was never written
has no value.  Copying is defined inside the blocks only: `read` and `memcpy`
answer nothing when they would leave them.
-/

set_option autoImplicit false

namespace BinanceNativeApp.Library.Memory

universe u

abbrev Block (Element : Type u) : Type u := List (Option Element)

variable {Element : Type u}

def allocate (size : Nat) : Block Element := List.replicate size none

def read (source : Block Element) (count : Nat) : Option (Block Element) :=
  if count ≤ source.length then some (source.take count) else none

def memcpy (destination : Block Element) (offset : Nat) (source : Block Element) :
    Option (Block Element) :=
  if offset + source.length ≤ destination.length then
    some (destination.take offset ++ source ++ destination.drop (offset + source.length))
  else none

def Starts (block : Block Element) (content : List Element) : Prop :=
  content.map some <+: block

theorem starts_nil (block : Block Element) : Starts block [] := List.nil_prefix

theorem starts_length {block : Block Element} {content : List Element}
    (starts : Starts block content) : content.length ≤ block.length := by
  simpa using starts.length_le

theorem read_of_starts {block : Block Element} {content : List Element}
    (starts : Starts block content) : read block content.length = some (content.map some) := by
  rw [read, if_pos (starts_length starts)]
  obtain ⟨rest, rfl⟩ := starts
  have length : content.length = (content.map some).length := (List.length_map _).symm
  rw [length, List.take_left]

theorem memcpy_behind {block : Block Element} {content : List Element}
    (starts : Starts block content) (added : List Element)
    (room : content.length + added.length ≤ block.length) :
    ∃ next, memcpy block content.length (added.map some) = some next ∧
      Starts next (content ++ added) ∧ next.length = block.length := by
  have inBounds : content.length + (added.map some).length ≤ block.length := by
    rw [List.length_map]
    exact room
  refine ⟨_, if_pos inBounds, ?_, ?_⟩
  · obtain ⟨rest, rfl⟩ := starts
    have length : content.length = (content.map some).length := (List.length_map _).symm
    rw [length, List.take_left, ← List.map_append]
    exact List.prefix_append _ _
  · simp only [List.length_append, List.length_take, List.length_drop, List.length_map] at *
    omega

theorem memcpy_inBounds {destination source next : Block Element} {offset : Nat}
    (copied : memcpy destination offset source = some next) :
    offset + source.length ≤ destination.length ∧ next.length = destination.length := by
  rw [memcpy] at copied
  split at copied
  · rename_i inBounds
    refine ⟨inBounds, ?_⟩
    rw [← Option.some.inj copied]
    simp only [List.length_append, List.length_take, List.length_drop]
    omega
  · cases copied

theorem length_allocate (size : Nat) : (allocate size : Block Element).length = size :=
  List.length_replicate

end BinanceNativeApp.Library.Memory
