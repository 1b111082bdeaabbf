import BinanceNativeApp.Buffer

/-!
# The blocks of the buffers

In `Buffer` a buffer comes with its block.  Here the blocks live on a heap that
all buffers share, and `data` is a pointer into it: the constructors, `append`
and the destructor decide which block is deleted, and when.  A run of these
operations can go wrong in two ways, by leaving a block and by using a pointer
whose block has been deleted.
-/

set_option autoImplicit false

namespace BinanceNativeApp.Ownership

open BinanceNativeApp.Library.Containers
open BinanceNativeApp.Library.Memory
open BinanceNativeApp.Buffer

inductive Fault where
  | outOfBounds
  | dangling
  deriving DecidableEq

abbrev Heap : Type := Objects (Block UInt8)

/-- `data` is `none` for the null pointer. -/
structure Cell where
  data : Option Nat
  size : Nat
  maxSize : Nat
  deriving DecidableEq

/-! ## Pointers -/

def within {Value : Type} : Option Value → Except Fault Value
  | some value => .ok value
  | none => .error .outOfBounds

def blockOf (heap : Heap) : Option Nat → Except Fault (Block UInt8)
  | none => .ok []
  | some pointer =>
      match heap.read pointer with
      | some block => .ok block
      | none => .error .dangling

def assign (heap : Heap) (block : Block UInt8) : Option Nat → Except Fault Heap
  | none => .ok heap
  | some pointer =>
      match heap.modify pointer fun _ => block with
      | some heap => .ok heap
      | none => .error .dangling

def readFrom (heap : Heap) (source : Option Nat) (count : Nat) : Except Fault (Block UInt8) := do
  within (read (← blockOf heap source) count)

def copyTo (heap : Heap) (destination : Option Nat) (offset : Nat) (source : Block UInt8) :
    Except Fault Heap := do
  let block ← within (memcpy (← blockOf heap destination) offset source)
  assign heap block destination

def deleteArray (heap : Heap) : Option Nat → Except Fault Heap
  | none => .ok heap
  | some pointer =>
      match heap.read pointer with
      | some _ => .ok (heap.destroy pointer)
      | none => .error .dangling

/-! ## The members of `buffer_struct` -/

def reallocate (w : Nat) (available : Bool) (requiredSize : Nat) (s : Cell) (heap : Heap) :
    Except Fault (Bool × Cell × Heap) := do
  let s := { s with maxSize := requiredSize * 2 % 2 ^ w }
  if available then
    let (b, heap) := heap.create (allocate s.maxSize)
    let heap ← copyTo heap (some b) 0 (← readFrom heap s.data s.size)
    let heap ← deleteArray heap s.data
    return (true, { s with data := some b }, heap)
  else
    return (false, s, heap)

def append (w : Nat) (available : Bool) (content : Bytes) (s : Cell) (heap : Heap) :
    Except Fault (Bool × Cell × Heap) := do
  let requiredSize := (s.size + content.length) % 2 ^ w
  let (allocated, s, heap) ←
    if s.maxSize < requiredSize then reallocate w available requiredSize s heap
    else pure (true, s, heap)
  if allocated then
    let heap ← copyTo heap s.data s.size (content.map some)
    return (true, { s with size := (s.size + content.length) % 2 ^ w }, heap)
  else
    return (false, s, heap)

/-- A copy constructor that is left by an exception has constructed nothing. -/
def copy (available : Bool) (other : Cell) (heap : Heap) :
    Except Fault (Option Cell × Heap) := do
  if available then
    let (b, heap) := heap.create (allocate other.maxSize)
    let heap ← copyTo heap (some b) 0 (← readFrom heap other.data other.size)
    return (some ⟨some b, other.size, other.maxSize⟩, heap)
  else
    return (none, heap)

/-! ## How a pointer moves -/

/-- Nothing stands behind the pointers that have not been handed out. -/
def Fresh {Value : Type} (objects : Objects Value) : Prop :=
  ∀ pointer, objects.next ≤ pointer → objects.read pointer = none

end BinanceNativeApp.Ownership
