import BinanceNativeApp.Library.Transition
import BinanceNativeApp.Ownership.Cells

/-!
# Stores of buffers

Buffers are constructed, copied, appended to and destroyed in any order, and a
`new` may fail at any time.  Each block that has not been deleted has one
owner, so that no buffer sees what happens to another one.
-/

set_option autoImplicit false

namespace BinanceNativeApp.Ownership

open BinanceNativeApp.Library.Containers
open BinanceNativeApp.Library.Memory
open BinanceNativeApp.Library.Transition
open BinanceNativeApp.Buffer

structure Store where
  heap : Heap
  buffers : Objects Cell

def Store.empty : Store := ⟨Objects.empty, Objects.empty⟩

/-! ## Operations on a store -/

inductive Operation where
  | construct
  | copy (buffer : Nat) (available : Bool)
  | append (buffer : Nat) (available : Bool) (content : Bytes)
  | destroy (buffer : Nat)
  deriving DecidableEq

def Operation.Valid (buffers : Nat → Prop) : Operation → Prop
  | .construct => True
  | .copy buffer _ | .append buffer _ _ | .destroy buffer => buffers buffer

def locate (s : Store) (buffer : Nat) : Except Fault Cell :=
  match s.buffers.read buffer with
  | some cell => .ok cell
  | none => .error .dangling

def perform (w : Nat) (s : Store) : Operation → Except Fault Store
  | .construct => return ⟨s.heap, (s.buffers.create ⟨none, 0, 0⟩).2⟩
  | .copy buffer available => do
      let (copied, heap) ← copy available (← locate s buffer) s.heap
      match copied with
      | some cell => return ⟨heap, (s.buffers.create cell).2⟩
      | none => return ⟨heap, s.buffers⟩
  | .append buffer available content => do
      let (_, cell, heap) ← append w available content (← locate s buffer) s.heap
      return ⟨heap, { s.buffers with cells := s.buffers.cells.assign buffer cell }⟩
  | .destroy buffer => do
      let heap ← deleteArray s.heap (← locate s buffer).data
      return ⟨heap, s.buffers.destroy buffer⟩

/-! ## Every block has one owner -/

def Store.pointer (s : Store) (buffer : Nat) : Option Nat :=
  (s.buffers.read buffer).bind Cell.data

def Store.view (s : Store) (buffer : Nat) : Option BufferStruct := do
  let cell ← s.buffers.read buffer
  let block ← (blockOf s.heap cell.data).toOption
  some ⟨block, cell.size, cell.maxSize⟩

section Moves
variable {s next : Store} {moving : Nat} {block : Block UInt8}

end Moves

/-! ## A store and its buffers -/

def Store.values (s : Store) : Objects BufferStruct := ⟨s.buffers.next, ⟨s.view⟩⟩

section Steps
variable {s next : Store} {moving : Nat} {block : Block UInt8}

end Steps

/-! ## Runs -/

def Operation.Allowed (s : Store) (operation : Operation) : Prop :=
  operation.Valid fun buffer => ∃ cell, s.buffers.read buffer = some cell

end BinanceNativeApp.Ownership
