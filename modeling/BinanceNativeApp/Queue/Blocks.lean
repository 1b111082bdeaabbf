import BinanceNativeApp.Queue.BlockIndex

/-!
# Blocks and the pools they come from

A block has room for `BLOCK_SIZE` elements.  A producer gets its blocks from the
initial pool, then from the free list, then from the heap, and gives each back
to the free list once all its elements are gone.  The calls come one after the
other here, so that a compare-and-swap finds what was loaded before it.
-/

set_option autoImplicit false

namespace BinanceNativeApp.Queue

open BinanceNativeApp.Library.Circular

variable {T : Type}

/-! ## Blocks -/

/-- A cell without an element is raw memory. -/
structure Block (T : Type) where
  elements : List (Option T)
  elementsCompletelyDequeued : Nat
  freeListRefs : Nat
  freeListNext : Option Nat

def Block.new : Block T where
  elements := List.replicate blockSize none
  elementsCompletelyDequeued := 0
  freeListRefs := 0
  freeListNext := none

/-- `new ((*block)[idx]) T(…)`: there must be no element yet. -/
def Block.construct (block : Block T) (idx : Nat) (element : T) : Option (Block T) :=
  match block.elements[idx &&& (blockSize - 1)]? with
  | some none =>
      some { block with elements := block.elements.set (idx &&& (blockSize - 1)) (some element) }
  | _ => none

/-- `element = std::move(el); el.~T();` -/
def Block.moveOut (block : Block T) (idx : Nat) : Option (T × Block T) :=
  match block.elements[idx &&& (blockSize - 1)]? with
  | some (some element) =>
      some (element, { block with elements := block.elements.set (idx &&& (blockSize - 1)) none })
  | _ => none

def Block.setEmpty (block : Block T) : Option (Bool × Block T) :=
  let prevVal := block.elementsCompletelyDequeued
  if prevVal < blockSize then
    some (decide (prevVal = blockSize - 1),
      { block with elementsCompletelyDequeued := prevVal + 1 })
  else none

def Block.resetEmpty (block : Block T) : Block T := { block with elementsCompletelyDequeued := 0 }

def Block.Raw (block : Block T) : Prop := block.elements = List.replicate blockSize none

/-! ## Pools -/

/-- A pointer to a block is its place among all the blocks there are; the
initial pool comes first. -/
structure Pool (T : Type) where
  blocks : List (Block T)
  initialBlockPoolSize : Nat
  initialBlockPoolIndex : Nat
  freeListHead : Option Nat

/-- What is done to the block a pointer points to. -/
def Pool.at (pool : Pool T) (pointer : Nat) (change : Block T → Option (Block T)) :
    Option (Pool T) := do
  let block ← pool.blocks[pointer]?
  let block ← change block
  some { pool with blocks := pool.blocks.set pointer block }

def populateInitialBlockList (available : Bool) (blockCount : Nat) : Pool T :=
  if blockCount = 0 then ⟨[], 0, 0, none⟩
  else if available then ⟨List.replicate blockCount Block.new, blockCount, 0, none⟩
  else ⟨[], 0, 0, none⟩

def refsMask : Nat := 2 ^ 31 - 1

def shouldBeOnFreeList : Nat := 2 ^ 31

def addKnowingRefcountIsZero (node : Nat) (pool : Pool T) : Option (Pool T) := do
  let pool' ← pool.at node fun block =>
    some { block with freeListNext := pool.freeListHead, freeListRefs := 1 }
  some { pool' with freeListHead := some node }

/-- `freeList.add`. -/
def addBlockToFreeList (node : Nat) (pool : Pool T) : Option (Pool T) := do
  let block ← pool.blocks[node]?
  let pool ← pool.at node fun block =>
    some { block with freeListRefs := wrapAdd 32 block.freeListRefs shouldBeOnFreeList }
  if block.freeListRefs = 0 then addKnowingRefcountIsZero node pool else some pool

/-- `freeList.try_get`.  A head without a reference would be looked at for ever. -/
def tryGetBlockFromFreeList (pool : Pool T) : Option (Option Nat × Pool T) :=
  match pool.freeListHead with
  | none => some (none, pool)
  | some head => do
      let block ← pool.blocks[head]?
      if block.freeListRefs &&& refsMask = 0 then none
      else
        let refs := wrapAdd 32 block.freeListRefs 1
        if refs &&& shouldBeOnFreeList = 0 then
          let pool ← pool.at head fun block => some { block with freeListRefs := wrapSub 32 refs 2 }
          some (some head, { pool with freeListHead := block.freeListNext })
        else none

def tryGetBlockFromInitialPool (pool : Pool T) : Option Nat × Pool T :=
  if pool.initialBlockPoolSize ≤ pool.initialBlockPoolIndex then (none, pool)
  else
    let index := pool.initialBlockPoolIndex
    (if index < pool.initialBlockPoolSize then some index else none,
      { pool with initialBlockPoolIndex := index + 1 })

def requisitionBlock (available : Bool) (pool : Pool T) : Option (Option Nat × Pool T) :=
  match tryGetBlockFromInitialPool pool with
  | (some block, pool) => some (some block, pool)
  | (none, pool) => do
      let (block, pool) ← tryGetBlockFromFreeList pool
      match block with
      | some block => some (some block, pool)
      | none =>
          if available then
            some (some pool.blocks.length, { pool with blocks := pool.blocks ++ [Block.new] })
          else some (none, pool)

/-! ## Whose the blocks are -/

inductive Owner where
  | producer (number : Nat)
  | freeList
  | initialPool
  deriving DecidableEq

def Chain (blocks : List (Block T)) : Option Nat → List Nat → Prop
  | head, [] => head = none
  | head, node :: rest =>
      head = some node ∧
        ∃ block, blocks[node]? = some block ∧ block.freeListRefs = 1 ∧ block.Raw ∧
          Chain blocks block.freeListNext rest

/-- What no producer has: the nodes of the free list and the rest of the initial
pool. -/
structure Spare (pool : Pool T) (owner : Nat → Owner) (free : List Nat) : Prop where
  chain : Chain pool.blocks pool.freeListHead free
  nodup : free.Nodup
  freed : ∀ node ∈ free, owner node = .freeList
  rest : ∀ pointer, pool.initialBlockPoolIndex ≤ pointer → pointer < pool.initialBlockPoolSize →
    owner pointer = .initialPool ∧
      ∃ block, pool.blocks[pointer]? = some block ∧ block.freeListRefs = 0 ∧ block.Raw
  there : pool.initialBlockPoolSize ≤ pool.blocks.length

section Blocks
variable {pool : Pool T} {owner : Nat → Owner} {free : List Nat} {pointer : Nat}

theorem Chain.congr {blocks blocks' : List (Block T)} {nodes : List Nat}
    (same : ∀ node ∈ nodes, blocks'[node]? = blocks[node]?) :
    ∀ {head : Option Nat}, Chain blocks head nodes → Chain blocks' head nodes := by
  induction nodes with
  | nil =>
    intro head chain
    exact chain
  | cons node rest after =>
    intro head chain
    obtain ⟨first, block, there, refs, raw, chain⟩ := chain
    refine ⟨first, block, ?_, refs, raw, ?_⟩
    · rw [same node (List.mem_cons_self ..), there]
    · exact after (fun other inside => same other (List.mem_cons_of_mem _ inside)) chain

theorem Chain.there {blocks : List (Block T)} {nodes : List Nat} {node : Nat}
    (inside : node ∈ nodes) :
    ∀ {head : Option Nat}, Chain blocks head nodes → ∃ block, blocks[node]? = some block := by
  induction nodes with
  | nil => cases inside
  | cons first rest after =>
    intro head chain
    obtain ⟨-, block, there, -, -, chain⟩ := chain
    rcases List.mem_cons.mp inside with rfl | later
    · exact ⟨block, there⟩
    · exact after later chain

theorem Spare.congr (spare : Spare pool owner free) {pool' : Pool T} {owner' : Nat → Owner}
    (size : pool'.initialBlockPoolSize = pool.initialBlockPoolSize)
    (index : pool'.initialBlockPoolIndex = pool.initialBlockPoolIndex)
    (head : pool'.freeListHead = pool.freeListHead)
    (length : pool.blocks.length ≤ pool'.blocks.length)
    (same : ∀ other, (∀ number, owner other ≠ .producer number) →
      other < pool.blocks.length →
        pool'.blocks[other]? = pool.blocks[other]? ∧ owner' other = owner other) :
    Spare pool' owner' free := by
  have apart : ∀ {kind : Owner}, kind = .freeList ∨ kind = .initialPool →
      ∀ number, kind ≠ .producer number := by
    intro kind which number equal
    rcases which with rfl | rfl <;> cases equal
  have listed : ∀ node ∈ free,
      pool'.blocks[node]? = pool.blocks[node]? ∧ owner' node = owner node := by
    intro node inside
    obtain ⟨block, there⟩ := spare.chain.there inside
    exact same node (apart (.inl (spare.freed node inside))) (List.getElem?_eq_some_iff.mp there).1
  refine ⟨?_, spare.nodup, ?_, ?_, ?_⟩
  · rw [head]
    exact spare.chain.congr fun node inside => (listed node inside).1
  · intro node inside
    rw [(listed node inside).2]
    exact spare.freed node inside
  · intro pointer past inside
    rw [index] at past
    rw [size] at inside
    obtain ⟨kept, block, there, refs, raw⟩ := spare.rest pointer past inside
    have pair := same pointer (apart (.inr kept)) (List.getElem?_eq_some_iff.mp there).1
    exact ⟨by rw [pair.2, kept], block, by rw [pair.1, there], refs, raw⟩
  · rw [size]
    exact Nat.le_trans spare.there length

theorem Pool.at_eq {block block' : Block T} {change : Block T → Option (Block T)}
    (there : pool.blocks[pointer]? = some block) (changed : change block = some block') :
    pool.at pointer change = some { pool with blocks := pool.blocks.set pointer block' } := by
  simp only [Pool.at, there, Option.bind_eq_bind, Option.bind_some, changed]

theorem Pool.at_some {block : Block T} (there : pool.blocks[pointer]? = some block)
    (change : Block T → Block T) :
    (pool.at pointer fun block => some (change block)) =
      some { pool with blocks := pool.blocks.set pointer (change block) } :=
  Pool.at_eq there rfl

theorem set_there {blocks : List (Block T)} {block : Block T}
    (there : blocks[pointer]? = some block) (block' : Block T) :
    (blocks.set pointer block')[pointer]? = some block' :=
  List.getElem?_set_self (List.getElem?_eq_some_iff.mp there).1

theorem set_elsewhere {blocks : List (Block T)} {other : Nat} (apart : other ≠ pointer)
    (block' : Block T) : (blocks.set pointer block')[other]? = blocks[other]? :=
  List.getElem?_set_ne (Ne.symm apart)

/-! ## Taking a block -/

def Fresh (pool : Pool T) (owner : Nat → Owner) (pointer : Nat) : Prop :=
  pool.blocks[pointer]? = none ∨ ∀ number, owner pointer ≠ .producer number

/-- A block changed hands from the pools to a producer. -/
structure Requisitioned (pool pool' : Pool T) (owner : Nat → Owner) (number pointer : Nat) :
    Prop where
  fresh : Fresh pool owner pointer
  block : ∃ block, pool'.blocks[pointer]? = some block ∧ block.freeListRefs = 0 ∧ block.Raw
  spare : ∃ free, Spare pool' (Function.update owner pointer (.producer number)) free
  others : ∀ other, other ≠ pointer → pool'.blocks[other]? = pool.blocks[other]?

theorem Spare.initialPool (spare : Spare pool owner free) (number : Nat)
    (room : pool.initialBlockPoolIndex < pool.initialBlockPoolSize) :
    Requisitioned pool { pool with initialBlockPoolIndex := pool.initialBlockPoolIndex + 1 } owner
      number pool.initialBlockPoolIndex := by
  obtain ⟨kept, there⟩ := spare.rest _ (Nat.le_refl _) room
  have apart : ∀ node ∈ free, node ≠ pool.initialBlockPoolIndex := by
    rintro node inside rfl
    have listed := spare.freed _ inside
    rw [kept] at listed
    cases listed
  refine ⟨.inr fun other same => ?_, there, ⟨free, spare.chain, spare.nodup, ?_, ?_, spare.there⟩,
    fun _ _ => rfl⟩
  · rw [kept] at same
    cases same
  · intro node inside
    rw [Function.update_of_ne (apart node inside)]
    exact spare.freed node inside
  · intro pointer past inside
    change pool.initialBlockPoolIndex + 1 ≤ pointer at past
    have other : pointer ≠ pool.initialBlockPoolIndex := by omega
    rw [Function.update_of_ne other]
    exact spare.rest pointer (Nat.le_of_succ_le past) inside

theorem Spare.created (spare : Spare pool owner free) (number : Nat) :
    Requisitioned pool { pool with blocks := pool.blocks ++ [Block.new] } owner number
      pool.blocks.length := by
  have old : ∀ {other : Nat}, other < pool.blocks.length →
      (pool.blocks ++ [Block.new])[other]? = pool.blocks[other]? := by
    intro other inside
    rw [List.getElem?_append_left inside]
  refine ⟨.inl (List.getElem?_eq_none (Nat.le_refl _)), ⟨Block.new, List.getElem?_concat_length,
    rfl, rfl⟩, ⟨free, spare.congr rfl rfl rfl ?_ ?_⟩, ?_⟩
  · show pool.blocks.length ≤ (pool.blocks ++ [Block.new]).length
    rw [List.length_append]
    omega
  · intro other _ inside
    exact ⟨old inside, Function.update_of_ne (by omega) _ _⟩
  · intro other apart
    by_cases inside : other < pool.blocks.length
    · exact old inside
    · have past : (pool.blocks ++ [Block.new]).length ≤ other := by
        rw [List.length_append, List.length_singleton]
        omega
      exact (List.getElem?_eq_none past).trans (List.getElem?_eq_none (by omega)).symm

theorem Spare.fromFreeList {head : Nat} {rest : List Nat} (spare : Spare pool owner (head :: rest))
    (number : Nat) :
    ∃ pool', tryGetBlockFromFreeList pool = some (some head, pool') ∧
      Requisitioned pool pool' owner number head := by
  obtain ⟨first, block, there, refs, raw, chain⟩ := spare.chain
  have listed := spare.freed head (List.mem_cons_self ..)
  have apart : ∀ node ∈ rest, node ≠ head := by
    rintro node inside rfl
    exact (List.nodup_cons.mp spare.nodup).1 inside
  have taken : tryGetBlockFromFreeList pool = some (some head,
      { pool with
        blocks := pool.blocks.set head { block with freeListRefs := 0 }
        freeListHead := block.freeListNext }) := by
    have counted : ¬1 &&& refsMask = 0 := by decide
    have unlisted : wrapAdd 32 1 1 &&& shouldBeOnFreeList = 0 := by decide
    rw [tryGetBlockFromFreeList, first]
    simp only [there, refs, Option.bind_eq_bind, Option.bind_some, if_neg counted,
      if_pos unlisted]
    rw [Pool.at_some there]
    rfl
  refine ⟨_, taken, .inr fun other same => ?_, ⟨_, set_there there _, rfl, raw⟩,
    ⟨rest, ?_, (List.nodup_cons.mp spare.nodup).2, ?_, ?_, ?_⟩, ?_⟩
  · rw [listed] at same
    cases same
  · exact chain.congr fun node inside => set_elsewhere (apart node inside) _
  · intro node inside
    rw [Function.update_of_ne (apart node inside)]
    exact spare.freed node (List.mem_cons_of_mem _ inside)
  · intro pointer past inside
    obtain ⟨kept, found⟩ := spare.rest pointer past inside
    have other : pointer ≠ head := by
      rintro rfl
      rw [listed] at kept
      cases kept
    rw [Function.update_of_ne other]
    exact ⟨kept, by rw [set_elsewhere other]; exact found⟩
  · show pool.initialBlockPoolSize ≤ (pool.blocks.set _ _).length
    rw [List.length_set]
    exact spare.there
  · intro other different
    exact set_elsewhere different _

/-- There is none only where there is no memory for one. -/
theorem Spare.requisition (spare : Spare pool owner free) (available : Bool) (number : Nat) :
    requisitionBlock available pool = some (none, pool) ∧ available = false ∨
      ∃ pointer pool', requisitionBlock available pool = some (some pointer, pool') ∧
        Requisitioned pool pool' owner number pointer := by
  by_cases room : pool.initialBlockPoolIndex < pool.initialBlockPoolSize
  · refine .inr ⟨_, _, ?_, spare.initialPool number room⟩
    rw [requisitionBlock, tryGetBlockFromInitialPool, if_neg (Nat.not_le_of_lt room)]
    simp only [if_pos room]
  · have gone : tryGetBlockFromInitialPool pool = (none, pool) := by
      rw [tryGetBlockFromInitialPool, if_pos (by omega)]
    rw [requisitionBlock, gone]
    cases free with
    | cons head rest =>
      obtain ⟨pool', taken, requisitioned⟩ := spare.fromFreeList number
      refine .inr ⟨head, pool', ?_, requisitioned⟩
      simp only [taken, Option.bind_eq_bind, Option.bind_some]
    | nil =>
      have empty : tryGetBlockFromFreeList pool = some (none, pool) := by
        have none : pool.freeListHead = none := spare.chain
        rw [tryGetBlockFromFreeList, none]
      simp only [empty, Option.bind_eq_bind, Option.bind_some]
      cases available with
      | false => exact .inl ⟨rfl, rfl⟩
      | true => exact .inr ⟨_, _, rfl, spare.created number⟩

/-! ## Giving a block back -/

theorem Spare.release (spare : Spare pool owner free) {number : Nat} {block : Block T}
    (owned : owner pointer = .producer number) (there : pool.blocks[pointer]? = some block)
    (refs : block.freeListRefs = 0) (raw : block.Raw) :
    ∃ pool', addBlockToFreeList pointer pool = some pool' ∧
      Spare pool' (Function.update owner pointer .freeList) (pointer :: free) ∧
        ∀ other, other ≠ pointer → pool'.blocks[other]? = pool.blocks[other]? := by
  have apart : ∀ node ∈ free, node ≠ pointer := by
    rintro node inside rfl
    have listed := spare.freed _ inside
    rw [owned] at listed
    cases listed
  let listed : Block T := { block with freeListNext := pool.freeListHead, freeListRefs := 1 }
  have added : addBlockToFreeList pointer pool = some
      { pool with blocks := pool.blocks.set pointer listed, freeListHead := some pointer } := by
    rw [addBlockToFreeList, Pool.at_some there]
    simp only [there, Option.bind_eq_bind, Option.bind_some, if_pos refs]
    rw [addKnowingRefcountIsZero, Pool.at_some (set_there there _)]
    simp only [Option.bind_eq_bind, Option.bind_some, List.set_set]
    rfl
  refine ⟨_, added, ⟨?_, List.nodup_cons.mpr ⟨fun inside => apart _ inside rfl, spare.nodup⟩, ?_,
    ?_, ?_⟩, fun other different => set_elsewhere different _⟩
  · exact ⟨rfl, listed, set_there there _, rfl, raw,
      spare.chain.congr fun node inside => set_elsewhere (apart node inside) _⟩
  · intro node inside
    rcases List.mem_cons.mp inside with rfl | old
    · exact Function.update_self _ _ _
    · rw [Function.update_of_ne (apart node old)]
      exact spare.freed node old
  · intro other past inside
    obtain ⟨kept, found⟩ := spare.rest other past inside
    have different : other ≠ pointer := by
      rintro rfl
      rw [owned] at kept
      cases kept
    rw [Function.update_of_ne different]
    exact ⟨kept, by rw [set_elsewhere different]; exact found⟩
  · show pool.initialBlockPoolSize ≤ (pool.blocks.set _ _).length
    rw [List.length_set]
    exact spare.there

end Blocks

/-! ## The first pool -/

theorem spare_populated (available : Bool) (blockCount : Nat) :
    Spare (populateInitialBlockList (T := T) available blockCount) (fun _ => .initialPool) [] := by
  rw [populateInitialBlockList]
  split
  · exact ⟨rfl, List.nodup_nil, nofun, fun _ _ inside => absurd inside (Nat.not_lt_zero _),
      Nat.le_refl _⟩
  · split
    · refine ⟨rfl, List.nodup_nil, nofun, ?_, ?_⟩
      · intro pointer _ inside
        exact ⟨rfl, Block.new, by rw [List.getElem?_replicate, if_pos inside], rfl, rfl⟩
      · show blockCount ≤ (List.replicate blockCount Block.new).length
        rw [List.length_replicate]
    · exact ⟨rfl, List.nodup_nil, nofun, fun _ _ inside => absurd inside (Nat.not_lt_zero _),
        Nat.le_refl _⟩

end BinanceNativeApp.Queue
