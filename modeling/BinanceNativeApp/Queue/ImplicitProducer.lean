import BinanceNativeApp.Queue.Blocks

/-!
# One producer

The indices of a producer grow for ever and wrap; the elements between its head
and its tail lie in consecutive blocks, which the block index finds.  The type
of the elements is one whose moves do not throw.
-/

set_option autoImplicit false

namespace BinanceNativeApp.Queue

open BinanceNativeApp.Library.Circular

variable {T : Type}

/-! ## The functions -/

structure ImplicitProducer where
  tailIndex : Nat
  headIndex : Nat
  dequeueOptimisticCount : Nat
  dequeueOvercommit : Nat
  tailBlock : Option Nat
  index : BlockIndex

/-- Whether memory can be had during a call: for the table of the producers, for
a producer, for a block index, for a block. -/
structure Memory where
  hash : Bool
  producer : Bool
  index : Bool
  block : Bool

/-- The constructor.  It goes on without a block index where there is no memory
for one. -/
def newImplicitProducer (w : Nat) (available : Bool) : Option ImplicitProducer := do
  let (_, index) ← newBlockIndex w available ⟨implicitInitialIndexSize, none⟩
  some ⟨0, 0, 0, 0, none, index⟩

/-- What `enqueue` does at the end of a block; whether there is a new one. -/
def ImplicitProducer.startBlock (w : Nat) (memory : Memory) (pool : Pool T)
    (p : ImplicitProducer) : Option (Bool × Pool T × ImplicitProducer) :=
  let currentTailIndex := p.tailIndex
  let head := p.headIndex
  if circularLessThan w currentTailIndex head then none
  else if ¬circularLessThan w head (wrapAdd w currentTailIndex blockSize) then
    some (false, pool, p)
  else do
    let (idxEntry, index) ← insertBlockIndexEntry w memory.index currentTailIndex p.index
    match idxEntry with
    | none => some (false, pool, { p with index := index })
    | some idxEntry => do
        let (newBlock, pool) ← requisitionBlock memory.block pool
        match newBlock with
        | none => do
            let index ← rewindBlockIndexTail w index
            let index ← storeEntry idxEntry .null index
            some (false, pool, { p with index := index })
        | some newBlock => do
            let pool ← pool.at newBlock fun block => some block.resetEmpty
            let index ← storeEntry idxEntry (.block newBlock) index
            some (true, pool, { p with index := index, tailBlock := some newBlock })

def ImplicitProducer.append (w : Nat) (element : T) (pool : Pool T) (p : ImplicitProducer) :
    Option (Pool T × ImplicitProducer) := do
  let tailBlock ← p.tailBlock
  let pool ← pool.at tailBlock fun block => block.construct p.tailIndex element
  some (pool, { p with tailIndex := wrapAdd w p.tailIndex 1 })

def ImplicitProducer.enqueue (w : Nat) (memory : Memory) (element : T) (pool : Pool T)
    (p : ImplicitProducer) : Option (Bool × Pool T × ImplicitProducer) := do
  let (started, pool, p) ←
    if p.tailIndex &&& (blockSize - 1) = 0 then p.startBlock w memory pool
    else some (true, pool, p)
  if started then
    let (pool, p) ← p.append w element pool
    some (true, pool, p)
  else some (false, pool, p)

/-- The part of `dequeue` behind the two checks: the element at the head. -/
def ImplicitProducer.takeFirst (w : Nat) (pool : Pool T) (p : ImplicitProducer) :
    Option (T × Pool T × ImplicitProducer) := do
  let index := p.headIndex
  let p := { p with headIndex := wrapAdd w p.headIndex 1 }
  let (position, entry) ← getBlockIndexEntryForIndex w index p.index
  let pointer ← entry.value.load
  let pointer ← pointer
  let block ← pool.blocks[pointer]?
  let (element, block) ← block.moveOut index
  let (empty, block) ← block.setEmpty
  let pool := { pool with blocks := pool.blocks.set pointer block }
  if empty then
    let blockIndex ← storeEntry position .null p.index
    let pool ← addBlockToFreeList pointer pool
    some (element, pool, { p with index := blockIndex })
  else some (element, pool, p)

def ImplicitProducer.dequeue (w : Nat) (pool : Pool T) (p : ImplicitProducer) :
    Option (Option T × Pool T × ImplicitProducer) :=
  let overcommit := p.dequeueOvercommit
  if circularLessThan w (wrapSub w p.dequeueOptimisticCount overcommit) p.tailIndex then
    let myDequeueCount := p.dequeueOptimisticCount
    let p := { p with dequeueOptimisticCount := wrapAdd w p.dequeueOptimisticCount 1 }
    if circularLessThan w (wrapSub w myDequeueCount overcommit) p.tailIndex then do
      let (element, pool, p) ← p.takeFirst w pool
      some (some element, pool, p)
    else some (none, pool, { p with dequeueOvercommit := wrapAdd w p.dequeueOvercommit 1 })
  else some (none, pool, p)

def ImplicitProducer.sizeApprox (w : Nat) (p : ImplicitProducer) : Nat :=
  if circularLessThan w p.headIndex p.tailIndex then wrapSub w p.tailIndex p.headIndex else 0

/-! ## What a producer holds -/

/-- What the cell of an index has, where the elements from `head` on are `items`. -/
def content (head : Nat) (items : List T) (index : Nat) : Option T :=
  if head ≤ index then items[index - head]? else none

theorem content_append (head : Nat) (items : List T) (element : T) (index : Nat) :
    content head (items ++ [element]) index =
      if index = head + items.length then some element else content head items index := by
  rw [content, content]
  split
  · rcases Nat.lt_trichotomy (index - head) items.length with before | last | behind
    · rw [List.getElem?_append_left before, if_neg (by omega)]
    · rw [last, List.getElem?_concat_length, if_pos (by omega)]
    · rw [if_neg (by omega), List.getElem?_eq_none, List.getElem?_eq_none (by omega)]
      rw [List.length_append, List.length_singleton]
      omega
  · rw [if_neg (by omega)]

theorem content_tail (head : Nat) (first : T) (rest : List T) (index : Nat) :
    content (head + 1) rest index =
      if index = head then none else content head (first :: rest) index := by
  rw [content, content]
  rcases Nat.lt_trichotomy index head with before | rfl | behind
  · rw [if_neg (by omega), if_neg (by omega), if_neg (by omega)]
  · rw [if_neg (by omega), if_pos rfl]
  · have next : index - head = index - (head + 1) + 1 := by omega
    rw [if_pos (by omega), if_neg (by omega), if_pos (by omega), next, List.getElem?_cons_succ]

/-- The block number `number` of a producer. -/
structure Filled (block : Block T) (head : Nat) (items : List T) (number : Nat) : Prop where
  refs : block.freeListRefs = 0
  dequeued : block.elementsCompletelyDequeued =
    if number = head / blockSize then head % blockSize else 0
  length : block.elements.length = blockSize
  cells : ∀ cell, cell < blockSize →
    block.elements[cell]? = some (content head items (blockSize * number + cell))

/-- `head` and `head + items.length` are what the indices stand for; the blocks
are those from the head's on and before `past`, and `place` tells where they are. -/
structure Holds (w : Nat) (blocks : List (Block T)) (owner : Nat → Owner) (number : Nat)
    (p : ImplicitProducer) (items : List T) (place : Nat → Nat) (head past : Nat) : Prop where
  headIndex : p.headIndex = word w head
  tailIndex : p.tailIndex = word w (head + items.length)
  optimistic : p.dequeueOptimisticCount = word w head
  overcommit : p.dequeueOvercommit = 0
  order : head / blockSize ≤ past
  range : blockSize * past < head + 2 ^ (w - 1)
  index : Keeps w p.index (head / blockSize) (past - head / blockSize) place
  owned : ∀ block, head / blockSize ≤ block → block < past → owner (place block) = .producer number
  injective : ∀ block other, head / blockSize ≤ block → block < past → head / blockSize ≤ other →
    other < past → place block = place other → block = other
  filled : ∀ block, head / blockSize ≤ block → block < past →
    ∃ there, blocks[place block]? = some there ∧ Filled there head items block
  tailBlock : head / blockSize < past → p.tailBlock = some (place (past - 1))

/-- The blocks of the other producers stay as they are. -/
def Apart (number : Nat) (pool : Pool T) (owner : Nat → Owner) (pool' : Pool T)
    (owner' : Nat → Owner) : Prop :=
  ∀ pointer other block, other ≠ number → owner pointer = .producer other →
    pool.blocks[pointer]? = some block →
      pool'.blocks[pointer]? = some block ∧ owner' pointer = .producer other

theorem Apart.trans {number : Nat} {pool pool' pool'' : Pool T} {owner owner' owner'' : Nat → Owner}
    (first : Apart number pool owner pool' owner')
    (second : Apart number pool' owner' pool'' owner'') :
    Apart number pool owner pool'' owner'' := by
  intro pointer other block different owned there
  obtain ⟨there, owned⟩ := first pointer other block different owned there
  exact second pointer other block different owned there

theorem Apart.rfl {number : Nat} {pool : Pool T} {owner : Nat → Owner} :
    Apart number pool owner pool owner :=
  fun _ _ _ _ owned there => ⟨there, owned⟩

/-! ## One block -/

section Block
variable {w head number : Nat} {items : List T} {block : Block T}

theorem word_mod_blockSize (divides : blockSize ∣ 2 ^ w) (n : Nat) :
    word w n &&& (blockSize - 1) = n % blockSize := by
  rw [and_blockSize]
  exact Nat.mod_mod_of_dvd _ divides

theorem Filled.construct (divides : blockSize ∣ 2 ^ w)
    (filled : Filled block head items ((head + items.length) / blockSize)) (element : T) :
    ∃ block', block.construct (word w (head + items.length)) element = some block' ∧
      Filled block' head (items ++ [element]) ((head + items.length) / blockSize) := by
  have inside : (head + items.length) % blockSize < blockSize := Nat.mod_lt _ (by decide)
  have there := filled.cells _ inside
  rw [Nat.div_add_mod] at there
  have raw : content head items (head + items.length) = none := by
    rw [content, if_pos (Nat.le_add_right _ _), List.getElem?_eq_none (by omega)]
  rw [raw] at there
  let elements := block.elements.set ((head + items.length) % blockSize) (some element)
  refine ⟨{ block with elements := elements }, ?_, filled.refs, filled.dequeued, ?_, ?_⟩
  · simp only [Block.construct, word_mod_blockSize divides, there]
    rfl
  · show (block.elements.set _ _).length = blockSize
    rw [List.length_set, filled.length]
  · intro cell below
    show (block.elements.set _ _)[cell]? = _
    rw [content_append]
    by_cases same : cell = (head + items.length) % blockSize
    · rw [same, Nat.div_add_mod, if_pos rfl, List.getElem?_set_self]
      rw [filled.length]
      exact inside
    · have other : blockSize * ((head + items.length) / blockSize) + cell ≠
          head + items.length := by
        have whole := Nat.div_add_mod (head + items.length) blockSize
        omega
      rw [if_neg other, List.getElem?_set_ne (Ne.symm same)]
      exact filled.cells cell below

/-- The other blocks are not concerned with a new element. -/
theorem Filled.append (filled : Filled block head items number)
    (other : number ≠ (head + items.length) / blockSize) (element : T) :
    Filled block head (items ++ [element]) number := by
  refine ⟨filled.refs, filled.dequeued, filled.length, fun cell below => ?_⟩
  rw [filled.cells cell below, content_append, if_neg]
  intro same
  apply other
  rw [← same, Nat.mul_add_div (by decide), Nat.div_eq_of_lt below, Nat.add_zero]

theorem next_in_block {n : Nat} (more : n % blockSize ≠ blockSize - 1) :
    (n + 1) / blockSize = n / blockSize ∧ (n + 1) % blockSize = n % blockSize + 1 := by
  have size : blockSize = 32 := rfl
  rw [size] at more ⊢
  omega

theorem next_block {n : Nat} (last : n % blockSize = blockSize - 1) :
    (n + 1) / blockSize = n / blockSize + 1 ∧ (n + 1) % blockSize = 0 := by
  have size : blockSize = 32 := rfl
  rw [size] at last ⊢
  omega

/-- The first element leaves its block; the last of a block leaves it raw. -/
theorem Filled.takeFirst (divides : blockSize ∣ 2 ^ w) {first : T} {rest : List T}
    (filled : Filled block head (first :: rest) (head / blockSize)) :
    ∃ moved block', block.moveOut (word w head) = some (first, moved) ∧
      moved.setEmpty = some (decide (head % blockSize = blockSize - 1), block') ∧
        (head % blockSize ≠ blockSize - 1 → Filled block' (head + 1) rest (head / blockSize)) ∧
          (head % blockSize = blockSize - 1 → block'.freeListRefs = 0 ∧ block'.Raw) := by
  have inside : head % blockSize < blockSize := Nat.mod_lt _ (by decide)
  have whole := Nat.div_add_mod head blockSize
  have there := filled.cells _ inside
  have found : content head (first :: rest) head = some first := by
    rw [content, if_pos (Nat.le_refl _), Nat.sub_self, List.getElem?_cons_zero]
  rw [whole, found] at there
  have dequeued := filled.dequeued
  rw [if_pos rfl] at dequeued
  have length : (block.elements.set (head % blockSize) none).length = blockSize := by
    rw [List.length_set, filled.length]
  have cells : ∀ cell, cell < blockSize →
      (block.elements.set (head % blockSize) none)[cell]? =
        some (content (head + 1) rest (blockSize * (head / blockSize) + cell)) := by
    intro cell below
    rw [content_tail]
    by_cases same : cell = head % blockSize
    · rw [same, whole, if_pos rfl, List.getElem?_set_self]
      rw [filled.length]
      exact inside
    · rw [if_neg (by omega), List.getElem?_set_ne (Ne.symm same)]
      exact filled.cells cell below
  refine ⟨{ block with elements := block.elements.set (head % blockSize) none },
    { block with
      elements := block.elements.set (head % blockSize) none
      elementsCompletelyDequeued := head % blockSize + 1 }, ?_, ?_, ?_, ?_⟩
  · simp only [Block.moveOut, word_mod_blockSize divides, there]
  · simp only [Block.setEmpty, dequeued, if_pos inside]
  · intro more
    refine ⟨filled.refs, ?_, length, cells⟩
    show head % blockSize + 1 = _
    rw [(next_in_block more).1, (next_in_block more).2, if_pos rfl]
  · intro last
    refine ⟨filled.refs, List.ext_getElem? fun cell => ?_⟩
    show (block.elements.set (head % blockSize) none)[cell]? = _
    rw [List.getElem?_replicate]
    by_cases below : cell < blockSize
    · rw [cells cell below, if_pos below, content, if_neg (by omega)]
    · rw [if_neg below, List.getElem?_eq_none (by omega)]

theorem Filled.tail {first : T} {rest : List T} (filled : Filled block head (first :: rest) number)
    (later : head / blockSize < number) : Filled block (head + 1) rest number := by
  refine ⟨filled.refs, ?_, filled.length, fun cell below => ?_⟩
  · rw [filled.dequeued, if_neg (by omega)]
    split
    · have last : head % blockSize = blockSize - 1 := by
        by_contra more
        have same := (next_in_block more).1
        omega
      exact (next_block last).2.symm
    · rfl
  · have behind : head < blockSize * number + cell := by
      have whole := Nat.div_add_mod head blockSize
      have inside : head % blockSize < blockSize := Nat.mod_lt _ (by decide)
      have step : blockSize * (head / blockSize + 1) ≤ blockSize * number :=
        Nat.mul_le_mul_left _ later
      rw [Nat.mul_succ] at step
      omega
    rw [filled.cells cell below, content_tail, if_neg (by omega)]

end Block

/-! ## Appending -/

section Producer
variable {w head past number : Nat} {items : List T} {pool : Pool T} {owner : Nat → Owner}
  {free : List Nat} {place : Nat → Nat} {p : ImplicitProducer}

theorem Holds.congr {blocks blocks' : List (Block T)} {owner' : Nat → Owner}
    (holds : Holds w blocks owner number p items place head past)
    (same : ∀ block, head / blockSize ≤ block → block < past → ∀ there,
      blocks[place block]? = some there → blocks'[place block]? = some there ∧
        owner' (place block) = owner (place block)) :
    Holds w blocks' owner' number p items place head past := by
  refine ⟨holds.headIndex, holds.tailIndex, holds.optimistic, holds.overcommit, holds.order,
    holds.range, holds.index, ?_, holds.injective, ?_, holds.tailBlock⟩
  · intro block old new
    obtain ⟨there, found, -⟩ := holds.filled block old new
    rw [(same block old new there found).2]
    exact holds.owned block old new
  · intro block old new
    obtain ⟨there, found, filled⟩ := holds.filled block old new
    exact ⟨there, (same block old new there found).1, filled⟩

theorem change_owned {pointer : Nat} (owned : owner pointer = .producer number)
    (spare : Spare pool owner free) (block : Block T) :
    Spare { pool with blocks := pool.blocks.set pointer block } owner free ∧
      Apart number pool owner { pool with blocks := pool.blocks.set pointer block } owner := by
  constructor
  · refine spare.congr rfl rfl rfl (Nat.le_of_eq (List.length_set ..).symm) ?_
    intro other kept _
    refine ⟨set_elsewhere ?_ _, rfl⟩
    rintro rfl
    exact kept number owned
  · intro other theirs block different owned' found
    refine ⟨?_, owned'⟩
    rw [← found]
    refine set_elsewhere ?_ _
    rintro rfl
    rw [owned] at owned'
    cases owned'
    exact different rfl

theorem Holds.append (divides : blockSize ∣ 2 ^ w)
    (holds : Holds w pool.blocks owner number p items place head past)
    (room : past = (head + items.length) / blockSize + 1) (spare : Spare pool owner free)
    (element : T) :
    ∃ pool' p', p.append w element pool = some (pool', p') ∧
      Holds w pool'.blocks owner number p' (items ++ [element]) place head past ∧
        Spare pool' owner free ∧ Apart number pool owner pool' owner ∧ p'.index = p.index := by
  have inside : head / blockSize ≤ (head + items.length) / blockSize :=
    Nat.div_le_div_right (Nat.le_add_right _ _)
  have before : (head + items.length) / blockSize < past := room ▸ Nat.lt_succ_self _
  have here : past - 1 = (head + items.length) / blockSize := room ▸ Nat.add_sub_cancel ..
  have tailBlock := holds.tailBlock (Nat.lt_of_le_of_lt inside before)
  rw [here] at tailBlock
  obtain ⟨block, there, filled⟩ := holds.filled _ inside before
  have owned := holds.owned _ inside before
  obtain ⟨block', constructed, filled'⟩ := filled.construct divides element
  let blocks := pool.blocks.set (place ((head + items.length) / blockSize)) block'
  refine ⟨{ pool with blocks := blocks }, { p with tailIndex := wrapAdd w p.tailIndex 1 },
    ?_, ?_, (change_owned owned spare block').1, (change_owned owned spare block').2, rfl⟩
  · rw [← holds.tailIndex] at constructed
    have changed : (pool.at (place ((head + items.length) / blockSize)) fun block =>
        block.construct p.tailIndex element) = some { pool with blocks := blocks } :=
      Pool.at_eq there constructed
    simp only [ImplicitProducer.append, tailBlock, Option.bind_eq_bind, Option.bind_some, changed]
  · refine ⟨holds.headIndex, ?_, holds.optimistic, holds.overcommit, holds.order, holds.range,
      holds.index, holds.owned, holds.injective, ?_, fun _ => ?_⟩
    · show wrapAdd w p.tailIndex 1 = _
      rw [holds.tailIndex, wrapAdd_word, List.length_append, List.length_singleton,
        Nat.add_assoc]
    · intro other old new
      by_cases same : other = (head + items.length) / blockSize
      · rw [same]
        exact ⟨block', set_there there _, filled'⟩
      · obtain ⟨there', found, filled⟩ := holds.filled other old new
        refine ⟨there', ?_, filled.append same element⟩
        rw [← found]
        refine set_elsewhere (fun equal => same ?_) _
        exact holds.injective _ _ old new inside before equal
    · rw [here]
      exact tailBlock

/-! ## Taking the first element -/

theorem Holds.advance {first : T} {rest : List T} {blocks' : List (Block T)}
    {owner' : Nat → Owner} {index : BlockIndex}
    (holds : Holds w pool.blocks owner number p (first :: rest) place head past)
    (used : head / blockSize < past)
    (keeps : Keeps w index ((head + 1) / blockSize) (past - (head + 1) / blockSize) place)
    (owned : ∀ block, (head + 1) / blockSize ≤ block → block < past →
      owner' (place block) = .producer number)
    (filled : ∀ block, (head + 1) / blockSize ≤ block → block < past →
      ∃ there, blocks'[place block]? = some there ∧ Filled there (head + 1) rest block) :
    Holds w blocks' owner' number
      { p with
        headIndex := wrapAdd w p.headIndex 1
        dequeueOptimisticCount := wrapAdd w p.dequeueOptimisticCount 1
        index := index } rest place (head + 1) past := by
  have step : (head + 1) / blockSize ≤ head / blockSize + 1 := by
    by_cases last : head % blockSize = blockSize - 1
    · exact Nat.le_of_eq (next_block last).1
    · exact Nat.le_succ_of_le (Nat.le_of_eq (next_in_block last).1)
  have back : head / blockSize ≤ (head + 1) / blockSize := Nat.div_le_div_right (Nat.le_succ _)
  have range := holds.range
  refine ⟨?_, ?_, ?_, holds.overcommit, Nat.le_trans step used, by omega, keeps, owned, ?_, filled,
    fun _ => holds.tailBlock used⟩
  · show wrapAdd w p.headIndex 1 = _
    rw [holds.headIndex, wrapAdd_word]
  · have sum : head + (first :: rest).length = head + 1 + rest.length := by
      rw [List.length_cons]
      omega
    rw [← sum]
    exact holds.tailIndex
  · show wrapAdd w p.dequeueOptimisticCount 1 = _
    rw [holds.optimistic, wrapAdd_word]
  · intro block other old new old' new'
    exact holds.injective block other (Nat.le_trans back old) new (Nat.le_trans back old') new'

theorem Holds.takeFirst (divides : blockSize ∣ 2 ^ w) {first : T} {rest : List T}
    (holds : Holds w pool.blocks owner number p (first :: rest) place head past)
    (used : head / blockSize < past) (spare : Spare pool owner free) :
    ∃ pool' p' owner' free',
      { p with dequeueOptimisticCount := wrapAdd w p.dequeueOptimisticCount 1 }.takeFirst w pool =
          some (first, pool', p') ∧
        Holds w pool'.blocks owner' number p' rest place (head + 1) past ∧
          Spare pool' owner' free' ∧ Apart number pool owner pool' owner' ∧
            (p.index.blockIndex.isSome → p'.index.blockIndex.isSome) := by
  obtain ⟨block, there, filled⟩ := holds.filled _ (Nat.le_refl _) used
  have owned := holds.owned _ (Nat.le_refl _) used
  obtain ⟨moved, block', movedOut, emptied, partly, wholly⟩ := filled.takeFirst divides
  obtain ⟨position, entry, release⟩ := holds.index.lookup (n := head) (Nat.le_refl _) (by omega)
  rw [← holds.headIndex] at entry movedOut
  have changed := change_owned owned spare block'
  have later : ∀ other, head / blockSize < other → other < past →
      ∃ there, pool.blocks[place other]? = some there ∧ place other ≠ place (head / blockSize) ∧
        Filled there (head + 1) rest other := by
    intro other after before
    obtain ⟨there, found, filled⟩ := holds.filled other (Nat.le_of_lt after) before
    refine ⟨there, found, fun same => ?_, filled.tail after⟩
    have equal := holds.injective _ _ (Nat.le_of_lt after) before (Nat.le_refl _) used same
    omega
  by_cases last : head % blockSize = blockSize - 1
  · obtain ⟨index, stored, keeps, present⟩ := release rfl
    obtain ⟨refs, raw⟩ := wholly last
    obtain ⟨pool', added, spare', kept⟩ :=
      changed.1.release owned (set_there there block') refs raw
    have next := (next_block last).1
    have rest : ∀ block, (head + 1) / blockSize ≤ block → head / blockSize < block := by
      intro block old
      rw [next] at old
      exact old
    rw [Nat.sub_sub, ← next] at keeps
    refine ⟨pool', _, _, _, ?_, holds.advance used keeps ?_ ?_, spare', ?_, ?_⟩
    · simp only [ImplicitProducer.takeFirst, entry, Slot.load, there, movedOut, emptied, last,
        stored, added, Option.bind_eq_bind, Option.bind_some, decide_true, if_true]
    · intro block old new
      obtain ⟨-, -, apart, -⟩ := later block (rest block old) new
      rw [Function.update_of_ne apart]
      exact holds.owned block (Nat.le_of_lt (rest block old)) new
    · intro block old new
      obtain ⟨there', found, apart, filled⟩ := later block (rest block old) new
      exact ⟨there', by rw [kept _ apart, set_elsewhere apart, found], filled⟩
    · intro pointer other block different theirs found
      have apart : pointer ≠ place (head / blockSize) := by
        rintro rfl
        rw [owned] at theirs
        cases theirs
        exact different rfl
      rw [kept _ apart, Function.update_of_ne apart]
      exact changed.2 pointer other block different theirs found
    · exact fun _ => present
  · have next := (next_in_block last).1
    have keeps := holds.index
    rw [← next] at keeps
    refine ⟨{ pool with blocks := pool.blocks.set (place (head / blockSize)) block' }, _, _, _, ?_,
      holds.advance used keeps ?_ ?_, changed.1, changed.2, id⟩
    · simp only [ImplicitProducer.takeFirst, entry, Slot.load, there, movedOut, emptied, last,
        Option.bind_eq_bind, Option.bind_some, decide_false]
      rfl
    · intro block old new
      rw [next] at old
      exact holds.owned block old new
    · intro block old new
      rw [next] at old
      rcases Nat.eq_or_lt_of_le old with rfl | after
      · exact ⟨block', set_there there block', partly last⟩
      · obtain ⟨there', found, apart, filled⟩ := later block after new
        exact ⟨there', by rw [set_elsewhere apart, found], filled⟩

theorem wrapSub_zero (w n : Nat) : wrapSub w (word w n) 0 = word w n := by
  rw [wrapSub, Nat.sub_zero, Nat.add_mod_right]
  exact Nat.mod_mod _ _

theorem Holds.below {blocks : List (Block T)}
    (holds : Holds w blocks owner number p items place head past)
    (quiet : head + items.length ≤ blockSize * past) : items.length < 2 ^ (w - 1) := by
  have range := holds.range
  omega

theorem Holds.dequeue (bits : 10 ≤ w)
    (holds : Holds w pool.blocks owner number p items place head past)
    (quiet : past = (head + items.length + 31) / blockSize) (spare : Spare pool owner free) :
    match items with
    | [] => p.dequeue w pool = some (none, pool, p)
    | first :: rest => ∃ pool' p' owner' free',
        p.dequeue w pool = some (some first, pool', p') ∧
          Holds w pool'.blocks owner' number p' rest place (head + 1) past ∧
            Spare pool' owner' free' ∧ Apart number pool owner pool' owner' ∧
              (p.index.blockIndex.isSome → p'.index.blockIndex.isSome) := by
  have positive : 0 < w := by omega
  have size : blockSize = 32 := rfl
  have below := holds.below (by rw [quiet, size]; omega)
  have half := half_range positive
  have order := circularLessThan_ahead positive head (d := items.length) (by omega)
  have count : wrapSub w p.dequeueOptimisticCount p.dequeueOvercommit = word w head := by
    rw [holds.optimistic, holds.overcommit, wrapSub_zero]
  cases items with
  | nil =>
    show p.dequeue w pool = _
    rw [ImplicitProducer.dequeue, if_neg]
    rw [count, holds.tailIndex, order]
    exact fun pair => Nat.lt_irrefl _ pair.1
  | cons first rest =>
    have divides : blockSize ∣ 2 ^ w := Nat.pow_dvd_pow 2 (Nat.le_trans (by decide) bits : 5 ≤ w)
    have used : head / blockSize < past := by
      rw [quiet, size, List.length_cons]
      omega
    obtain ⟨pool', p', owner', free', taken, rest⟩ := holds.takeFirst divides used spare
    refine ⟨pool', p', owner', free', ?_, rest⟩
    have less : circularLessThan w (word w head) p.tailIndex = true := by
      rw [holds.tailIndex]
      exact order.mpr ⟨Nat.succ_pos _, below⟩
    simp only [ImplicitProducer.dequeue, count, less, if_true, taken, Option.bind_eq_bind,
      Option.bind_some]

/-! ## A new block -/

theorem Filled.reset {block : Block T} (refs : block.freeListRefs = 0) (raw : block.Raw)
    (boundary : blockSize * number = head + items.length) :
    Filled block.resetEmpty head items number := by
  refine ⟨refs, ?_, ?_, ?_⟩
  · show 0 = _
    split
    · next same =>
      have whole := Nat.div_add_mod head blockSize
      rw [same] at boundary
      omega
    · rfl
  · show block.elements.length = blockSize
    rw [raw, List.length_replicate]
  · intro cell below
    show block.elements[cell]? = _
    rw [raw, List.getElem?_replicate, if_pos below, content]
    split
    · rw [List.getElem?_eq_none (by omega)]
    · rfl

/-- A block that came from a pool is the one behind the last. -/
theorem Holds.extend {pool' : Pool T} {index : BlockIndex} {pointer : Nat} {block : Block T}
    (holds : Holds w pool.blocks owner number p items place head past)
    (boundary : blockSize * past = head + items.length)
    (range : items.length + blockSize < 2 ^ (w - 1))
    (taken : Requisitioned pool pool' owner number pointer)
    (there : pool'.blocks[pointer]? = some block) (refs : block.freeListRefs = 0)
    (raw : block.Raw)
    (keeps : Keeps w index (head / blockSize) (past - head / blockSize + 1)
      (Function.update place past pointer)) :
    Holds w (pool'.blocks.set pointer block.resetEmpty)
      (Function.update owner pointer (.producer number)) number
      { p with index := index, tailBlock := some pointer } items
      (Function.update place past pointer) head (past + 1) := by
  have order := holds.order
  have apart : ∀ block, head / blockSize ≤ block → block < past → place block ≠ pointer := by
    rintro block old new rfl
    obtain ⟨there, found, -⟩ := holds.filled block old new
    rcases taken.fresh with absent | unowned
    · rw [absent] at found
      cases found
    · exact unowned number (holds.owned block old new)
  have here : ∀ block, block < past → Function.update place past pointer block = place block :=
    fun block new => Function.update_of_ne (Nat.ne_of_lt new) _ _
  have last : Function.update place past pointer past = pointer := Function.update_self ..
  refine ⟨holds.headIndex, holds.tailIndex, holds.optimistic, holds.overcommit,
    Nat.le_succ_of_le order, ?_, ?_, ?_, ?_, ?_, fun _ => ?_⟩
  · rw [Nat.mul_succ]
    omega
  · have count : past + 1 - head / blockSize = past - head / blockSize + 1 := by omega
    rw [count]
    exact keeps
  · intro block old new
    rcases Nat.eq_or_lt_of_le (Nat.le_of_lt_succ new) with rfl | new
    · rw [last, Function.update_self]
    · rw [here block new, Function.update_of_ne (apart block old new)]
      exact holds.owned block old new
  · intro block other old new old' new' same
    rcases Nat.eq_or_lt_of_le (Nat.le_of_lt_succ new) with rfl | new <;>
      rcases Nat.eq_or_lt_of_le (Nat.le_of_lt_succ new') with rfl | new'
    · rfl
    · rw [last, here other new'] at same
      exact absurd same.symm (apart other old' new')
    · rw [last, here block new] at same
      exact absurd same (apart block old new)
    · rw [here block new, here other new'] at same
      exact holds.injective block other old new old' new' same
  · intro other old new
    rcases Nat.eq_or_lt_of_le (Nat.le_of_lt_succ new) with rfl | new
    · rw [last]
      exact ⟨_, set_there there _, .reset refs raw boundary⟩
    · obtain ⟨there', found, filled⟩ := holds.filled other old new
      have different := apart other old new
      rw [here other new]
      exact ⟨there', by rw [set_elsewhere different, taken.others _ different, found], filled⟩
  · rw [Nat.add_sub_cancel, last]

def Refusable (w : Nat) (memory : Memory) (p : ImplicitProducer) (length : Nat) : Prop :=
  memory.index = false ∨ memory.block = false ∨ p.index.blockIndex = none ∨
    2 ^ (w - 1) ≤ length + blockSize

theorem Holds.startBlock (bits : 10 ≤ w)
    (holds : Holds w pool.blocks owner number p items place head past)
    (boundary : blockSize * past = head + items.length) (spare : Spare pool owner free)
    (memory : Memory) :
    ∃ ok pool' p' owner' free' place', p.startBlock w memory pool = some (ok, pool', p') ∧
      Holds w pool'.blocks owner' number p' items place' head (if ok then past + 1 else past) ∧
        Spare pool' owner' free' ∧ Apart number pool owner pool' owner' ∧
          (p.index.blockIndex.isSome → p'.index.blockIndex.isSome) ∧
            (ok = false → Refusable w memory p items.length) := by
  have positive : 0 < w := by omega
  have half := half_range positive
  have size : blockSize = 32 := rfl
  have order := holds.order
  have below := holds.below (Nat.le_of_eq boundary.symm)
  have block : blockSize ≤ 2 ^ (w - 1) :=
    Nat.pow_le_pow_right Nat.two_pos (by omega : 5 ≤ w - 1)
  have asserted : circularLessThan w p.tailIndex p.headIndex = false := by
    rw [holds.tailIndex, holds.headIndex]
    exact circularLessThan_behind positive head (Nat.le_of_lt below)
  have room : circularLessThan w p.headIndex (wrapAdd w p.tailIndex blockSize) = true ↔
      0 < items.length + blockSize ∧ items.length + blockSize < 2 ^ (w - 1) := by
    rw [holds.tailIndex, holds.headIndex, wrapAdd_word, Nat.add_assoc]
    exact circularLessThan_ahead positive head (by omega)
  by_cases range : items.length + blockSize < 2 ^ (w - 1)
  · have less := room.mpr ⟨by omega, range⟩
    have first : head / blockSize + (past - head / blockSize) = past := by omega
    have key : p.tailIndex =
        word w (blockSize * (head / blockSize + (past - head / blockSize))) := by
      rw [first, boundary, holds.tailIndex]
    have bound : 2 * (blockSize * (past - head / blockSize)) < 2 ^ w := by
      rw [size] at boundary range ⊢
      omega
    rcases insertBlockIndexEntry_spec holds.index bound memory.index with
      ⟨refused, reason⟩ | ⟨position, index, header, inserted, reserved⟩
    · rw [← key] at refused
      refine ⟨false, pool, p, owner, free, place, ?_, holds, spare, .rfl, id, fun _ => ?_⟩
      · simp only [ImplicitProducer.startBlock, asserted, less, refused, Option.bind_eq_bind,
          Option.bind_some]
        rfl
      · rcases reason with short | absent
        · exact .inl short
        · exact .inr (.inr (.inl absent))
    · rw [← key] at inserted
      rcases spare.requisition memory.block number with
        ⟨none, short⟩ | ⟨pointer, pool', found, taken⟩
      · obtain ⟨rewound, index', rewinding, stored, keeps, present⟩ := reserved.rewind
        refine ⟨false, pool, { p with index := index' }, owner, free, place, ?_, ?_, spare, .rfl,
          fun _ => present, fun _ => .inr (.inl short)⟩
        · simp only [ImplicitProducer.startBlock, asserted, less, inserted, none, rewinding,
            stored, Option.bind_eq_bind, Option.bind_some]
          rfl
        · exact ⟨holds.headIndex, holds.tailIndex, holds.optimistic, holds.overcommit,
            holds.order, holds.range, keeps, holds.owned, holds.injective, holds.filled,
            holds.tailBlock⟩
      · obtain ⟨index', stored, keeps, present⟩ := reserved.push pointer
        obtain ⟨block, there, refs, raw⟩ := taken.block
        obtain ⟨free', spare'⟩ := taken.spare
        have owned : Function.update owner pointer (.producer number) pointer =
            .producer number := Function.update_self ..
        rw [first] at keeps
        have changed := change_owned owned spare' block.resetEmpty
        refine ⟨true, { pool' with blocks := pool'.blocks.set pointer block.resetEmpty },
          { p with index := index', tailBlock := some pointer }, _, free', _, ?_,
          holds.extend boundary range taken there refs raw keeps, changed.1, ?_,
          fun _ => present, nofun⟩
        · simp only [ImplicitProducer.startBlock, asserted, less, inserted, found,
            Pool.at_some there, stored, Option.bind_eq_bind, Option.bind_some]
          rfl
        · refine .trans ?_ changed.2
          intro other theirs kept different owned' held
          have apart : other ≠ pointer := by
            rintro rfl
            rcases taken.fresh with absent | unowned
            · rw [absent] at held
              cases held
            · exact unowned theirs owned'
          rw [taken.others _ apart, Function.update_of_ne apart]
          exact ⟨held, owned'⟩
  · have full : circularLessThan w p.headIndex (wrapAdd w p.tailIndex blockSize) = false := by
      rw [← Bool.not_eq_true, room]
      omega
    refine ⟨false, pool, p, owner, free, place, ?_, holds, spare, .rfl, id,
      fun _ => .inr (.inr (.inr (by omega)))⟩
    simp only [ImplicitProducer.startBlock, asserted, full]
    rfl

theorem Holds.enqueue (bits : 10 ≤ w)
    (holds : Holds w pool.blocks owner number p items place head past)
    (quiet : past = (head + items.length + 31) / blockSize) (spare : Spare pool owner free)
    (memory : Memory) (element : T) :
    ∃ ok pool' p' owner' free' place' past',
      p.enqueue w memory element pool = some (ok, pool', p') ∧
        Holds w pool'.blocks owner' number p' (if ok then items ++ [element] else items) place'
          head past' ∧
        past' = (head + (if ok then items ++ [element] else items).length + 31) / blockSize ∧
          Spare pool' owner' free' ∧ Apart number pool owner pool' owner' ∧
            (p.index.blockIndex.isSome → p'.index.blockIndex.isSome) ∧
              (ok = false → Refusable w memory p items.length) := by
  have size : blockSize = 32 := rfl
  have divides : blockSize ∣ 2 ^ w := Nat.pow_dvd_pow 2 (Nat.le_trans (by decide) bits : 5 ≤ w)
  have grown : (items ++ [element]).length = items.length + 1 := by
    rw [List.length_append, List.length_singleton]
  have masked : p.tailIndex &&& (blockSize - 1) = (head + items.length) % blockSize := by
    rw [holds.tailIndex, word_mod_blockSize divides]
  by_cases boundary : (head + items.length) % blockSize = 0
  · have whole : blockSize * past = head + items.length := by
      rw [size] at boundary quiet ⊢
      omega
    obtain ⟨ok, pool₁, p₁, owner₁, free₁, place₁, started, holds₁, spare₁, apart₁, present₁,
      refusable⟩ := holds.startBlock bits whole spare memory
    cases ok with
    | false =>
      refine ⟨false, pool₁, p₁, owner₁, free₁, place₁, past, ?_, holds₁, quiet, spare₁, apart₁,
        present₁, refusable⟩
      simp only [ImplicitProducer.enqueue, masked, boundary, if_true, started,
        Option.bind_eq_bind, Option.bind_some]
      rfl
    | true =>
      have room : past + 1 = (head + items.length) / blockSize + 1 := by
        rw [size] at whole ⊢
        omega
      obtain ⟨pool₂, p₂, appended, holds₂, spare₂, apart₂, same⟩ :=
        holds₁.append divides room spare₁ element
      refine ⟨true, pool₂, p₂, owner₁, free₁, place₁, past + 1, ?_, holds₂, ?_, spare₂,
        apart₁.trans apart₂, fun some => ?_, nofun⟩
      · simp only [ImplicitProducer.enqueue, masked, boundary, if_true, started, appended,
          Option.bind_eq_bind, Option.bind_some]
      · rw [if_pos rfl, grown]
        rw [size] at whole ⊢
        omega
      · rw [same]
        exact present₁ some
  · have room : past = (head + items.length) / blockSize + 1 := by
      rw [size] at boundary quiet ⊢
      omega
    obtain ⟨pool', p', appended, holds', spare', apart', same⟩ :=
      holds.append divides room spare element
    refine ⟨true, pool', p', owner, free, place, past, ?_, holds', ?_, spare', apart',
      fun some => ?_, nofun⟩
    · simp only [ImplicitProducer.enqueue, masked, boundary, if_false, if_true, appended,
        Option.bind_eq_bind, Option.bind_some]
    · rw [if_pos rfl, grown]
      rw [size] at boundary room ⊢
      omega
    · rw [same]
      exact some

end Producer

end BinanceNativeApp.Queue
