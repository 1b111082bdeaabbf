import BinanceNativeApp.Library.Circular

/-!
# The block index of an `ImplicitProducer`

The blocks of a producer are found through a ring of entries: `key` is the
index of the first element of a block, `value` the pointer to the block.  A new
block takes the entry behind the tail; where that one is still in use the ring
is turned and doubled.  An older ring, which only other threads may still look
at, is not kept here.  `none` is what must not happen: a pointer that points to
nothing, a value that was never written, an assertion of the source that fails.
-/

set_option autoImplicit false

namespace BinanceNativeApp.Queue

open BinanceNativeApp.Library.Circular

/-! ## The functions -/

def blockSize : Nat := 32

def invalidBlockBase : Nat := 1

def implicitInitialIndexSize : Nat := 32

/-- What a pointer in memory can be; `unset` is one that was never written. -/
inductive Slot where
  | unset
  | null
  | block (pointer : Nat)
  deriving DecidableEq

/-- There is no loading of a value that was never written. -/
def Slot.load : Slot → Option (Option Nat)
  | .unset => none
  | .null => some none
  | .block pointer => some (some pointer)

structure BlockIndexEntry where
  key : Nat
  value : Slot
  deriving DecidableEq

structure BlockIndexHeader where
  capacity : Nat
  tail : Nat
  index : List BlockIndexEntry
  deriving DecidableEq

/-- The two members of `ImplicitProducer`. -/
structure BlockIndex where
  nextBlockIndexCapacity : Nat
  blockIndex : Option BlockIndexHeader
  deriving DecidableEq

/-- The entries from behind `prevPos` up to the one at the tail.  Every round
takes one of them, so that `capacity` rounds are enough. -/
def copyIndex (prev : BlockIndexHeader) : Nat → Nat → List BlockIndexEntry
  | 0, _ => []
  | rounds + 1, prevPos =>
      let prevPos := (prevPos + 1) &&& (prev.capacity - 1)
      prev.index.getD prevPos ⟨invalidBlockBase, .unset⟩ ::
        if prevPos ≠ prev.tail then copyIndex prev rounds prevPos else []

/-- `available` says whether the memory for the new index is there. -/
def newBlockIndex (w : Nat) (available : Bool) (s : BlockIndex) : Option (Bool × BlockIndex) :=
  let prevCapacity := match s.blockIndex with
    | none => 0
    | some prev => prev.capacity
  let entryCount := match s.blockIndex with
    | none => s.nextBlockIndexCapacity
    | some _ => prevCapacity
  let copied := match s.blockIndex with
    | none => []
    | some prev => copyIndex prev prev.capacity prev.tail
  if available then
    if copied.length = prevCapacity then
      some (true,
        { nextBlockIndexCapacity := wrapAdd w s.nextBlockIndexCapacity s.nextBlockIndexCapacity
          blockIndex := some
            { capacity := s.nextBlockIndexCapacity
              tail := wrapSub w prevCapacity 1 &&& (s.nextBlockIndexCapacity - 1)
              index := copied ++ List.replicate entryCount ⟨invalidBlockBase, .unset⟩ } })
    else none
  else some (false, s)

def BlockIndexHeader.newTail (header : BlockIndexHeader) : Nat :=
  (header.tail + 1) &&& (header.capacity - 1)

def BlockIndexHeader.occupy (header : BlockIndexHeader) (blockStartIndex : Nat) :
    BlockIndexHeader :=
  { header with
    tail := header.newTail
    index := header.index.modify header.newTail fun entry => { entry with key := blockStartIndex } }

/-- `idxEntry` comes back as a position in the ring. -/
def insertBlockIndexEntry (w : Nat) (available : Bool) (blockStartIndex : Nat) (s : BlockIndex) :
    Option (Option Nat × BlockIndex) :=
  match s.blockIndex with
  | none => some (none, s)
  | some header => do
      let idxEntry ← header.index[header.newTail]?
      let vacant ←
        if idxEntry.key = invalidBlockBase then some true
        else idxEntry.value.load.map fun value => value.isNone
      if vacant then
        some (some header.newTail, { s with blockIndex := some (header.occupy blockStartIndex) })
      else
        let (allocated, s) ← newBlockIndex w available s
        if allocated then
          let header ← s.blockIndex
          let idxEntry ← header.index[header.newTail]?
          if idxEntry.key = invalidBlockBase then
            some (some header.newTail,
              { s with blockIndex := some (header.occupy blockStartIndex) })
          else none
        else some (none, s)

def rewindBlockIndexTail (w : Nat) (s : BlockIndex) : Option BlockIndex := do
  let header ← s.blockIndex
  let tail := wrapSub w header.tail 1 &&& (header.capacity - 1)
  some { s with blockIndex := some { header with tail := tail } }

/-- `value.store` of an entry of the ring. -/
def storeEntry (position : Nat) (value : Slot) (s : BlockIndex) : Option BlockIndex := do
  let header ← s.blockIndex
  let _ ← header.index[position]?
  let index := header.index.modify position fun entry => { entry with value := value }
  some { s with blockIndex := some { header with index := index } }

/-- The position of the entry, and the entry.  The division is one of unsigned
numbers: `BLOCK_SIZE` is of type `size_t`. -/
def getBlockIndexIndexForIndex (w index : Nat) (header : BlockIndexHeader) :
    Option (Nat × BlockIndexEntry) := do
  let index := index - (index &&& (blockSize - 1))
  let tailBase ← header.index[header.tail]?
  if tailBase.key = invalidBlockBase then none
  else
    let offset := wrapSub w index tailBase.key / blockSize
    let idx := wrapAdd w header.tail offset &&& (header.capacity - 1)
    let entry ← header.index[idx]?
    let value ← entry.value.load
    if entry.key = index ∧ value.isSome then some (idx, entry) else none

def getBlockIndexEntryForIndex (w index : Nat) (s : BlockIndex) :
    Option (Nat × BlockIndexEntry) := do
  let header ← s.blockIndex
  getBlockIndexIndexForIndex w index header

/-! ## What the ring holds -/

/-- The entry can be taken for a new block. -/
def Vacant (entry : BlockIndexEntry) : Prop :=
  entry.key = invalidBlockBase ∨ entry.value = .null

/-- The blocks `first, …, first + count - 1` stand in front of the tail, the
newest at the tail; `place` tells where they are. -/
structure Indexed (w : Nat) (header : BlockIndexHeader) (first count : Nat)
    (place : Nat → Nat) : Prop where
  power : ∃ bits, header.capacity = 2 ^ bits
  range : header.capacity * blockSize ∣ 2 ^ w
  length : header.index.length = header.capacity
  tail : header.tail < header.capacity
  fits : count ≤ header.capacity
  live : ∀ j, j < count →
    header.index[behind header.capacity header.tail j]? =
      some ⟨word w (blockSize * (first + count - 1 - j)), .block (place (first + count - 1 - j))⟩
  vacant : ∀ j, count ≤ j → j < header.capacity →
    ∃ entry, header.index[behind header.capacity header.tail j]? = some entry ∧ Vacant entry

theorem and_capacity {header : BlockIndexHeader} (power : ∃ bits, header.capacity = 2 ^ bits)
    (n : Nat) : n &&& (header.capacity - 1) = n % header.capacity := by
  obtain ⟨bits, same⟩ := power
  rw [same]
  exact Nat.and_two_pow_sub_one_eq_mod n bits

theorem and_blockSize (n : Nat) : n &&& (blockSize - 1) = n % blockSize :=
  Nat.and_two_pow_sub_one_eq_mod n 5

section Ring
variable {w first count : Nat} {place : Nat → Nat} {header : BlockIndexHeader}

theorem Indexed.positive (indexed : Indexed w header first count place) :
    0 < header.capacity := by
  obtain ⟨bits, same⟩ := indexed.power
  rw [same]
  exact Nat.two_pow_pos bits

theorem Indexed.newTail (indexed : Indexed w header first count place) :
    header.newTail = behind header.capacity header.tail (header.capacity - 1) := by
  rw [BlockIndexHeader.newTail, and_capacity indexed.power, behind_last indexed.positive]

theorem blockSize_dvd {capacity : Nat} (range : capacity * blockSize ∣ 2 ^ w) :
    blockSize ∣ 2 ^ w :=
  Nat.dvd_trans (Nat.dvd_mul_left blockSize capacity) range

theorem base_ne_invalid (divides : blockSize ∣ 2 ^ w) (block : Nat) :
    word w (blockSize * block) ≠ invalidBlockBase := by
  have multiple : word w (blockSize * block) % blockSize = 0 := by
    rw [word, Nat.mod_mod_of_dvd _ divides, Nat.mul_mod_right]
  intro same
  rw [same] at multiple
  cases multiple

/-! ## Looking up -/

theorem word_block (divides : blockSize ∣ 2 ^ w) (n : Nat) :
    word w n - word w n % blockSize = word w (blockSize * (n / blockSize)) := by
  have low : word w n % blockSize = n % blockSize := Nat.mod_mod_of_dvd _ divides
  obtain ⟨blocks, same⟩ := divides
  rw [low, word, word, same, Nat.mod_mul, Nat.mul_mod_mul_left, Nat.add_sub_cancel_left]

theorem places_back {capacity blocks tail j : Nat} (whole : capacity ∣ blocks)
    (turned : 0 < blocks) (inside : j < capacity) :
    (tail + (blocks - j) % blocks) % capacity = behind capacity tail j := by
  have positive : 0 < capacity := by omega
  rw [behind, Nat.add_mod, Nat.mod_mod_of_dvd _ whole, ← Nat.add_mod]
  obtain ⟨turns, rfl⟩ := whole
  obtain ⟨rest, rfl⟩ : ∃ rest, turns = rest + 1 := Nat.exists_eq_succ_of_ne_zero (by
    rintro rfl
    omega)
  have sum : tail + (capacity * (rest + 1) - j) = tail + (capacity - j) + capacity * rest := by
    rw [Nat.mul_succ]
    omega
  rw [sum, Nat.add_mul_mod_self_left]

theorem getBlockIndexIndexForIndex_eq (indexed : Indexed w header first count place) {j n : Nat}
    (inside : j < count) (there : n / blockSize = first + count - 1 - j) :
    getBlockIndexIndexForIndex w (word w n) header =
      some (behind header.capacity header.tail j,
        ⟨word w (blockSize * (n / blockSize)), .block (place (n / blockSize))⟩) := by
  have divides := blockSize_dvd indexed.range
  have fits := indexed.fits
  have base := indexed.live 0 (by omega)
  rw [behind_zero indexed.tail, Nat.sub_zero] at base
  obtain ⟨turns, range⟩ := indexed.range
  have blocks : 2 ^ w = blockSize * (header.capacity * turns) := by
    rw [range, Nat.mul_comm header.capacity, Nat.mul_assoc]
  have turned : 0 < header.capacity * turns := by
    have positive := Nat.two_pow_pos w
    rw [blocks] at positive
    exact Nat.pos_of_mul_pos_left positive
  have ahead : header.capacity ≤ header.capacity * turns :=
    Nat.le_of_dvd turned (Nat.dvd_mul_right _ _)
  have newest : blockSize * (first + count - 1) = blockSize * (n / blockSize) + blockSize * j := by
    rw [there, ← Nat.mul_add]
    congr 1
    omega
  have offset : wrapSub w (word w (blockSize * (n / blockSize)))
      (word w (blockSize * (first + count - 1))) / blockSize =
        (header.capacity * turns - j) % (header.capacity * turns) := by
    rw [newest, wrapSub_behind, word, blocks, ← Nat.mul_sub, Nat.mul_mod_mul_left,
      Nat.mul_div_cancel_left _ (by decide)]
    rw [blocks]
    exact Nat.mul_le_mul_left _ (by omega)
  have idx : wrapAdd w header.tail ((header.capacity * turns - j) % (header.capacity * turns)) &&&
      (header.capacity - 1) = behind header.capacity header.tail j := by
    rw [and_capacity indexed.power, wrapAdd, blocks,
      Nat.mod_mod_of_dvd _ (Nat.dvd_trans (Nat.dvd_mul_right _ _) (Nat.dvd_mul_left _ _))]
    exact places_back (Nat.dvd_mul_right _ _) turned (by omega)
  have entry := indexed.live j inside
  rw [← there] at entry
  rw [getBlockIndexIndexForIndex, and_blockSize, word_block divides]
  simp only [base, Option.bind_eq_bind, Option.bind_some, if_neg (base_ne_invalid divides _),
    offset, idx, entry, Slot.load, Option.isSome_some, and_self, if_true]

/-! ## A new entry -/

theorem insertBlockIndexEntry_room (indexed : Indexed w header first count place)
    (room : count < header.capacity) (available : Bool) (blockStartIndex next : Nat) :
    insertBlockIndexEntry w available blockStartIndex ⟨next, some header⟩ =
      some (some header.newTail, ⟨next, some (header.occupy blockStartIndex)⟩) := by
  obtain ⟨entry, there, vacant⟩ :=
    indexed.vacant (header.capacity - 1) (by omega) (by omega)
  rw [← indexed.newTail] at there
  simp only [insertBlockIndexEntry, there, Option.bind_eq_bind, Option.bind_some]
  rcases vacant with invalid | freed
  · rw [if_pos invalid]
    rfl
  · rw [freed]
    split <;> rfl

def BlockIndexHeader.grown (header : BlockIndexHeader) : BlockIndexHeader where
  capacity := 2 * header.capacity
  tail := header.capacity - 1
  index := header.index.rotate (header.tail + 1) ++
    List.replicate header.capacity ⟨invalidBlockBase, .unset⟩

/-- Turned so that the tail comes last, and as much again of new entries. -/
theorem copyIndex_eq (indexed : Indexed w header first count place) :
    ∀ rounds i, i + rounds = header.capacity → 0 < rounds →
      copyIndex header rounds ((header.tail + i) % header.capacity) =
        (header.index.rotate (header.tail + 1)).drop i := by
  have length : (header.index.rotate (header.tail + 1)).length = header.capacity := by
    rw [List.length_rotate, indexed.length]
  have inside := indexed.tail
  intro rounds
  induction rounds with
  | zero => intro i _ none; omega
  | succ rounds after =>
    intro i sum _
    have next : ((header.tail + i) % header.capacity + 1) &&& (header.capacity - 1) =
        (header.tail + (i + 1)) % header.capacity := by
      rw [and_capacity indexed.power, Nat.mod_add_mod, Nat.add_assoc]
    have here : i < (header.index.rotate (header.tail + 1)).length := by omega
    have entry : header.index[(header.tail + (i + 1)) % header.capacity]? =
        some (header.index.rotate (header.tail + 1))[i] := by
      rw [← List.getElem?_eq_getElem here, List.getElem?_rotate (by rw [indexed.length]; omega),
        indexed.length]
      congr 2
      omega
    have more : (header.tail + (i + 1)) % header.capacity ≠ header.tail ↔ 0 < rounds := by
      have back := behind_injective inside (j := header.capacity - (i + 1)) (k := 0)
      rw [behind_zero inside, behind] at back
      rcases Nat.eq_zero_or_pos rounds with rfl | left
      · have whole : i + 1 = header.capacity := by omega
        rw [whole, Nat.add_mod_right, Nat.mod_eq_of_lt inside]
        omega
      · refine iff_of_true ?_ left
        intro same
        have sum : header.capacity - (header.capacity - (i + 1)) = i + 1 := by omega
        rw [sum] at back
        have none := back (by omega) (by omega) same
        omega
    rw [copyIndex, next, List.getD_eq_getElem?_getD, entry, List.drop_eq_getElem_cons here,
      Option.getD_some]
    simp only [more]
    congr 1
    split
    · exact after (i + 1) (by omega) ‹_›
    · exact (List.drop_eq_nil_of_le (by omega)).symm

/-- Where the ring is full its double takes the blocks over in their order. -/
theorem newBlockIndex_eq (indexed : Indexed w header first count place)
    (room : 4 * header.capacity < 2 ^ w) (available : Bool) :
    newBlockIndex w available ⟨2 * header.capacity, some header⟩ =
      if available then some (true, ⟨4 * header.capacity, some header.grown⟩)
      else some (false, ⟨2 * header.capacity, some header⟩) := by
  have positive := indexed.positive
  have copied := copyIndex_eq indexed header.capacity 0 (by omega) positive
  rw [Nat.add_zero, Nat.mod_eq_of_lt indexed.tail, List.drop_zero] at copied
  have twice : wrapAdd w (2 * header.capacity) (2 * header.capacity) = 4 * header.capacity := by
    rw [wrapAdd, Nat.mod_eq_of_lt (by omega)]
    omega
  have last : wrapSub w header.capacity 1 &&& (2 * header.capacity - 1) = header.capacity - 1 := by
    obtain ⟨bits, same⟩ := indexed.power
    have double : 2 * header.capacity = 2 ^ (bits + 1) := by rw [same, Nat.pow_succ']
    have less : wrapSub w header.capacity 1 = header.capacity - 1 := by
      have sum : header.capacity + (2 ^ w - 1) = header.capacity - 1 + 2 ^ w := by omega
      rw [wrapSub, sum, Nat.add_mod_right, Nat.mod_eq_of_lt (by omega)]
    rw [less, double, Nat.and_two_pow_sub_one_eq_mod, ← double, Nat.mod_eq_of_lt (by omega)]
  simp only [newBlockIndex, copied, twice, last, List.length_rotate, indexed.length, if_true]
  rfl

theorem Indexed.grown_new (indexed : Indexed w header first count place) {j : Nat}
    (new : header.capacity ≤ j) (inside : j < 2 * header.capacity) :
    header.grown.index[behind header.grown.capacity header.grown.tail j]? =
      some ⟨invalidBlockBase, .unset⟩ := by
  have place : behind (2 * header.capacity) (header.capacity - 1) j =
      3 * header.capacity - 1 - j := by
    rw [behind, Nat.mod_eq_of_lt (by omega)]
    omega
  have turns : (header.index.rotate (header.tail + 1)).length = header.capacity := by
    rw [List.length_rotate, indexed.length]
  rw [BlockIndexHeader.grown, place, List.getElem?_append_right (by omega), turns,
    List.getElem?_replicate, if_pos (by omega)]

theorem Indexed.grown (indexed : Indexed w header first count place)
    (range : 2 * header.capacity * blockSize ∣ 2 ^ w) :
    Indexed w header.grown first count place := by
  have positive := indexed.positive
  have length := indexed.length
  have fits := indexed.fits
  have turned : ∀ j, j < header.capacity →
      header.grown.index[behind header.grown.capacity header.grown.tail j]? =
        header.index[behind header.capacity header.tail j]? := by
    intro j inside
    have place :
        behind (2 * header.capacity) (header.capacity - 1) j = header.capacity - 1 - j := by
      have sum : header.capacity - 1 + (2 * header.capacity - j) =
          header.capacity - 1 - j + 2 * header.capacity := by omega
      rw [behind, sum, Nat.add_mod_right, Nat.mod_eq_of_lt (by omega)]
    rw [BlockIndexHeader.grown, place, List.getElem?_append_left
      (by rw [List.length_rotate]; omega), rotate_behind length inside]
  refine ⟨?_, range, ?_, ?_, ?_, ?_, ?_⟩
  · obtain ⟨bits, same⟩ := indexed.power
    exact ⟨bits + 1, by rw [Nat.pow_succ', ← same]; rfl⟩
  · have sum : (header.index.rotate (header.tail + 1) ++ List.replicate header.capacity
        (⟨invalidBlockBase, .unset⟩ : BlockIndexEntry)).length = 2 * header.capacity := by
      rw [List.length_append, List.length_rotate, List.length_replicate]
      omega
    exact sum
  · show header.capacity - 1 < 2 * header.capacity
    omega
  · show count ≤ 2 * header.capacity
    omega
  · intro j inside
    rw [turned j (by omega)]
    exact indexed.live j inside
  · intro j past inside
    by_cases old : j < header.capacity
    · rw [turned j old]
      exact indexed.vacant j past old
    · exact ⟨⟨invalidBlockBase, .unset⟩, indexed.grown_new (by omega) inside, .inl rfl⟩

/-! ## Occupying, releasing -/

/-- An entry has been taken and has its key; its value is not the block yet. -/
structure Reserved (w : Nat) (s : BlockIndex) (position first count : Nat) (place : Nat → Nat)
    (header : BlockIndexHeader) : Prop where
  state : s = ⟨2 * header.capacity, some (header.occupy (word w (blockSize * (first + count))))⟩
  position : position = header.newTail
  indexed : Indexed w header first count place
  room : count < header.capacity

/-- The index of a producer that has the blocks `first, …, first + count - 1`. -/
def Keeps (w : Nat) (s : BlockIndex) (first count : Nat) (place : Nat → Nat) : Prop :=
  match s.blockIndex with
  | none => count = 0
  | some header =>
      s.nextBlockIndexCapacity = 2 * header.capacity ∧ Indexed w header first count place

theorem insertBlockIndexEntry_full (indexed : Indexed w header first count place)
    (full : count = header.capacity) (range : 2 * header.capacity * blockSize ∣ 2 ^ w)
    (available : Bool) (blockStartIndex : Nat) :
    insertBlockIndexEntry w available blockStartIndex ⟨2 * header.capacity, some header⟩ =
      if available then some (some header.grown.newTail,
        ⟨2 * header.grown.capacity, some (header.grown.occupy blockStartIndex)⟩)
      else some (none, ⟨2 * header.capacity, some header⟩) := by
  have positive := indexed.positive
  have below := Nat.le_of_dvd (Nat.two_pow_pos w) range
  have room : 4 * header.capacity < 2 ^ w := by
    have size : blockSize = 32 := rfl
    rw [size] at below
    omega
  have oldest := indexed.live (header.capacity - 1) (by omega)
  rw [← indexed.newTail] at oldest
  have there : header.grown.index[header.grown.newTail]? = some ⟨invalidBlockBase, .unset⟩ := by
    rw [(indexed.grown range).newTail]
    exact indexed.grown_new (j := 2 * header.capacity - 1) (by omega) (by omega)
  have double : 4 * header.capacity = 2 * header.grown.capacity := by
    show 4 * header.capacity = 2 * (2 * header.capacity)
    omega
  simp only [insertBlockIndexEntry, oldest, Option.bind_eq_bind, Option.bind_some,
    if_neg (base_ne_invalid (blockSize_dvd indexed.range) _), Slot.load, Option.map_some,
    Option.isNone_some, newBlockIndex_eq indexed room]
  cases available with
  | false => rfl
  | true =>
    simp only [if_true, Option.bind_some, there, double]
    rfl

theorem insertBlockIndexEntry_spec {s : BlockIndex} (keeps : Keeps w s first count place)
    (bound : 2 * (blockSize * count) < 2 ^ w) (available : Bool) :
    insertBlockIndexEntry w available (word w (blockSize * (first + count))) s = some (none, s) ∧
        (available = false ∨ s.blockIndex = none) ∨
      ∃ position s' header,
        insertBlockIndexEntry w available (word w (blockSize * (first + count))) s =
          some (some position, s') ∧ Reserved w s' position first count place header := by
  obtain ⟨next, none | header⟩ := s
  · exact .inl ⟨rfl, .inr rfl⟩
  · obtain ⟨rfl, indexed⟩ := keeps
    by_cases room : count < header.capacity
    · exact .inr ⟨_, _, header, insertBlockIndexEntry_room indexed room available _ _,
        rfl, rfl, indexed, room⟩
    · have positive := indexed.positive
      have full : count = header.capacity := Nat.le_antisymm indexed.fits (by omega)
      have range : 2 * header.capacity * blockSize ∣ 2 ^ w := by
        obtain ⟨bits, same⟩ := indexed.power
        have size : 2 * header.capacity * blockSize = 2 ^ (bits + 6) := by
          rw [same, Nat.pow_add, Nat.mul_comm 2, Nat.mul_assoc]
          rfl
        rw [size]
        refine Nat.pow_dvd_pow 2 (Nat.le_of_lt ((Nat.pow_lt_pow_iff_right Nat.one_lt_two).mp ?_))
        rw [← size, ← full, Nat.mul_comm _ blockSize, Nat.mul_left_comm]
        exact bound
      have inserted := insertBlockIndexEntry_full indexed full range available
        (word w (blockSize * (first + count)))
      cases available with
      | false => exact .inl ⟨inserted, .inl rfl⟩
      | true =>
        refine .inr ⟨_, _, header.grown, inserted, rfl, rfl, indexed.grown range, ?_⟩
        show count < 2 * header.capacity
        omega

/-! ## The value of the new entry -/

def BlockIndexHeader.settled (header : BlockIndexHeader) (key : Nat) (value : Slot) :
    List BlockIndexEntry :=
  (header.occupy key).index.modify header.newTail fun entry => { entry with value := value }

theorem Indexed.occupied (indexed : Indexed w header first count place) (key : Nat) :
    ∃ entry, (header.occupy key).index[header.newTail]? = some entry := by
  have inside : header.newTail < (header.occupy key).index.length := by
    rw [BlockIndexHeader.occupy, List.length_modify, indexed.length, indexed.newTail]
    exact behind_lt indexed.positive _ _
  exact ⟨_, List.getElem?_eq_getElem inside⟩

theorem Indexed.settled_new (indexed : Indexed w header first count place) (key : Nat)
    (value : Slot) : (header.settled key value)[header.newTail]? = some ⟨key, value⟩ := by
  have inside : header.newTail < header.index.length := by
    rw [indexed.newTail, indexed.length]
    exact behind_lt indexed.positive _ _
  rw [BlockIndexHeader.settled, BlockIndexHeader.occupy, List.getElem?_modify_eq,
    List.getElem?_modify_eq, List.getElem?_eq_getElem inside]
  rfl

theorem Indexed.settled_old (indexed : Indexed w header first count place) (key : Nat)
    (value : Slot) {j : Nat} (inside : j + 1 < header.capacity) :
    (header.settled key value)[behind header.capacity header.tail j]? =
      header.index[behind header.capacity header.tail j]? := by
  have other : header.newTail ≠ behind header.capacity header.tail j := by
    rw [indexed.newTail]
    intro same
    have last := behind_injective indexed.tail (by omega) (by omega) same
    omega
  rw [BlockIndexHeader.settled, BlockIndexHeader.occupy, List.getElem?_modify_ne _ _ other,
    List.getElem?_modify_ne _ _ other]

theorem Indexed.settled_length (indexed : Indexed w header first count place) (key : Nat)
    (value : Slot) : (header.settled key value).length = header.capacity := by
  rw [BlockIndexHeader.settled, BlockIndexHeader.occupy, List.length_modify, List.length_modify,
    indexed.length]

theorem Indexed.tail_of_newTail (indexed : Indexed w header first count place) :
    wrapSub w header.newTail 1 &&& (header.capacity - 1) = header.tail := by
  have positive := indexed.positive
  have inside := indexed.tail
  obtain ⟨turns, range⟩ := Nat.dvd_trans (Nat.dvd_mul_right _ _) indexed.range
  have whole : header.capacity ≤ 2 ^ w :=
    Nat.le_of_dvd (Nat.two_pow_pos w) ⟨turns, range⟩
  rw [and_capacity indexed.power, BlockIndexHeader.newTail, and_capacity indexed.power, wrapSub,
    Nat.mod_mod_of_dvd _ ⟨turns, range⟩, Nat.mod_add_mod]
  have sum : header.tail + 1 + (2 ^ w - 1) = header.tail + header.capacity * turns := by omega
  rw [sum, Nat.add_mul_mod_self_left, Nat.mod_eq_of_lt inside]

section Entries
variable {s : BlockIndex} {position : Nat}

theorem Reserved.push (reserved : Reserved w s position first count place header)
    (pointer : Nat) :
    ∃ s', storeEntry position (.block pointer) s = some s' ∧
      Keeps w s' first (count + 1) (Function.update place (first + count) pointer) ∧
        s'.blockIndex.isSome := by
  obtain ⟨rfl, rfl, indexed, room⟩ := reserved
  have positive := indexed.positive
  obtain ⟨entry, there⟩ := indexed.occupied (word w (blockSize * (first + count)))
  refine ⟨⟨2 * header.capacity, some ⟨header.capacity, header.newTail,
    header.settled (word w (blockSize * (first + count))) (.block pointer)⟩⟩, ?_, ?_, rfl⟩
  · simp only [storeEntry, Option.bind_eq_bind, Option.bind_some, there]
    rfl
  · have next : header.newTail = (header.tail + 1) % header.capacity := by
      rw [BlockIndexHeader.newTail, and_capacity indexed.power]
    have inside : header.newTail < header.capacity := by
      rw [next]
      exact Nat.mod_lt _ positive
    refine ⟨rfl, indexed.power, indexed.range, indexed.settled_length _ _, inside, room, ?_, ?_⟩
    · intro j there
      cases j with
      | zero =>
        rw [behind_zero inside, indexed.settled_new]
        have newest : first + (count + 1) - 1 - 0 = first + count := by omega
        rw [newest, Function.update_self]
      | succ j =>
        have older : first + (count + 1) - 1 - (j + 1) = first + count - 1 - j := by omega
        have other : first + count - 1 - j ≠ first + count := by omega
        rw [older, Function.update_of_ne other, next,
          behind_succ (by omega : j < header.capacity), indexed.settled_old _ _ (by omega)]
        exact indexed.live j (by omega)
    · intro j past there
      obtain ⟨j, rfl⟩ : ∃ before, j = before + 1 := Nat.exists_eq_succ_of_ne_zero (by omega)
      have inside : j < header.capacity := Nat.lt_of_succ_lt there
      rw [next, behind_succ inside, indexed.settled_old _ _ there]
      exact indexed.vacant j (by omega) inside

theorem Reserved.rewind (reserved : Reserved w s position first count place header) :
    ∃ rewound s', rewindBlockIndexTail w s = some rewound ∧
      storeEntry position .null rewound = some s' ∧ Keeps w s' first count place ∧
        s'.blockIndex.isSome := by
  obtain ⟨rfl, rfl, indexed, room⟩ := reserved
  have positive := indexed.positive
  have before : wrapSub w header.newTail 1 &&& (header.capacity - 1) = header.tail :=
    indexed.tail_of_newTail
  have there := indexed.settled_new (word w (blockSize * (first + count))) .null
  obtain ⟨entry, found⟩ := indexed.occupied (word w (blockSize * (first + count)))
  refine ⟨_, ⟨2 * header.capacity, some ⟨header.capacity, header.tail,
    header.settled (word w (blockSize * (first + count))) .null⟩⟩, rfl, ?_, ?_, rfl⟩
  · simp only [storeEntry, Option.bind_eq_bind, Option.bind_some, found]
    rw [← before]
    rfl
  · refine ⟨rfl, indexed.power, indexed.range, indexed.settled_length _ _, indexed.tail,
      indexed.fits, ?_, ?_⟩
    · intro j inside
      have old := indexed.settled_old (word w (blockSize * (first + count))) .null (j := j)
        (by omega)
      rw [old]
      exact indexed.live j inside
    · intro j past inside
      by_cases last : j + 1 < header.capacity
      · have old := indexed.settled_old (word w (blockSize * (first + count))) .null last
        rw [old]
        exact indexed.vacant j past inside
      · have taken : behind header.capacity header.tail j = header.newTail := by
          rw [indexed.newTail]
          congr 1
          exact Nat.le_antisymm (Nat.le_sub_one_of_lt inside) (by omega)
        rw [taken]
        exact ⟨_, there, .inr rfl⟩

/-! ## A block in use -/

theorem Keeps.present (keeps : Keeps w s first count place) (some : 0 < count) :
    s.blockIndex.isSome := by
  obtain ⟨next, none | header⟩ := s
  · change count = 0 at keeps
    omega
  · rfl

theorem Keeps.lookup (keeps : Keeps w s first count place) {n : Nat}
    (old : first ≤ n / blockSize) (new : n / blockSize < first + count) :
    ∃ position, getBlockIndexEntryForIndex w (word w n) s =
        some (position,
          ⟨word w (blockSize * (n / blockSize)), .block (place (n / blockSize))⟩) ∧
      (n / blockSize = first → ∃ s', storeEntry position .null s = some s' ∧
        Keeps w s' (first + 1) (count - 1) place ∧ s'.blockIndex.isSome) := by
  obtain ⟨next, none | header⟩ := s
  · change count = 0 at keeps
    omega
  · obtain ⟨rfl, indexed⟩ := keeps
    have fits := indexed.fits
    obtain ⟨j, inside, there⟩ :
        ∃ j, j < count ∧ n / blockSize = first + count - 1 - j :=
      ⟨first + count - 1 - n / blockSize, by omega, by omega⟩
    have entry := indexed.live j inside
    rw [← there] at entry
    refine ⟨behind header.capacity header.tail j, ?_, ?_⟩
    · exact getBlockIndexIndexForIndex_eq indexed inside there
    · intro oldest
      have last : j = count - 1 := by omega
      refine ⟨⟨2 * header.capacity, some ⟨header.capacity, header.tail,
        header.index.modify (behind header.capacity header.tail j)
          fun entry => { entry with value := .null }⟩⟩, ?_, ?_, rfl⟩
      · simp only [storeEntry, Option.bind_eq_bind, Option.bind_some, entry]
      · refine ⟨rfl, indexed.power, indexed.range, ?_, indexed.tail, ?_, ?_, ?_⟩
        · show (header.index.modify _ _).length = header.capacity
          rw [List.length_modify, indexed.length]
        · show count - 1 ≤ header.capacity
          omega
        · intro i before
          have other : behind header.capacity header.tail j ≠
              behind header.capacity header.tail i := by
            intro same
            have equal := behind_injective indexed.tail (by omega) (by omega) same
            omega
          have block : first + 1 + (count - 1) - 1 - i = first + count - 1 - i := by omega
          rw [block]
          show (header.index.modify _ _)[behind header.capacity header.tail i]? = _
          rw [List.getElem?_modify_ne _ _ other]
          exact indexed.live i (by omega)
        · intro i past inside
          show ∃ entry, (header.index.modify _ _)[behind header.capacity header.tail i]? =
            some entry ∧ Vacant entry
          by_cases same : i = j
          · rw [same, List.getElem?_modify_eq, entry]
            exact ⟨_, rfl, .inr rfl⟩
          · have other : behind header.capacity header.tail j ≠
                behind header.capacity header.tail i := by
              intro equal
              exact same (behind_injective indexed.tail (by omega) inside equal).symm
            rw [List.getElem?_modify_ne _ _ other]
            exact indexed.vacant i (by omega) inside

end Entries

/-! ## The first index -/

theorem newBlockIndex_initial (bits : 10 ≤ w) (available : Bool) (place : Nat → Nat) :
    ∃ s, newBlockIndex w available ⟨implicitInitialIndexSize, none⟩ = some (available, s) ∧
      Keeps w s 0 0 place ∧ s.blockIndex.isSome = available := by
  cases available with
  | false => exact ⟨_, rfl, rfl, rfl⟩
  | true =>
    have range : (1024 : Nat) ∣ 2 ^ w := Nat.pow_dvd_pow 2 bits
    have size : 1024 ≤ 2 ^ w := Nat.le_of_dvd (Nat.two_pow_pos w) range
    have next : wrapAdd w implicitInitialIndexSize implicitInitialIndexSize = 64 := by
      rw [wrapAdd, implicitInitialIndexSize, Nat.mod_eq_of_lt (by omega)]
    have last : wrapSub w 0 1 &&& (implicitInitialIndexSize - 1) = 31 := by
      rw [wrapSub, Nat.zero_add, Nat.mod_eq_of_lt (by omega), implicitInitialIndexSize,
        Nat.and_two_pow_sub_one_eq_mod _ 5]
      omega
    refine ⟨⟨64, some ⟨32, 31, List.replicate 32 ⟨invalidBlockBase, .unset⟩⟩⟩, ?_, ?_, rfl⟩
    · simp only [newBlockIndex, next, last]
      rfl
    · refine ⟨rfl, ⟨5, rfl⟩, range, List.length_replicate, by decide, Nat.zero_le _, ?_, ?_⟩
      · intro j none
        omega
      · intro j _ inside
        refine ⟨⟨invalidBlockBase, .unset⟩, ?_, .inl rfl⟩
        show (List.replicate 32 (⟨invalidBlockBase, .unset⟩ : BlockIndexEntry))[_]? = _
        rw [List.getElem?_replicate, if_pos (behind_lt (by decide) _ _)]

end Ring

end BinanceNativeApp.Queue
