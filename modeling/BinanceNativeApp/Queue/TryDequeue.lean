import BinanceNativeApp.Queue.ImplicitProducer

/-!
# The queue

Every thread that enqueues has a producer of its own, found through a hash
table of thread ids that is not modelled further; no thread ends while the
queue is there.  `try_dequeue` looks at the producers from the newest one on.
-/

set_option autoImplicit false

namespace BinanceNativeApp.Queue

open BinanceNativeApp.Library.Circular

variable {T : Type}

/-! ## The functions -/

/-- The producers, each with the thread it belongs to, in the order in which
they were added; a pointer to one is its place. -/
structure ConcurrentQueue (T : Type) where
  pool : Pool T
  producers : List (Nat × ImplicitProducer)

def concurrentQueue (available : Bool) (capacity : Nat) : ConcurrentQueue T where
  pool := populateInitialBlockList available
    (capacity / blockSize + if capacity &&& (blockSize - 1) = 0 then 0 else 1)
  producers := []

def getOrAddImplicitProducer (w : Nat) (memory : Memory) (id : Nat) (q : ConcurrentQueue T) :
    Option (Option Nat × ConcurrentQueue T) :=
  match q.producers.findIdx? fun entry => entry.1 == id with
  | some producer => some (some producer, q)
  | none =>
      if memory.hash ∧ memory.producer then do
        let producer ← newImplicitProducer w memory.index
        some (some q.producers.length, { q with producers := q.producers ++ [(id, producer)] })
      else some (none, q)

/-- `id` is the thread that calls. -/
def enqueue (w : Nat) (memory : Memory) (id : Nat) (element : T) (q : ConcurrentQueue T) :
    Option (Bool × ConcurrentQueue T) := do
  let (producer, q) ← getOrAddImplicitProducer w memory id q
  match producer with
  | none => some (false, q)
  | some producer => do
      let (id, p) ← q.producers[producer]?
      let (ok, pool, p) ← p.enqueue w memory element q.pool
      some (ok, ⟨pool, q.producers.set producer (id, p)⟩)

/-- `nonEmptyCount`, `best` and `bestSize`. -/
structure Scores where
  nonEmptyCount : Nat
  best : Option Nat
  bestSize : Nat

/-- The first loop of `try_dequeue`; `left` producers have not been looked at. -/
def score (w : Nat) (producers : List (Nat × ImplicitProducer)) :
    Nat → Scores → Option Scores
  | 0, scores => some scores
  | left + 1, scores =>
      if scores.nonEmptyCount < 3 then do
        let (_, ptr) ← producers[left]?
        let size := ptr.sizeApprox w
        if 0 < size then
          if scores.bestSize < size then
            score w producers left ⟨scores.nonEmptyCount + 1, some left, size⟩
          else score w producers left { scores with nonEmptyCount := scores.nonEmptyCount + 1 }
        else score w producers left scores
      else some scores

def dequeueFrom (w : Nat) (ptr : Nat) (q : ConcurrentQueue T) :
    Option (Option T × ConcurrentQueue T) := do
  let (id, p) ← q.producers[ptr]?
  let (item, pool, p) ← p.dequeue w q.pool
  some (item, ⟨pool, q.producers.set ptr (id, p)⟩)

/-- The second loop. -/
def dequeueOthers (w : Nat) (best : Nat) :
    Nat → ConcurrentQueue T → Option (Option T × ConcurrentQueue T)
  | 0, q => some (none, q)
  | left + 1, q =>
      if left ≠ best then do
        let (item, q) ← dequeueFrom w left q
        match item with
        | some item => some (some item, q)
        | none => dequeueOthers w best left q
      else dequeueOthers w best left q

def tryDequeue (w : Nat) (q : ConcurrentQueue T) : Option (Option T × ConcurrentQueue T) := do
  let scores ← score w q.producers q.producers.length ⟨0, none, 0⟩
  if 0 < scores.nonEmptyCount then
    let best ← scores.best
    let (item, q) ← dequeueFrom w best q
    match item with
    | some item => some (some item, q)
    | none => dequeueOthers w best q.producers.length q
  else some (none, q)

/-! ## One list for every thread -/

/-- A producer between two calls. -/
def Quiet (w : Nat) (blocks : List (Block T)) (owner : Nat → Owner) (number : Nat)
    (p : ImplicitProducer) (items : List T) : Prop :=
  ∃ place head past, past = (head + items.length + 31) / blockSize ∧
    Holds w blocks owner number p items place head past

structure Arranged (w : Nat) (q : ConcurrentQueue T) (streams : Nat → List T)
    (owner : Nat → Owner) (free : List Nat) : Prop where
  spare : Spare q.pool owner free
  threads : (q.producers.map Prod.fst).Nodup
  strangers : ∀ id, id ∉ q.producers.map Prod.fst → streams id = []
  quiet : ∀ number id p, q.producers[number]? = some (id, p) →
    Quiet w q.pool.blocks owner number p (streams id)

/-- The queue holds the elements `streams id` of every thread, oldest first. -/
def Represents (w : Nat) (q : ConcurrentQueue T) (streams : Nat → List T) : Prop :=
  ∃ owner free, Arranged w q streams owner free

def Equipped (q : ConcurrentQueue T) : Prop :=
  ∀ entry ∈ q.producers, entry.2.index.blockIndex.isSome

def Memory.Enough (memory : Memory) : Prop :=
  memory.hash = true ∧ memory.producer = true ∧ memory.index = true ∧ memory.block = true

section Queue
variable {w : Nat} {q : ConcurrentQueue T} {streams : Nat → List T} {owner : Nat → Owner}
  {free : List Nat}

theorem getElem?_map_fst {producers : List (Nat × ImplicitProducer)} {number id : Nat}
    {p : ImplicitProducer} (there : producers[number]? = some (id, p)) :
    (producers.map Prod.fst)[number]? = some id := by
  rw [List.getElem?_map, there]
  rfl

theorem Arranged.same_thread (arranged : Arranged w q streams owner free) {number other id : Nat}
    {p p' : ImplicitProducer} (first : q.producers[number]? = some (id, p))
    (second : q.producers[other]? = some (id, p')) : number = other := by
  have inside : number < (q.producers.map Prod.fst).length := by
    rw [List.length_map]
    exact (List.getElem?_eq_some_iff.mp first).1
  refine (List.getElem?_inj inside arranged.threads).mp ?_
  rw [getElem?_map_fst first, getElem?_map_fst second]

theorem Arranged.update (arranged : Arranged w q streams owner free) {number id : Nat}
    {p p' : ImplicitProducer} {pool' : Pool T} {owner' : Nat → Owner} {free' : List Nat}
    {items : List T} (there : q.producers[number]? = some (id, p))
    (spare : Spare pool' owner' free') (apart : Apart number q.pool owner pool' owner')
    (quiet : Quiet w pool'.blocks owner' number p' items) :
    Arranged w ⟨pool', q.producers.set number (id, p')⟩ (Function.update streams id items) owner'
      free' := by
  obtain ⟨inside, -⟩ := List.getElem?_eq_some_iff.mp there
  have named := getElem?_map_fst there
  have names : (q.producers.set number (id, p')).map Prod.fst = q.producers.map Prod.fst := by
    obtain ⟨here, same⟩ := List.getElem?_eq_some_iff.mp named
    rw [List.map_set]
    exact same ▸ List.set_getElem_self here
  refine ⟨spare, ?_, ?_, ?_⟩
  · rw [names]
    exact arranged.threads
  · intro other absent
    rw [names] at absent
    have different : other ≠ id := by
      rintro rfl
      exact absent (List.mem_of_getElem? named)
    rw [Function.update_of_ne different]
    exact arranged.strangers other absent
  · intro other id' found same
    change (q.producers.set number (id, p'))[other]? = _ at same
    by_cases self : number = other
    · subst self
      rw [List.getElem?_set_self inside] at same
      cases same
      rw [Function.update_self]
      exact quiet
    · rw [List.getElem?_set_ne self] at same
      have different : id' ≠ id := by
        rintro rfl
        exact self (arranged.same_thread there same)
      rw [Function.update_of_ne different]
      obtain ⟨place, head, past, last, holds⟩ := arranged.quiet other id' found same
      refine ⟨place, head, past, last, holds.congr fun block old new there held => ?_⟩
      have owned := holds.owned block old new
      obtain ⟨kept, theirs⟩ := apart _ other there (Ne.symm self) owned held
      exact ⟨kept, by rw [theirs, owned]⟩

theorem newImplicitProducer_holds (bits : 10 ≤ w) (available : Bool) :
    ∃ p, newImplicitProducer w available = some p ∧
      p.index.blockIndex.isSome = available ∧
        ∀ (blocks : List (Block T)) owner number,
          Holds w blocks owner number p [] (fun _ => 0) 0 0 := by
  obtain ⟨index, made, keeps, present⟩ := newBlockIndex_initial bits available fun _ => 0
  refine ⟨⟨0, 0, 0, 0, none, index⟩, ?_, present, fun blocks owner number => ?_⟩
  · simp only [newImplicitProducer, made, Option.bind_eq_bind, Option.bind_some]
  · have zero : word w 0 = 0 := Nat.zero_mod _
    refine ⟨zero.symm, zero.symm, zero.symm, rfl, Nat.le_refl _, ?_, keeps, ?_, ?_, ?_, ?_⟩
    · rw [Nat.mul_zero, Nat.zero_add]
      exact Nat.two_pow_pos _
    · intro block _ none
      exact absurd none (Nat.not_lt_zero _)
    · intro block _ _ none
      exact absurd none (Nat.not_lt_zero _)
    · intro block _ none
      exact absurd none (Nat.not_lt_zero _)
    · intro none
      exact absurd none (Nat.not_lt_zero _)

theorem newImplicitProducer_spec (bits : 10 ≤ w) (available : Bool) :
    ∃ p, newImplicitProducer w available = some p ∧
      p.index.blockIndex.isSome = available ∧
        ∀ (blocks : List (Block T)) owner number, Quiet w blocks owner number p [] := by
  obtain ⟨p, made, present, holds⟩ := newImplicitProducer_holds (T := T) bits available
  have past : 0 = (0 + 0 + 31) / blockSize := by decide
  exact ⟨p, made, present, fun blocks owner number =>
    ⟨fun _ => 0, 0, 0, past, holds blocks owner number⟩⟩

/-- The thread's producer is there, or is made; its list is what it was. -/
theorem Arranged.getOrAdd (bits : 10 ≤ w) (arranged : Arranged w q streams owner free)
    (memory : Memory) (id : Nat) :
    getOrAddImplicitProducer w memory id q = some (none, q) ∧
        ¬(memory.hash = true ∧ memory.producer = true) ∨
      ∃ number q' p, getOrAddImplicitProducer w memory id q = some (some number, q') ∧
        q'.producers[number]? = some (id, p) ∧ Arranged w q' streams owner free ∧
          (memory.index = true → Equipped q → Equipped q') := by
  rw [getOrAddImplicitProducer]
  cases found : q.producers.findIdx? fun entry => entry.1 == id with
  | some number =>
    obtain ⟨inside, same, -⟩ := List.findIdx?_eq_some_iff_getElem.mp found
    have same : q.producers[number].1 = id := eq_of_beq same
    refine .inr ⟨number, q, q.producers[number].2, rfl, ?_, arranged, fun _ equipped => equipped⟩
    rw [List.getElem?_eq_getElem inside, ← same]
  | none =>
    have stranger : id ∉ q.producers.map Prod.fst := by
      intro known
      obtain ⟨entry, inside, same⟩ := List.mem_map.mp known
      have other := List.findIdx?_eq_none_iff.mp found entry inside
      rw [same, beq_self_eq_true] at other
      cases other
    by_cases memories : memory.hash = true ∧ memory.producer = true
    · obtain ⟨p, made, present, quiet⟩ := newImplicitProducer_spec (T := T) bits memory.index
      refine .inr ⟨q.producers.length, ⟨q.pool, q.producers ++ [(id, p)]⟩, p, ?_,
        List.getElem?_concat_length, ⟨arranged.spare, ?_, ?_, ?_⟩, ?_⟩
      · simp only [if_pos memories, made, Option.bind_eq_bind, Option.bind_some]
      · rw [List.map_append, List.nodup_append]
        refine ⟨arranged.threads, List.nodup_singleton _, ?_⟩
        intro other known new singleton same
        rw [same, List.mem_singleton.mp singleton] at known
        exact stranger known
      · intro other absent
        rw [List.map_append] at absent
        exact arranged.strangers other fun known => absent (List.mem_append_left _ known)
      · intro number other p' there
        change (q.producers ++ [(id, p)])[number]? = _ at there
        by_cases old : number < q.producers.length
        · rw [List.getElem?_append_left old] at there
          exact arranged.quiet number other p' there
        · have last : number = q.producers.length := by
            have inside := (List.getElem?_eq_some_iff.mp there).1
            rw [List.length_append, List.length_singleton] at inside
            omega
          rw [last, List.getElem?_concat_length] at there
          cases there
          rw [arranged.strangers id stranger]
          exact quiet _ _ _
      · intro available equipped entry known
        rcases List.mem_append.mp known with old | new
        · exact equipped entry old
        · rw [List.mem_singleton.mp new]
          exact present.trans available
    · exact .inl ⟨if_neg memories, memories⟩

/-- Refused, the element leaves the lists as they are. -/
theorem Represents.enqueue (bits : 10 ≤ w) (represents : Represents w q streams) (memory : Memory)
    (id : Nat) (element : T) :
    ∃ ok q', enqueue w memory id element q = some (ok, q') ∧
      Represents w q'
        (if ok then Function.update streams id (streams id ++ [element]) else streams) ∧
        (memory.Enough → Equipped q → Equipped q' ∧
          (ok = false → 2 ^ (w - 1) ≤ (streams id).length + blockSize)) := by
  obtain ⟨owner, free, arranged⟩ := represents
  rcases arranged.getOrAdd bits memory id with
    ⟨absent, short⟩ | ⟨number, q₁, p, found, there, arranged₁, equipped₁⟩
  · refine ⟨false, q, ?_, ⟨owner, free, arranged⟩, fun enough _ => ?_⟩
    · simp only [Queue.enqueue, absent, Option.bind_eq_bind, Option.bind_some]
    · exact absurd ⟨enough.1, enough.2.1⟩ short
  · obtain ⟨place, head, past, quiet, holds⟩ := arranged₁.quiet number id p there
    obtain ⟨ok, pool', p', owner', free', place', past', done, holds', quiet', spare', apart,
      present, refusable⟩ := holds.enqueue bits quiet arranged₁.spare memory element
    have arranged' := arranged₁.update there spare' apart ⟨place', head, past', quiet', holds'⟩
    refine ⟨ok, ⟨pool', q₁.producers.set number (id, p')⟩, ?_, ⟨owner', free', ?_⟩,
      fun enough equipped => ⟨?_, fun refused => ?_⟩⟩
    · simp only [Queue.enqueue, found, there, done, Option.bind_eq_bind, Option.bind_some]
    · cases ok with
      | true => exact arranged'
      | false =>
        rw [if_neg Bool.false_ne_true, Function.update_eq_self] at arranged'
        exact arranged'
    · intro entry known
      rcases List.mem_or_eq_of_mem_set known with old | new
      · exact equipped₁ enough.2.2.1 equipped entry old
      · rw [new]
        exact present (equipped₁ enough.2.2.1 equipped _ (List.mem_of_getElem? there))
    · have equipped' := equipped₁ enough.2.2.1 equipped _ (List.mem_of_getElem? there)
      rcases refusable refused with short | short | absent | range
      · rw [enough.2.2.1] at short
        cases short
      · rw [enough.2.2.2] at short
        cases short
      · rw [absent] at equipped'
        cases equipped'
      · exact range

/-! ## Taking an element out -/

theorem Quiet.sizeApprox (bits : 10 ≤ w) {blocks : List (Block T)} {number : Nat}
    {p : ImplicitProducer} {items : List T} (quiet : Quiet w blocks owner number p items) :
    p.sizeApprox w = items.length := by
  obtain ⟨place, head, past, last, holds⟩ := quiet
  have positive : 0 < w := by omega
  have half := half_range positive
  have size : blockSize = 32 := rfl
  have below := holds.below (by rw [last, size]; omega)
  have order := circularLessThan_ahead positive head (d := items.length) (by omega)
  rw [ImplicitProducer.sizeApprox, holds.headIndex, holds.tailIndex]
  split
  · rw [wrapSub_ahead, word_of_lt (by omega)]
  · next less =>
    rw [order] at less
    omega

structure Scored (w : Nat) (producers : List (Nat × ImplicitProducer)) (left : Nat)
    (scores : Scores) : Prop where
  none : scores.nonEmptyCount = 0 → scores.bestSize = 0 ∧
    ∀ number entry, left ≤ number → producers[number]? = some entry → entry.2.sizeApprox w = 0
  some : 0 < scores.nonEmptyCount → ∃ best entry, scores.best = some best ∧
    producers[best]? = some entry ∧ entry.2.sizeApprox w = scores.bestSize ∧ 0 < scores.bestSize

theorem score_spec {producers : List (Nat × ImplicitProducer)} :
    ∀ {left : Nat} {scores : Scores}, left ≤ producers.length → Scored w producers left scores →
      ∃ scores', score w producers left scores = some scores' ∧ Scored w producers 0 scores' := by
  intro left
  induction left with
  | zero =>
    intro scores _ scored
    exact ⟨scores, rfl, scored⟩
  | succ left after =>
    intro scores inside scored
    rw [score]
    split
    · have there := List.getElem?_eq_getElem (l := producers) inside
      generalize producers[left] = entry at there
      obtain ⟨id, ptr⟩ := entry
      have known : ∀ number entry, left ≤ number → producers[number]? = .some entry →
          number = left ∧ entry = (id, ptr) ∨ left + 1 ≤ number := by
        intro number entry behind found
        rcases Nat.eq_or_lt_of_le behind with rfl | further
        · rw [there] at found
          exact .inl ⟨rfl, (Option.some.inj found).symm⟩
        · exact .inr further
      simp only [there, Option.bind_eq_bind, Option.bind_some]
      split
      · next counted =>
        split
        · next better =>
          refine after (Nat.le_of_lt inside) ⟨nofun, fun _ => ?_⟩
          exact ⟨left, (id, ptr), rfl, there, rfl, counted⟩
        · next worse =>
          refine after (Nat.le_of_lt inside) ⟨nofun, fun _ => ?_⟩
          rcases Nat.eq_zero_or_pos scores.nonEmptyCount with zero | some
          · have none := (scored.none zero).1
            omega
          · exact scored.some some
      · next empty =>
        refine after (Nat.le_of_lt inside) ⟨fun zero => ⟨(scored.none zero).1, ?_⟩, scored.some⟩
        intro number entry behind found
        rcases known number entry behind found with ⟨rfl, rfl⟩ | further
        · exact Nat.eq_zero_of_not_pos empty
        · exact (scored.none zero).2 number entry further found
    · next enough =>
      refine ⟨scores, rfl, fun zero => ?_, scored.some⟩
      omega

theorem Arranged.dequeueFrom (bits : 10 ≤ w) (arranged : Arranged w q streams owner free)
    {number id : Nat} {p : ImplicitProducer} {first : T} {rest : List T}
    (there : q.producers[number]? = some (id, p)) (held : streams id = first :: rest) :
    ∃ q', dequeueFrom w number q = some (some first, q') ∧
      Represents w q' (Function.update streams id rest) ∧ (Equipped q → Equipped q') := by
  obtain ⟨place, head, past, quiet, holds⟩ := arranged.quiet number id p there
  rw [held] at quiet holds
  obtain ⟨pool', p', owner', free', taken, holds', spare', apart, present⟩ :=
    holds.dequeue bits quiet arranged.spare
  have quiet' : past = (head + 1 + rest.length + 31) / blockSize := by
    rw [quiet, List.length_cons]
    congr 1
    omega
  refine ⟨⟨pool', q.producers.set number (id, p')⟩, ?_,
    ⟨owner', free', arranged.update there spare' apart ⟨place, head + 1, past, quiet', holds'⟩⟩,
    fun equipped entry known => ?_⟩
  · simp only [Queue.dequeueFrom, there, taken, Option.bind_eq_bind, Option.bind_some]
  · rcases List.mem_or_eq_of_mem_set known with old | new
    · exact equipped entry old
    · rw [new]
      exact present (equipped _ (List.mem_of_getElem? there))

/-- An element comes out unless there is none at all, and it is the oldest of
its thread. -/
theorem Represents.tryDequeue (bits : 10 ≤ w) (represents : Represents w q streams) :
    tryDequeue w q = some (none, q) ∧ (∀ id, streams id = []) ∨
      ∃ first q' id rest, tryDequeue w q = some (some first, q') ∧
        streams id = first :: rest ∧ Represents w q' (Function.update streams id rest) ∧
          (Equipped q → Equipped q') := by
  obtain ⟨owner, free, arranged⟩ := represents
  have start : Scored w q.producers q.producers.length ⟨0, none, 0⟩ := by
    refine ⟨fun _ => ⟨rfl, fun number entry past there => ?_⟩, nofun⟩
    rw [List.getElem?_eq_none past] at there
    cases there
  obtain ⟨scores, scored, final⟩ := score_spec (Nat.le_refl _) start
  rcases Nat.eq_zero_or_pos scores.nonEmptyCount with zero | some
  · refine .inl ⟨?_, fun id => ?_⟩
    · simp only [Queue.tryDequeue, scored, zero, Option.bind_eq_bind, Option.bind_some]
      rfl
    · by_cases known : id ∈ q.producers.map Prod.fst
      · obtain ⟨⟨_, p⟩, inside, rfl⟩ := List.mem_map.mp known
        obtain ⟨number, there⟩ := List.mem_iff_getElem?.mp inside
        have size := (final.none zero).2 number _ (Nat.zero_le _) there
        rw [(arranged.quiet number _ p there).sizeApprox bits] at size
        exact List.eq_nil_of_length_eq_zero size
      · exact arranged.strangers id known
  · obtain ⟨best, ⟨id, p⟩, chosen, there, size, positive⟩ := final.some some
    rw [(arranged.quiet best id p there).sizeApprox bits] at size
    obtain ⟨first, rest, held⟩ := List.exists_cons_of_length_pos (size ▸ positive)
    obtain ⟨q', taken, represents', equipped⟩ := arranged.dequeueFrom bits there held
    refine .inr ⟨first, q', id, rest, ?_, held, represents', equipped⟩
    simp only [Queue.tryDequeue, scored, some, if_true, chosen, taken, Option.bind_eq_bind,
      Option.bind_some]

end Queue

theorem represents_constructed (w : Nat) (available : Bool) (capacity : Nat) :
    Represents w (concurrentQueue (T := T) available capacity) fun _ => [] :=
  ⟨_, _, spare_populated available _, List.nodup_nil, fun _ _ => rfl, nofun⟩

end BinanceNativeApp.Queue
