import BinanceNativeApp.Queue.Releases
import BinanceNativeApp.Queue.Runs

/-!
# Calls of a producer one after the other

`ImplicitProducer.enqueue` and `ImplicitProducer.dequeue` are what the accesses
of the threads come to when no other thread is at work in between.
-/

set_option autoImplicit false

namespace BinanceNativeApp.Queue.Releases

open BinanceNativeApp.Library.Circular
open BinanceNativeApp.Library.Transition
open BinanceNativeApp.Queue.Dequeuers (Label)

variable {Thread T : Type}

/-! ## A producer in shared memory -/

/-- The block that an index leads to. -/
def blockOf (w : Nat) (pool : Pool T) (p : ImplicitProducer) (index : Nat) : Option (Block T) := do
  let (_, entry) ← getBlockIndexEntryForIndex w index p.index
  let pointer ← entry.value.load
  let pointer ← pointer
  pool.blocks[pointer]?

/-- The counters, the cells of the blocks and what is counted in these. -/
structure Shares (w : Nat) (pool : Pool T) (p : ImplicitProducer) (s : State Thread T) : Prop where
  tailIndex : s.queue.tailIndex = p.tailIndex
  headIndex : s.queue.headIndex = p.headIndex
  dequeueOptimisticCount : s.queue.dequeueOptimisticCount = p.dequeueOptimisticCount
  dequeueOvercommit : s.queue.dequeueOvercommit = p.dequeueOvercommit
  cells : ∀ index, p.headIndex / blockSize ≤ index / blockSize →
    index / blockSize < (p.tailIndex + 31) / blockSize →
      ∃ block, blockOf w pool p index = some block ∧
        block.elements[index &&& (blockSize - 1)]? = some (s.queue.elements index) ∧
        block.elementsCompletelyDequeued = s.elementsCompletelyDequeued (index / blockSize)

/-- The elements from `head` on are `items`, and no call goes on. -/
structure Stands (s : State Thread T) (head : Nat) (items : List T) : Prop where
  tailIndex : s.queue.tailIndex = head + items.length
  headIndex : s.queue.headIndex = head
  optimistic : s.queue.dequeueOptimisticCount = head
  overcommit : s.queue.dequeueOvercommit = 0
  elements : ∀ index, s.queue.elements index = content head items index
  counts : ∀ number, s.elementsCompletelyDequeued number =
    min blockSize (head - blockSize * number)
  constructed : s.queue.constructed = false
  resting : Resting s

section Memory
variable {w head past number : Nat} {items : List T} {pool : Pool T} {owner : Nat → Owner}
  {place : Nat → Nat} {p : ImplicitProducer} {s : State Thread T}

theorem blockOf_eq (holds : Holds w pool.blocks owner number p items place head past) {n : Nat}
    (old : head / blockSize ≤ n / blockSize) (new : n / blockSize < past) :
    ∃ block, blockOf w pool p (word w n) = some block ∧
      Filled block head items (n / blockSize) := by
  obtain ⟨position, entry, -⟩ := holds.index.lookup old (by omega)
  obtain ⟨block, there, filled⟩ := holds.filled _ old new
  refine ⟨block, ?_, filled⟩
  simp only [blockOf, entry, Slot.load, there, Option.bind_eq_bind, Option.bind_some]

theorem counted_eq (head number : Nat) (old : head / blockSize ≤ number) :
    (if number = head / blockSize then head % blockSize else 0) =
      min blockSize (head - blockSize * number) := by
  have size : blockSize = 32 := rfl
  rw [size] at old ⊢
  split <;> omega

theorem Stands.shares (stands : Stands s head items)
    (holds : Holds w pool.blocks owner number p items place head past)
    (quiet : past = (head + items.length + 31) / blockSize)
    (short : head + items.length + blockSize ≤ 2 ^ w) : Shares w pool p s := by
  have size : blockSize = 32 := rfl
  have tail : p.tailIndex = head + items.length := by
    rw [holds.tailIndex, word_of_lt (by omega)]
  have first : p.headIndex = head := by
    rw [holds.headIndex, word_of_lt (by omega)]
  refine ⟨?_, ?_, ?_, ?_, fun index old new => ?_⟩
  · rw [stands.tailIndex, tail]
  · rw [stands.headIndex, first]
  · rw [stands.optimistic, holds.optimistic, word_of_lt (by omega)]
  · rw [stands.overcommit, holds.overcommit]
  · rw [first] at old
    rw [tail, ← quiet] at new
    have small : index < 2 ^ w := by
      rw [size] at quiet new short
      omega
    obtain ⟨block, there, filled⟩ := blockOf_eq holds old new
    rw [word_of_lt small] at there
    refine ⟨block, there, ?_, ?_⟩
    · rw [and_blockSize, filled.cells _ (Nat.mod_lt _ (by decide)), Nat.div_add_mod,
        stands.elements]
    · rw [filled.dequeued, stands.counts, counted_eq head _ old]

end Memory

/-! ## Accesses with nothing in between -/

def Passes [DecidableEq Thread] (w : Nat) (s : State Thread T) (labels : List (Label Thread T))
    (events : List (Event T)) (final : State Thread T) : Prop :=
  ∃ moves, Path (queue w) s moves final ∧ moves.map Move.label = labels ∧
    moves.flatMap Move.emitted = events

section Accesses
variable [DecidableEq Thread] {w head : Nat} {items : List T} {s final : State Thread T}
  {thread : Thread} {labels : List (Label Thread T)} {events : List (Event T)}

theorem Passes.nil (s : State Thread T) : Passes w s [] [] s := ⟨[], .nil s, rfl, rfl⟩

theorem Passes.cons {next : State Thread T} {label : Label Thread T} {emitted : List (Event T)}
    (stepped : step w s label = some (next, emitted)) (permitted : label.Allowed s.queue)
    (rest : Passes w next labels events final) :
    Passes w s (label :: labels) (emitted ++ events) final := by
  obtain ⟨moves, path, rfl, rfl⟩ := rest
  exact ⟨_, .cons permitted stepped path, rfl, rfl⟩

theorem Passes.append {middle : State Thread T} {labels' : List (Label Thread T)}
    {events' : List (Event T)} (first : Passes w s labels events middle)
    (second : Passes w middle labels' events' final) :
    Passes w s (labels ++ labels') (events ++ events') final := by
  obtain ⟨moves, path, rfl, rfl⟩ := first
  obtain ⟨moves', path', rfl, rfl⟩ := second
  exact ⟨_, path_append path path', List.map_append, List.flatMap_append⟩

theorem update_emptied (counted : s.emptied thread = none) :
    Function.update s.emptied thread none = s.emptied := by
  rw [← counted]
  exact Function.update_eq_self ..

/-- An access that takes no element, where the thread has counted the last. -/
theorem Passes.advance {q : Dequeuers.State Thread T} (counted : s.emptied thread = none)
    (advanced : Dequeuers.advance w thread s.queue = some (q, []))
    (rest : Passes w { s with queue := q } labels events final) :
    Passes w s (.advance thread :: labels) events final := by
  refine Passes.cons (?_ : step w s (.advance thread) = some (_, [])) trivial rest
  simp only [step, counted, advanced, Option.bind_eq_bind, Option.bind_some, List.head?_nil,
    Option.map_none, update_emptied counted, List.map_nil]

theorem Resting.goto_idle (resting : Resting s) (thread : Thread) (q : Dequeuers.State Thread T)
    (same : q.dequeuing = s.queue.dequeuing) (other : Thread) :
    (q.goto thread .idle).dequeuing other = .idle := by
  show Function.update q.dequeuing thread .idle other = _
  by_cases self : other = thread
  · rw [self, Function.update_self]
  · rw [Function.update_of_ne self, same]
    exact resting.1 other

theorem Stands.look (stands : Stands s head items) (thread : Thread)
    (rest : Passes w { s with
      queue := s.queue.goto thread (.overcommitLoaded (head + items.length) 0) } labels events
        final) :
    Passes w s (.advance thread :: .advance thread :: labels) events final := by
  have counted := stands.resting.2 thread
  have first : Dequeuers.advance w thread s.queue =
      some (s.queue.goto thread (.tailLoaded (head + items.length)), []) := by
    simp only [Dequeuers.advance, stands.resting.1 thread, stands.tailIndex]
  have second : Dequeuers.advance w thread
      (s.queue.goto thread (.tailLoaded (head + items.length))) =
        some (s.queue.goto thread (.overcommitLoaded (head + items.length) 0), []) := by
    simp only [Dequeuers.advance, Dequeuers.State.goto, Function.update_self, Function.update_idem,
      stands.overcommit]
  exact .advance counted first (.advance counted second rest)

/-- Three accesses show that there is no element. -/
theorem Stands.findNone (positive : 0 < w) (stands : Stands s head ([] : List T))
    (short : head < 2 ^ (w - 1)) (thread : Thread) :
    ∃ next, Passes w s (List.replicate 3 (.advance thread)) [] next ∧
      Stands next head ([] : List T) := by
  have half := half_range positive
  have less : ¬circularLessThan w (wrapSub w s.queue.dequeueOptimisticCount 0) head = true := by
    rw [stands.optimistic, wrapSub_of_le (Nat.zero_le _) (by omega), Nat.sub_zero,
      circularLessThan_of_lt positive short short]
    exact Nat.lt_irrefl _
  have third : Dequeuers.advance w thread
      (s.queue.goto thread (.overcommitLoaded (head + ([] : List T).length) 0)) =
        some (s.queue.goto thread .idle, []) := by
    simp only [Dequeuers.advance, Dequeuers.State.goto, Function.update_self, Function.update_idem,
      List.length_nil, Nat.add_zero, if_neg less]
  refine ⟨{ s with queue := s.queue.goto thread .idle }, stands.look thread
    (.advance (stands.resting.2 thread) third (.nil _)), ?_⟩
  exact ⟨stands.tailIndex, stands.headIndex, stands.optimistic, stands.overcommit,
    stands.elements, stands.counts, stands.constructed,
    stands.resting.goto_idle thread s.queue rfl, stands.resting.2⟩

theorem counted_succ (head number : Nat) :
    min blockSize (head + 1 - blockSize * number) =
      if number = head / blockSize then head % blockSize + 1
      else min blockSize (head - blockSize * number) := by
  have size : blockSize = 32 := rfl
  rw [size]
  split <;> omega

/-- Eight accesses take the first element. -/
theorem Stands.takeFirst (positive : 0 < w) {first : T} {rest : List T}
    (stands : Stands s head (first :: rest)) (short : head + (first :: rest).length < 2 ^ (w - 1))
    (thread : Thread) :
    ∃ next, Passes w s (List.replicate 8 (.advance thread))
        (.taken head first ::
          if head % blockSize = blockSize - 1 then [.released (head / blockSize)] else []) next ∧
      Stands next (head + 1) rest := by
  have half := half_range positive
  have counted := stands.resting.2 thread
  have longer : head < head + (first :: rest).length := Nat.lt_add_of_pos_right (Nat.succ_pos _)
  have less : circularLessThan w (wrapSub w head 0) (head + (first :: rest).length) = true := by
    rw [wrapSub_of_le (Nat.zero_le _) (by omega)]
    exact (circularLessThan_of_lt positive (by omega) short).mpr longer
  have next : wrapAdd w head 1 = head + 1 := wrapAdd_of_lt (by omega)
  have element : s.queue.elements head = some first := by
    rw [stands.elements, content, if_pos (Nat.le_refl _), Nat.sub_self, List.getElem?_cons_zero]
  let counting : Dequeuers.State Thread T := { s.queue with dequeueOptimisticCount := head + 1 }
  let claiming : Dequeuers.State Thread T := { counting with headIndex := head + 1 }
  let taking : Dequeuers.State Thread T :=
    { claiming with elements := Function.update s.queue.elements head none }
  have third : Dequeuers.advance w thread
      (s.queue.goto thread (.overcommitLoaded (head + (first :: rest).length) 0)) =
        some (s.queue.goto thread (.likely 0), []) := by
    simp only [Dequeuers.advance, Dequeuers.State.goto, Function.update_self, Function.update_idem,
      stands.optimistic, if_pos less]
  have fourth : Dequeuers.advance w thread (s.queue.goto thread (.likely 0)) =
      some (counting.goto thread (.counted 0 head), []) := by
    simp only [Dequeuers.advance, Dequeuers.State.goto, Function.update_self, Function.update_idem,
      stands.optimistic, next, counting]
  have fifth : Dequeuers.advance w thread (counting.goto thread (.counted 0 head)) =
      some (counting.goto thread .passed, []) := by
    simp only [Dequeuers.advance, Dequeuers.State.goto, Function.update_self, Function.update_idem,
      counting, stands.tailIndex, if_pos less]
  have sixth : Dequeuers.advance w thread (counting.goto thread .passed) =
      some (claiming.goto thread (.claimed head), []) := by
    simp only [Dequeuers.advance, Dequeuers.State.goto, Function.update_self, Function.update_idem,
      counting, claiming, stands.headIndex, next]
  have seventh : Dequeuers.advance w thread (claiming.goto thread (.claimed head)) =
      some (taking.goto thread .idle, [(head, first)]) := by
    simp only [Dequeuers.advance, Dequeuers.State.goto, Function.update_self, Function.update_idem,
      counting, claiming, taking, element]
  let taken : State Thread T :=
    { s with
      queue := taking.goto thread .idle
      emptied := Function.update s.emptied thread (some head) }
  let final : State Thread T :=
    { taken with
      emptied := Function.update taken.emptied thread none
      elementsCompletelyDequeued := Function.update s.elementsCompletelyDequeued
        (head / blockSize) (head % blockSize + 1) }
  have moved : step w { s with queue := claiming.goto thread (.claimed head) } (.advance thread) =
      some (taken, [.taken head first]) := by
    simp only [step, counted, seventh, Option.bind_eq_bind, Option.bind_some]
    rfl
  have emptied : step w taken (.advance thread) = some (final,
      if head % blockSize = blockSize - 1 then [.released (head / blockSize)] else []) := by
    have here : taken.emptied thread = some head := Function.update_self ..
    have prevVal : taken.elementsCompletelyDequeued (head / blockSize) = head % blockSize := by
      show s.elementsCompletelyDequeued _ = _
      rw [stands.counts, ← counted_eq head _ (Nat.le_refl _), if_pos rfl]
    have inside : head % blockSize < blockSize := Nat.mod_lt _ (by decide)
    simp only [step, here, setEmpty, prevVal, if_pos inside]
    rfl
  refine ⟨final, stands.look thread (.advance counted third (.advance counted fourth
    (.advance counted fifth (.advance counted sixth (.cons moved trivial ?_))))), ?_⟩
  · have last := Passes.cons emptied trivial (.nil final)
    rw [List.append_nil] at last
    exact last
  · refine ⟨?_, rfl, rfl, stands.overcommit, fun index => ?_, fun number => ?_,
      stands.constructed, stands.resting.goto_idle thread taking rfl, fun other => ?_⟩
    · show s.queue.tailIndex = _
      rw [stands.tailIndex, List.length_cons]
      omega
    · show Function.update s.queue.elements head none index = _
      rw [content_tail]
      by_cases same : index = head
      · rw [same, Function.update_self, if_pos rfl]
      · rw [Function.update_of_ne same, if_neg same, stands.elements]
    · show Function.update s.elementsCompletelyDequeued _ _ number = _
      rw [counted_succ]
      by_cases same : number = head / blockSize
      · rw [same, Function.update_self, if_pos rfl]
      · rw [Function.update_of_ne same, if_neg same, stands.counts]
    · show Function.update (Function.update s.emptied thread (some head)) thread none other = _
      rw [Function.update_idem, update_emptied counted]
      exact stands.resting.2 other

theorem Stands.append (stands : Stands s head items) (short : head + items.length + 1 < 2 ^ w)
    (element : T) :
    ∃ next, Passes w s [.construct element, .publish] [] next ∧
      Stands next head (items ++ [element]) := by
  have raw : s.queue.elements s.queue.tailIndex = none := by
    rw [stands.elements, stands.tailIndex, content, if_pos (Nat.le_add_right _ _),
      List.getElem?_eq_none (by omega)]
  have next : wrapAdd w s.queue.tailIndex 1 = s.queue.tailIndex + 1 := by
    rw [stands.tailIndex]
    exact wrapAdd_of_lt short
  let constructed : State Thread T :=
    { s with queue := { s.queue with
      elements := Function.update s.queue.elements s.queue.tailIndex (some element)
      constructed := true } }
  let published : State Thread T :=
    { constructed with queue := { constructed.queue with
      tailIndex := s.queue.tailIndex + 1
      constructed := false } }
  have first : step w s (.construct element) = some (constructed, []) := by
    simp only [step, Dequeuers.step, raw, Option.bind_eq_bind, Option.bind_some]
    rfl
  have second : step w constructed .publish = some (published, []) := by
    simp only [step, Dequeuers.step, constructed, next, Option.bind_eq_bind, Option.bind_some]
    rfl
  refine ⟨published, .cons first stands.constructed (.cons second rfl (.nil _)), ?_,
    stands.headIndex, stands.optimistic, stands.overcommit, fun index => ?_, stands.counts, rfl,
    stands.resting⟩
  · show s.queue.tailIndex + 1 = _
    rw [stands.tailIndex, List.length_append, List.length_singleton, Nat.add_assoc]
  · show Function.update s.queue.elements _ _ index = _
    rw [content_append, stands.tailIndex]
    by_cases same : index = head + items.length
    · rw [same, Function.update_self, if_pos rfl]
    · rw [Function.update_of_ne same, if_neg same, stands.elements]

end Accesses

/-! ## Calls -/

/-- A call of a producer; `thread` is the one that dequeues. -/
inductive Call (Thread T : Type) where
  | enqueue (memory : Memory) (element : T)
  | dequeue (thread : Thread)

/-- The block that is empty without the first element. -/
def emptied (w : Nat) (pool : Pool T) (p : ImplicitProducer) : List Nat :=
  match (blockOf w pool p p.headIndex).bind Block.setEmpty with
  | some (true, _) => [p.headIndex / blockSize]
  | _ => []

/-- The answer, and the block that is given back. -/
def call (w : Nat) : Call Thread T → Pool T × ImplicitProducer →
    Option ((Pool T × ImplicitProducer) × List (Outcome T × List Nat))
  | .enqueue memory element, (pool, p) => do
      let (ok, pool, p) ← p.enqueue w memory element pool
      some ((pool, p), [(.enqueued ok, [])])
  | .dequeue _, (pool, p) => do
      let (item, pool', p') ← p.dequeue w pool
      some ((pool', p'), [(.dequeued item, if item.isSome then emptied w pool p else [])])

/-- The accesses of a call to what the threads share, from its answer. -/
def accesses : Call Thread T → Outcome T → List (Label Thread T)
  | .enqueue _ element, .enqueued true => [.construct element, .publish]
  | .dequeue thread, .dequeued none => List.replicate 3 (.advance thread)
  | .dequeue thread, .dequeued (some _) => List.replicate 8 (.advance thread)
  | _, _ => []

/-- After `n` calls. -/
def Agrees (w n : Nat) (state : Pool T × ImplicitProducer) (s : State Thread T) : Prop :=
  ∃ owner free number place head past items,
    Holds w state.1.blocks owner number state.2 items place head past ∧
      past = (head + items.length + 31) / blockSize ∧ Spare state.1 owner free ∧
        Stands s head items ∧ head + items.length ≤ n

theorem Agrees.shares {w n : Nat} {state : Pool T × ImplicitProducer} {s : State Thread T}
    (agrees : Agrees w n state s) (short : n + blockSize ≤ 2 ^ w) :
    Shares w state.1 state.2 s := by
  obtain ⟨owner, free, number, place, head, past, items, holds, quiet, -, stands, few⟩ := agrees
  exact stands.shares holds quiet (by omega)

theorem emptied_eq {w number head past : Nat} {pool : Pool T} {p : ImplicitProducer}
    {owner : Nat → Owner} {items : List T} {place : Nat → Nat}
    (holds : Holds w pool.blocks owner number p items place head past) (small : head < 2 ^ w)
    (used : head / blockSize < past) :
    emptied w pool p = if head % blockSize = blockSize - 1 then [head / blockSize] else [] := by
  have inside : head % blockSize < blockSize := Nat.mod_lt _ (by decide)
  have first : p.headIndex = head := by
    rw [holds.headIndex, word_of_lt small]
  obtain ⟨block, there, filled⟩ := blockOf_eq holds (Nat.le_refl _) used
  rw [word_of_lt small] at there
  have dequeued := filled.dequeued
  rw [if_pos rfl] at dequeued
  simp only [emptied, first, there, Option.bind_some, Block.setEmpty, dequeued, if_pos inside]
  by_cases last : head % blockSize = blockSize - 1
  · rw [decide_eq_true last, if_pos last]
  · rw [decide_eq_false last, if_neg last]

section Calls
variable [DecidableEq Thread] {w n : Nat} {state : Pool T × ImplicitProducer} {s : State Thread T}

theorem Agrees.call (bits : 10 ≤ w) (agrees : Agrees w n state s) (short : n + 1 < 2 ^ (w - 1))
    (c : Call Thread T) :
    ∃ state' answer events next, Releases.call w c state = some (state', [answer]) ∧
      Passes w s (accesses c answer.1) events next ∧
      (events.filterMap Event.taken?).map Prod.snd = deliveredElements [answer.1] ∧
      events.filterMap Event.released? = answer.2 ∧ Agrees w (n + 1) state' next := by
  have positive : 0 < w := by omega
  have half := half_range positive
  obtain ⟨pool, p⟩ := state
  obtain ⟨owner, free, number, place, head, past, items, holds, quiet, spare, stands, few⟩ := agrees
  cases c with
  | enqueue memory element =>
    obtain ⟨ok, pool', p', owner', free', place', past', done, holds', quiet', spare', -⟩ :=
      holds.enqueue bits quiet spare memory element
    have called : Releases.call w (Call.enqueue memory element : Call Thread T) (pool, p) =
        some ((pool', p'), [(.enqueued ok, [])]) := by
      simp only [Releases.call, done, Option.bind_eq_bind, Option.bind_some]
    cases ok with
    | false =>
      exact ⟨(pool', p'), _, [], s, called, .nil s, rfl, rfl, owner', free', number, place', head,
        past', items, holds', quiet', spare', stands, Nat.le_succ_of_le few⟩
    | true =>
      obtain ⟨next, passes, stands'⟩ := stands.append (w := w) (by omega) element
      refine ⟨(pool', p'), _, [], next, called, passes, rfl, rfl, owner', free', number, place',
        head, past', items ++ [element], holds', quiet', spare', stands', ?_⟩
      rw [List.length_append, List.length_singleton]
      omega
  | dequeue thread =>
    have dequeued := holds.dequeue bits quiet spare
    cases items with
    | nil =>
      obtain ⟨next, passes, stands'⟩ := stands.findNone positive (by omega) thread
      refine ⟨(pool, p), (.dequeued none, []), [], next, ?_, passes, rfl, rfl, owner, free, number,
        place, head, past, [], holds, quiet, spare, stands', Nat.le_succ_of_le few⟩
      simp only [Releases.call, dequeued, Option.bind_eq_bind, Option.bind_some]
      rfl
    | cons first rest =>
      obtain ⟨pool', p', owner', free', taken, holds', spare', -⟩ := dequeued
      obtain ⟨next, passes, stands'⟩ := stands.takeFirst positive (by omega) thread
      have length : head + (first :: rest).length = head + 1 + rest.length := by
        rw [List.length_cons]
        omega
      rw [length] at quiet few
      have used : head / blockSize < past := by
        have size : blockSize = 32 := rfl
        rw [quiet, size]
        omega
      refine ⟨(pool', p'), (.dequeued (some first), emptied w pool p), _, next, ?_, passes, ?_, ?_,
        owner', free', number, place, head + 1, past, rest, holds', quiet, spare', stands',
        Nat.le_succ_of_le few⟩
      · simp only [Releases.call, taken, Option.bind_eq_bind, Option.bind_some]
        rfl
      · split <;> rfl
      · rw [emptied_eq holds (by omega) used]
        split <;> rfl

theorem Agrees.calls (bits : 10 ≤ w) :
    ∀ {calls : List (Call Thread T)} {n : Nat} {state : Pool T × ImplicitProducer}
      {s : State Thread T}, Agrees w n state s → n + calls.length < 2 ^ (w - 1) →
      ∃ state' answers events final,
        sequence (Releases.call w) calls state = some (state', answers) ∧
        Passes w s ((calls.zip answers).flatMap fun pair => accesses pair.1 pair.2.1) events final ∧
        (events.filterMap Event.taken?).map Prod.snd =
          deliveredElements (answers.map Prod.fst) ∧
        events.filterMap Event.released? = answers.flatMap Prod.snd ∧
        Agrees w (n + calls.length) state' final := by
  intro calls
  induction calls with
  | nil =>
    intro n state s agrees _
    exact ⟨state, [], [], s, rfl, .nil s, rfl, rfl, agrees⟩
  | cons c rest ih =>
    intro n state s agrees short
    rw [List.length_cons] at short
    obtain ⟨next, answer, events, middle, called, passes, taken, released, agrees'⟩ :=
      agrees.call bits (by omega) c
    obtain ⟨state', answers, later, final, ran, passes', taken', released', agrees''⟩ :=
      ih agrees' (by omega)
    refine ⟨state', answer :: answers, events ++ later, final, ?_, passes.append passes', ?_, ?_,
      ?_⟩
    · simp only [Library.Transition.sequence, called, ran, Option.bind_eq_bind, Option.bind_some,
        List.singleton_append]
    · rw [List.filterMap_append, List.map_append, taken, taken', ← deliveredElements_append]
      rfl
    · rw [List.filterMap_append, released, released', List.flatMap_cons]
    · rw [List.length_cons, Nat.add_comm rest.length, ← Nat.add_assoc]
      exact agrees''

end Calls

end BinanceNativeApp.Queue.Releases
