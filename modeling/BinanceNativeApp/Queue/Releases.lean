import BinanceNativeApp.Queue.BlockIndex
import BinanceNativeApp.Queue.Dequeuers
import Mathlib.Data.Finset.Card
import Mathlib.Order.Interval.Finset.Nat

/-!
# Blocks that threads empty together

A thread that has moved an element out counts it in its block, and the one that
counts the last of a block gives that back.  A block is named by its number here:
whether a block of the pool is used again is not seen, since `reset_empty` comes
before the first element of its next use.
-/

set_option autoImplicit false

namespace BinanceNativeApp.Queue.Releases

open BinanceNativeApp.Library.Circular
open BinanceNativeApp.Library.Transition
open BinanceNativeApp.Queue.Dequeuers (Label Ticket)

variable {Thread T : Type}

/-! ## The accesses -/

structure State (Thread T : Type) where
  queue : Dequeuers.State Thread T
  /-- The index of the element that a thread has destroyed and not yet counted. -/
  emptied : Thread → Option Nat
  elementsCompletelyDequeued : Nat → Nat

inductive Event (T : Type) where
  | taken (index : Nat) (element : T)
  | released (block : Nat)

def Event.taken? : Event T → Option (Nat × T)
  | .taken index element => some (index, element)
  | .released _ => none

def Event.released? : Event T → Option Nat
  | .taken _ _ => none
  | .released block => some block

section Accesses
variable [DecidableEq Thread]

/-- `block->set_empty(index)`, and what comes of it. -/
def setEmpty (thread : Thread) (index : Nat) (s : State Thread T) :
    Option (State Thread T × List (Event T)) :=
  let block := index / blockSize
  let prevVal := s.elementsCompletelyDequeued block
  if prevVal < blockSize then
    some ({ s with
      emptied := Function.update s.emptied thread none
      elementsCompletelyDequeued :=
        Function.update s.elementsCompletelyDequeued block (prevVal + 1) },
      if prevVal = blockSize - 1 then [.released block] else [])
  else none

def step (w : Nat) (s : State Thread T) :
    Label Thread T → Option (State Thread T × List (Event T))
  | .advance thread =>
      match s.emptied thread with
      | some index => setEmpty thread index s
      | none => do
          let (next, out) ← Dequeuers.advance w thread s.queue
          some ({ s with
            queue := next
            emptied := Function.update s.emptied thread (out.head?.map Prod.fst) },
            out.map fun taken => .taken taken.1 taken.2)
  | label => do
      let (next, _) ← Dequeuers.step w s.queue label
      some ({ s with queue := next }, [])

def queue (w : Nat) : System (State Thread T) (Label Thread T) (Event T) where
  init := ⟨(Dequeuers.queue w).init, fun _ => none, fun _ => 0⟩
  allowed s := Label.Allowed s.queue
  step := step w

instance (w : Nat) (s : State Thread T) (label : Label Thread T) :
    Decidable ((queue w : System (State Thread T) _ _).allowed s label) :=
  match label with
  | .construct _ => inferInstanceAs (Decidable (s.queue.constructed = false))
  | .publish => inferInstanceAs (Decidable (s.queue.constructed = true))
  | .advance _ => inferInstanceAs (Decidable True)

end Accesses

/-! ## What is counted -/

def within (indices : Finset Nat) (block : Nat) : Finset Nat :=
  indices.filter fun index => index / blockSize = block

theorem within_subset (indices : Finset Nat) (block : Nat) :
    within indices block ⊆ Finset.Ico (blockSize * block) (blockSize * block + blockSize) := by
  intro index inside
  have same := (Finset.mem_filter.mp inside).2
  rw [Finset.mem_Ico]
  simp only [blockSize] at same ⊢
  omega

theorem within_card_le (indices : Finset Nat) (block : Nat) :
    (within indices block).card ≤ blockSize := by
  have few := Finset.card_le_card (within_subset indices block)
  rw [Nat.card_Ico] at few
  omega

theorem within_card_eq_iff (indices : Finset Nat) (block : Nat) :
    (within indices block).card = blockSize ↔
      ∀ index, index / blockSize = block → index ∈ indices := by
  constructor
  · intro full index same
    have all := Finset.eq_of_subset_of_card_le (within_subset indices block)
      (by rw [Nat.card_Ico, full]; omega)
    have inside : index ∈ within indices block := by
      rw [all, Finset.mem_Ico]
      simp only [blockSize] at same ⊢
      omega
    exact (Finset.mem_filter.mp inside).1
  · intro all
    have whole : within indices block =
        Finset.Ico (blockSize * block) (blockSize * block + blockSize) := by
      refine Finset.Subset.antisymm (within_subset indices block) fun index inside => ?_
      have same : index / blockSize = block := by
        rw [Finset.mem_Ico] at inside
        simp only [blockSize] at inside ⊢
        omega
      exact Finset.mem_filter.mpr ⟨all index same, same⟩
    rw [whole, Nat.card_Ico]
    omega

theorem within_insert {indices : Finset Nat} {index : Nat} (fresh : index ∉ indices)
    (block : Nat) : (within (insert index indices) block).card =
      (within indices block).card + if index / blockSize = block then 1 else 0 := by
  rw [within, Finset.filter_insert]
  split
  · refine Finset.card_insert_of_notMem fun inside => ?_
    exact fresh (Finset.mem_filter.mp inside).1
  · rfl

/-- `out` are the indices taken so far, `done` those that are counted. -/
structure Settled (s : State Thread T) (out : List Nat) (done : Finset Nat)
    (released : List Nat) : Prop where
  taken : ∀ index ∈ done, index ∈ out
  pending : ∀ thread index, s.emptied thread = some index → index ∈ out ∧ index ∉ done
  single : ∀ thread other index, s.emptied thread = some index → s.emptied other = some index →
    thread = other
  covered : ∀ index ∈ out, index ∈ done ∨ ∃ thread, s.emptied thread = some index
  counts : ∀ block, s.elementsCompletelyDequeued block = (within done block).card
  nodup : released.Nodup
  released : ∀ block, block ∈ released ↔ s.elementsCompletelyDequeued block = blockSize

section Counting
variable [DecidableEq Thread] {s : State Thread T} {out : List Nat} {done : Finset Nat}
  {released : List Nat} {thread : Thread}

theorem others_emptied {emptied : Thread → Option Nat} {place : Option Nat} {other : Thread}
    {index : Nat} (found : Function.update emptied thread place other = some index) :
    other = thread ∧ place = some index ∨ other ≠ thread ∧ emptied other = some index := by
  by_cases self : other = thread
  · rw [self, Function.update_self] at found
    exact .inl ⟨self, found⟩
  · rw [Function.update_of_ne self] at found
    exact .inr ⟨self, found⟩

/-- The assertion of `set_empty` holds, and the last one gives the block back. -/
theorem Settled.setEmpty (settled : Settled s out done released) {index : Nat}
    (emptied : s.emptied thread = some index) :
    ∃ next events, setEmpty thread index s = some (next, events) ∧ next.queue = s.queue ∧
      events.filterMap Event.taken? = [] ∧
      Settled next out (insert index done) (released ++ events.filterMap Event.released?) := by
  obtain ⟨inside, fresh⟩ := settled.pending thread index emptied
  have prevVal := settled.counts (index / blockSize)
  have more := within_insert fresh (index / blockSize)
  have bound := within_card_le (insert index done) (index / blockSize)
  rw [if_pos rfl] at more
  have below : s.elementsCompletelyDequeued (index / blockSize) < blockSize := by omega
  have kept : ∀ other i, Function.update s.emptied thread none other = some i →
      other ≠ thread ∧ s.emptied other = some i := by
    intro other i found
    rcases others_emptied found with ⟨-, none⟩ | old
    · cases none
    · exact old
  refine ⟨_, _, if_pos below, rfl, ?_, ?_, ?_, ?_, ?_, ?_, ?_, ?_⟩
  · split <;> rfl
  · intro i counted
    rcases Finset.mem_insert.mp counted with rfl | old
    · exact inside
    · exact settled.taken i old
  · intro other i found
    obtain ⟨different, here⟩ := kept other i found
    obtain ⟨taken, uncounted⟩ := settled.pending other i here
    refine ⟨taken, fun counted => ?_⟩
    rcases Finset.mem_insert.mp counted with rfl | old
    · exact different (settled.single other thread i here emptied)
    · exact uncounted old
  · intro other other' i found found'
    exact settled.single other other' i (kept other i found).2 (kept other' i found').2
  · intro i taken
    rcases settled.covered i taken with counted | ⟨other, found⟩
    · exact .inl (Finset.mem_insert_of_mem counted)
    · by_cases self : other = thread
      · rw [self, emptied] at found
        cases found
        exact .inl (Finset.mem_insert_self ..)
      · refine .inr ⟨other, ?_⟩
        show Function.update s.emptied thread none other = _
        rw [Function.update_of_ne self]
        exact found
  · intro block
    show Function.update s.elementsCompletelyDequeued _ _ block = _
    by_cases same : block = index / blockSize
    · rw [same, Function.update_self, more, prevVal]
    · rw [Function.update_of_ne same, within_insert fresh, if_neg (Ne.symm same)]
      exact settled.counts block
  · split
    · rename_i last
      have absent : index / blockSize ∉ released := by
        rw [settled.released]
        omega
      exact List.nodup_append.mpr ⟨settled.nodup, List.nodup_singleton _,
        fun block old block' new same => absent (List.mem_singleton.mp new ▸ same ▸ old)⟩
    · rw [List.filterMap_nil, List.append_nil]
      exact settled.nodup
  · intro block
    show _ ↔ Function.update s.elementsCompletelyDequeued _ _ block = _
    have old := settled.released block
    by_cases same : block = index / blockSize
    · subst same
      rw [Function.update_self]
      split
      · rename_i last
        refine iff_of_true (List.mem_append_right _ (List.mem_singleton.mpr rfl)) ?_
        omega
      · rename_i earlier
        rw [List.filterMap_nil, List.append_nil, old]
        omega
    · rw [Function.update_of_ne same, ← old]
      split
      · rw [List.mem_append]
        refine or_iff_left fun new => same (List.mem_singleton.mp new)
      · rw [List.filterMap_nil, List.append_nil]

theorem Settled.take (settled : Settled s out done released) (idle : s.emptied thread = none)
    (index : Option Nat) (fresh : ∀ i, index = some i → i ∉ out)
    (queue : Dequeuers.State Thread T) :
    Settled { s with queue := queue, emptied := Function.update s.emptied thread index }
      (out ++ index.toList) done released := by
  have known : ∀ i, i ∈ out ++ index.toList ↔ i ∈ out ∨ index = some i := by
    intro i
    rw [List.mem_append, Option.mem_toList]
  refine ⟨?_, ?_, ?_, ?_, settled.counts, settled.nodup, settled.released⟩
  · intro i counted
    exact (known i).mpr (.inl (settled.taken i counted))
  · intro other i found
    rcases others_emptied found with ⟨-, new⟩ | ⟨-, old⟩
    · exact ⟨(known i).mpr (.inr new), fun counted => fresh i new (settled.taken i counted)⟩
    · obtain ⟨taken, uncounted⟩ := settled.pending other i old
      exact ⟨(known i).mpr (.inl taken), uncounted⟩
  · intro other other' i found found'
    rcases others_emptied found with ⟨self, new⟩ | ⟨-, old⟩ <;>
      rcases others_emptied found' with ⟨self', new'⟩ | ⟨-, old'⟩
    · rw [self, self']
    · exact absurd (settled.pending other' i old').1 (fresh i new)
    · exact absurd (settled.pending other i old).1 (fresh i new')
    · exact settled.single other other' i old old'
  · intro i taken
    rcases (known i).mp taken with old | new
    · refine (settled.covered i old).imp id fun found => ?_
      obtain ⟨other, found⟩ := found
      refine ⟨other, ?_⟩
      show Function.update s.emptied thread index other = _
      rw [Function.update_of_ne]
      · exact found
      · rintro rfl
        rw [idle] at found
        cases found
    · refine .inr ⟨thread, ?_⟩
      show Function.update s.emptied thread index thread = _
      rw [Function.update_self]
      exact new

end Counting

/-! ## Steps -/

theorem advance_emits [DecidableEq Thread] {w : Nat} {thread : Thread}
    {s next : Dequeuers.State Thread T} {emitted : List (Nat × T)}
    (stepped : Dequeuers.advance w thread s = some (next, emitted)) : emitted.length ≤ 1 := by
  rw [Dequeuers.advance] at stepped
  split at stepped
  case h_3 => split at stepped <;> cases stepped <;> exact Nat.zero_le _
  case h_5 => split at stepped <;> cases stepped <;> exact Nat.zero_le _
  case h_7 =>
    split at stepped
    · cases stepped
    · cases stepped
      exact Nat.le_refl _
  all_goals
    cases stepped
    exact Nat.zero_le _

theorem map_fst_of_short {emitted : List (Nat × T)} (short : emitted.length ≤ 1) :
    emitted.map Prod.fst = (emitted.head?.map Prod.fst).toList := by
  match emitted with
  | [] => rfl
  | [_] => rfl
  | _ :: _ :: _ =>
    simp only [List.length_cons] at short
    omega

theorem taken_events (emitted : List (Nat × T)) :
    (emitted.map fun taken => Event.taken taken.1 taken.2).filterMap Event.taken? = emitted ∧
      (emitted.map fun taken => Event.taken taken.1 taken.2).filterMap Event.released? = [] := by
  induction emitted with
  | nil => exact ⟨rfl, rfl⟩
  | cons first rest ih => exact ⟨congrArg (first :: ·) ih.1, ih.2⟩

structure Inv (n : Nat) (s : State Thread T) (tickets : List (Ticket Thread)) (done : Finset Nat)
    (given : List T) (events : List (Event T)) : Prop where
  inner : Dequeuers.Inv n s.queue tickets given (events.filterMap Event.taken?)
  settled : Settled s ((events.filterMap Event.taken?).map Prod.fst) done
    (events.filterMap Event.released?)

section Steps
variable [DecidableEq Thread] {w n : Nat} {s : State Thread T} {tickets : List (Ticket Thread)}
  {done : Finset Nat} {given : List T} {events : List (Event T)}

theorem Inv.setEmpty (inv : Inv n s tickets done given events) {thread : Thread} {index : Nat}
    (emptied : s.emptied thread = some index) :
    ∃ next new done', setEmpty thread index s = some (next, new) ∧
      Inv (n + 1) next tickets done' given (events ++ new) := by
  obtain ⟨next, new, stepped, same, nothing, settled⟩ := inv.settled.setEmpty emptied
  have later : Dequeuers.Inv (n + 1) next.queue tickets given (events.filterMap Event.taken?) := by
    rw [same]
    exact ⟨inv.inner.counted, inv.inner.handed, Nat.le_succ_of_le inv.inner.tail,
      Nat.le_succ_of_le inv.inner.optimistic⟩
  refine ⟨next, new, insert index done, stepped, ?_, ?_⟩
  · rw [List.filterMap_append, nothing, List.append_nil]
    exact later
  · rw [List.filterMap_append, List.filterMap_append, nothing, List.append_nil]
    exact settled

theorem Inv.advance (positive : 0 < w) (short : n < 2 ^ (w - 1))
    (inv : Inv n s tickets done given events) {thread : Thread} (idle : s.emptied thread = none) :
    ∃ next new tickets', step w s (.advance thread) = some (next, new) ∧
      Inv (n + 1) next tickets' done given (events ++ new) := by
  obtain ⟨next, emitted, tickets', stepped, queue⟩ := inv.inner.advance positive short thread
  obtain ⟨takes, releases⟩ := taken_events emitted
  have single := map_fst_of_short (advance_emits stepped)
  have fresh : ∀ index, emitted.head?.map Prod.fst = some index →
      index ∉ (events.filterMap Event.taken?).map Prod.fst := by
    intro index new old
    have distinct := queue.handed.nodup
    rw [List.map_append, single, new] at distinct
    exact (List.nodup_append.mp distinct).2.2 index old index List.mem_cons_self rfl
  have moved : step w s (.advance thread) = some ({ s with
      queue := next
      emptied := Function.update s.emptied thread (emitted.head?.map Prod.fst) },
      emitted.map fun taken => .taken taken.1 taken.2) := by
    simp only [step, idle, stepped, Option.bind_eq_bind, Option.bind_some]
  refine ⟨_, _, tickets', moved, ?_, ?_⟩
  · rw [List.filterMap_append, takes]
    exact queue
  · rw [List.filterMap_append, List.filterMap_append, takes, releases, List.append_nil,
      List.map_append, single]
    exact inv.settled.take idle _ fresh next

theorem producer_emits {s next : Dequeuers.State Thread T} {label : Label Thread T}
    {emitted : List (Nat × T)} (other : ∀ thread, label ≠ .advance thread)
    (stepped : Dequeuers.step w s label = some (next, emitted)) : emitted = [] := by
  cases label with
  | construct element =>
    rw [Dequeuers.step] at stepped
    split at stepped <;> cases stepped
    rfl
  | publish =>
    cases stepped
    rfl
  | advance thread => exact absurd rfl (other thread)

theorem Inv.produce (positive : 0 < w) (short : n < 2 ^ (w - 1))
    (inv : Inv n s tickets done given events) {label : Label Thread T}
    (allowed : label.Allowed s.queue) (other : ∀ thread, label ≠ .advance thread) :
    ∃ next tickets', Dequeuers.step w s.queue label = some (next, []) ∧
      Inv (n + 1) { s with queue := next } tickets' done (given ++ label.constructs) events := by
  obtain ⟨next, emitted, tickets', stepped, queue⟩ := inv.inner.step positive short allowed
  obtain rfl := producer_emits other stepped
  rw [List.append_nil] at queue
  obtain ⟨taken, pending, single, covered, counts, nodup, released⟩ := inv.settled
  exact ⟨next, tickets', stepped, queue, taken, pending, single, covered, counts, nodup, released⟩

theorem Inv.step (positive : 0 < w) (short : n < 2 ^ (w - 1))
    (inv : Inv n s tickets done given events) {label : Label Thread T}
    (allowed : label.Allowed s.queue) :
    ∃ next new tickets' done', step w s label = some (next, new) ∧
      Inv (n + 1) next tickets' done' (given ++ label.constructs) (events ++ new) := by
  cases label with
  | construct element =>
    obtain ⟨next, tickets', stepped, inv'⟩ := inv.produce positive short allowed (by simp)
    refine ⟨{ s with queue := next }, [], tickets', done, ?_, ?_⟩
    · simp only [Releases.step, stepped, Option.bind_eq_bind, Option.bind_some]
    · rw [List.append_nil events]
      exact inv'
  | publish =>
    obtain ⟨next, tickets', stepped, inv'⟩ := inv.produce positive short allowed (by simp)
    refine ⟨{ s with queue := next }, [], tickets', done, ?_, ?_⟩
    · simp only [Releases.step, stepped, Option.bind_eq_bind, Option.bind_some]
    · rw [List.append_nil events]
      exact inv'
  | advance thread =>
    simp only [Label.constructs, List.append_nil]
    cases emptied : s.emptied thread with
    | none =>
      obtain ⟨next, new, tickets', stepped, inv'⟩ := inv.advance positive short emptied
      exact ⟨next, new, tickets', done, stepped, inv'⟩
    | some index =>
      obtain ⟨next, new, done', stepped, inv'⟩ := inv.setEmpty emptied
      refine ⟨next, new, tickets, done', ?_, inv'⟩
      simp only [Releases.step, emptied, stepped]

theorem Inv.path (positive : 0 < w)
    {moves : List (Move (State Thread T) (Label Thread T) (Event T))} {final : State Thread T}
    (path : Path (queue w) s moves final) :
    ∀ {n tickets done given events}, n + moves.length < 2 ^ (w - 1) →
      Inv n s tickets done given events → ∃ tickets' done',
        Inv (n + moves.length) final tickets' done'
          (given ++ moves.flatMap fun move => move.label.constructs)
          (events ++ moves.flatMap Move.emitted) := by
  induction path with
  | nil state =>
    intro n tickets done given events _ inv
    refine ⟨tickets, done, ?_⟩
    rw [List.flatMap_nil, List.flatMap_nil, List.append_nil, List.append_nil]
    exact inv
  | @cons state next final label emitted moves permitted stepped rest ih =>
    intro n tickets done given events short inv
    rw [List.length_cons] at short
    obtain ⟨next', new, tickets', done', stepped', inv'⟩ :=
      inv.step positive (by omega) permitted
    obtain ⟨rfl, rfl⟩ := Prod.mk.inj (Option.some.inj (stepped.symm.trans stepped'))
    obtain ⟨tickets'', done'', inv''⟩ := ih (by omega) inv'
    refine ⟨tickets'', done'', ?_⟩
    rw [List.flatMap_cons, List.flatMap_cons, List.length_cons, ← List.append_assoc,
      ← List.append_assoc, ← Nat.add_assoc, Nat.add_right_comm]
    exact inv''

theorem inv_init : Inv 0 (queue w : System (State Thread T) _ _).init [] ∅ [] [] := by
  have initial : Dequeuers.Inv 0 (Dequeuers.queue w : System (Dequeuers.State Thread T) _ _).init
      [] [] [] := Dequeuers.inv_init
  exact ⟨initial, nofun, nofun, nofun, nofun, fun _ => rfl, List.nodup_nil,
    fun _ => iff_of_false List.not_mem_nil (show ¬0 = blockSize by decide)⟩

end Steps

/-! ## Runs -/

def Resting (s : State Thread T) : Prop :=
  Dequeuers.Resting s.queue ∧ ∀ thread, s.emptied thread = none

section Runs
variable [DecidableEq Thread] {w : Nat}
  {moves : List (Move (State Thread T) (Label Thread T) (Event T))} {final : State Thread T}

/-- Whatever the order of the accesses, a block is given back once at most, and
then every element of it has been taken, by one thread each, and no thread is at
work in it any more.  Once all threads are done, the blocks in front of the head
are those that were given back. -/
theorem blocks_released_once (positive : 0 < w)
    (path : Path (queue w) (queue w).init moves final) (short : moves.length < 2 ^ (w - 1)) :
    ((moves.flatMap Move.emitted).filterMap Event.released?).Nodup ∧
      (((moves.flatMap Move.emitted).filterMap Event.taken?).map Prod.fst).Nodup ∧
      (∀ block ∈ (moves.flatMap Move.emitted).filterMap Event.released?,
        ∀ index, index / blockSize = block →
          index ∈ ((moves.flatMap Move.emitted).filterMap Event.taken?).map Prod.fst ∧
            ∀ thread, final.queue.dequeuing thread ≠ .claimed index ∧
              final.emptied thread ≠ some index) ∧
      (∀ label : Label Thread T, label.Allowed final.queue →
        ∃ next events, step w final label = some (next, events)) ∧
      (Resting final → ∀ block,
        block ∈ (moves.flatMap Move.emitted).filterMap Event.released? ↔
          blockSize * (block + 1) ≤ final.queue.headIndex) := by
  obtain ⟨tickets, done, inv⟩ := Inv.path positive path (by rw [Nat.zero_add]; exact short)
    inv_init
  rw [Nat.zero_add, List.nil_append, List.nil_append] at inv
  have handed := inv.inner.handed
  have settled := inv.settled
  have whole : ∀ block, block ∈ (moves.flatMap Move.emitted).filterMap Event.released? ↔
      ∀ index, index / blockSize = block → index ∈ done := by
    intro block
    rw [settled.released, settled.counts, within_card_eq_iff]
  refine ⟨settled.nodup, handed.nodup, ?_, fun label allowed => ?_, fun resting block => ?_⟩
  · intro block released index same
    have counted := (whole block).mp released index same
    refine ⟨settled.taken index counted, fun thread => ⟨fun claimed => ?_, fun emptied => ?_⟩⟩
    · exact (handed.claims thread index claimed).2 (settled.taken index counted)
    · exact (settled.pending thread index emptied).2 counted
  · obtain ⟨next, events, -, -, stepped, -⟩ := inv.step positive short allowed
    exact ⟨next, events, stepped⟩
  · obtain ⟨idle, counted⟩ := resting
    have taken : ∀ index, index ∈ done ↔ index < final.queue.headIndex := by
      intro index
      constructor
      · intro inside
        obtain ⟨pair, known, rfl⟩ := List.mem_map.mp (settled.taken index inside)
        exact (handed.known pair known).1
      · intro below
        rcases handed.handed index below with out | ⟨thread, claimed⟩
        · rcases settled.covered index out with inside | ⟨thread, emptied⟩
          · exact inside
          · rw [counted thread] at emptied
            cases emptied
        · rw [idle thread] at claimed
          cases claimed
    rw [whole block]
    simp only [taken, blockSize]
    constructor
    · intro all
      have last := all (32 * block + 31) (by omega)
      omega
    · intro past index same
      omega

end Runs

def oneBlock : List (Label Bool Nat) :=
  (List.range blockSize).flatMap (fun element => [.construct element, .publish]) ++
    List.replicate (8 * blockSize) (.advance true)

theorem blocks_released_once_oneBlock :
    ∃ (moves : List (Move (State Bool Nat) (Label Bool Nat) (Event Nat))) (final : State Bool Nat),
      moves.map Move.label = oneBlock ∧
        (moves.flatMap Move.emitted).filterMap Event.released? = [0] ∧
          ∀ index, index / blockSize = 0 →
            index ∈ ((moves.flatMap Move.emitted).filterMap Event.taken?).map Prod.fst ∧
              ∀ thread, final.queue.dequeuing thread ≠ .claimed index ∧
                final.emptied thread ≠ some index := by
  have checked : (sequence (fun label s =>
      if (queue 64 : System (State Bool Nat) _ _).allowed s label then (queue 64).step s label
      else none) oneBlock (queue 64 : System (State Bool Nat) _ _).init).map
        (fun ran => ran.2.filterMap Event.released?) = some [0] := by decide +kernel
  obtain ⟨⟨final, events⟩, ran, released⟩ := Option.map_eq_some_iff.mp checked
  obtain ⟨moves, path, labels, rfl⟩ := path_of_checked ran
  have short : moves.length < 2 ^ (64 - 1) := by
    rw [← List.length_map (f := Move.label), labels]
    decide +kernel
  obtain ⟨-, -, emptied, -⟩ := blocks_released_once (by decide) path short
  have inside : 0 ∈ (moves.flatMap Move.emitted).filterMap Event.released? := by
    rw [released]
    exact List.mem_cons_self
  exact ⟨moves, final, labels, released, emptied 0 inside⟩

end BinanceNativeApp.Queue.Releases
