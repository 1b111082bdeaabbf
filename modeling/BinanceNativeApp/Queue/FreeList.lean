import BinanceNativeApp.Library.Shared
import BinanceNativeApp.Library.Transition
import BinanceNativeApp.Queue.Blocks

/-!
# The free list under threads that use it at once

Any number of threads add nodes and take nodes; between two accesses to memory
any thread may be at work.  An access is seen by all threads at once.

`freeListRefs` counts the threads that may read `freeListNext`, and one more for
a node that is on the list or about to be; its high bit says that a node is to
be added by the last thread that lets go of it.  Why a node is added by one
thread only, and never while another one relies on its `freeListNext`, is told
by the stage that each node is in.  The stages are not in memory.
-/

set_option autoImplicit false

namespace BinanceNativeApp.Queue.FreeList

open BinanceNativeApp.Library.Circular
open BinanceNativeApp.Library.Shared
open BinanceNativeApp.Library.Transition

variable {Thread Node : Type}

/-! ## The accesses -/

/-- Where `add_knowing_refcount_is_zero` returns to: to the end of `add`, or into
the loop of `try_get` with the head that was loaded there. -/
inductive Return (Node : Type) where
  | added
  | tryGet (head : Option Node)
  deriving DecidableEq

/-- Where a thread is in `add` or `try_get`, with what it has loaded. -/
inductive Place (Node : Type) where
  | idle
  | looking
  | headLoaded (head : Node)
  | refsLoaded (head : Node) (refs : Nat)
  | referenced (head : Node)
  | nextLoaded (head : Node) (next : Option Node)
  | unlinked (head : Node)
  | asserted (head : Node)
  | lost (prevHead : Node) (head : Option Node)
  | zero (node : Node) (back : Return Node)
  | linking (node : Node) (head : Option Node) (back : Return Node)
  | linked (node : Node) (head : Option Node) (back : Return Node)
  | counted (node : Node) (head : Option Node) (back : Return Node)
  | refused (node : Node) (head : Option Node) (back : Return Node)
  deriving DecidableEq

structure State (Thread Node : Type) where
  freeListHead : Option Node
  freeListRefs : Node → Nat
  freeListNext : Node → Option Node
  /-- Whether the node is in use by a caller, who may add it. -/
  withCaller : Node → Bool
  place : Thread → Place Node

inductive Label (Thread Node : Type) where
  | add (thread : Thread) (node : Node)
  | tryGet (thread : Thread)
  | advance (thread : Thread)

/-- A thread makes one call at a time; a caller adds only what it has. -/
def Label.Allowed (s : State Thread Node) : Label Thread Node → Prop
  | .add thread node => s.place thread = .idle ∧ s.withCaller node = true
  | .tryGet thread => s.place thread = .idle
  | .advance thread => s.place thread ≠ .idle

instance [DecidableEq Node] (s : State Thread Node) (label : Label Thread Node) :
    Decidable (label.Allowed s) :=
  match label with
  | .add thread node => inferInstanceAs (Decidable (s.place thread = .idle ∧ s.withCaller node))
  | .tryGet thread => inferInstanceAs (Decidable (s.place thread = .idle))
  | .advance thread => inferInstanceAs (Decidable (s.place thread ≠ .idle))

def look : Option Node → Place Node
  | none => .idle
  | some head => .headLoaded head

def Return.place : Return Node → Place Node
  | .added => .idle
  | .tryGet head => look head

section Accesses
variable [DecidableEq Thread] [DecidableEq Node]

def State.goto (s : State Thread Node) (thread : Thread) (place : Place Node) :
    State Thread Node :=
  { s with place := Function.update s.place thread place }

def State.setRefs (s : State Thread Node) (node : Node) (refs : Nat) : State Thread Node :=
  { s with freeListRefs := Function.update s.freeListRefs node refs }

/-- The first access of `add`. -/
def add (thread : Thread) (node : Node) (s : State Thread Node) : State Thread Node :=
  let refs := s.freeListRefs node
  let s := s.setRefs node (wrapAdd 32 refs shouldBeOnFreeList)
  let s := { s with withCaller := Function.update s.withCaller node false }
  s.goto thread (if refs = 0 then .zero node .added else .idle)

/-- The next access of a thread; a node that `try_get` returns is emitted. -/
def advance (thread : Thread) (s : State Thread Node) : Option (State Thread Node × List Node) :=
  match s.place thread with
  | .idle => none
  | .looking => some (s.goto thread (look s.freeListHead), [])
  | .headLoaded head =>
      let refs := s.freeListRefs head
      if refs &&& refsMask = 0 then some (s.goto thread .looking, [])
      else some (s.goto thread (.refsLoaded head refs), [])
  | .refsLoaded head refs =>
      if s.freeListRefs head = refs then
        some ((s.setRefs head (wrapAdd 32 refs 1)).goto thread (.referenced head), [])
      else some (s.goto thread .looking, [])
  | .referenced head => some (s.goto thread (.nextLoaded head (s.freeListNext head)), [])
  | .nextLoaded head next =>
      if s.freeListHead = some head then
        some ({ s with freeListHead := next }.goto thread (.unlinked head), [])
      else some (s.goto thread (.lost head s.freeListHead), [])
  | .unlinked head =>
      if s.freeListRefs head &&& shouldBeOnFreeList = 0 then
        some (s.goto thread (.asserted head), [])
      else none
  | .asserted head =>
      let s := s.setRefs head (wrapSub 32 (s.freeListRefs head) 2)
      let s := { s with withCaller := Function.update s.withCaller head true }
      some (s.goto thread .idle, [head])
  | .lost prevHead head =>
      let refs := s.freeListRefs prevHead
      let s := s.setRefs prevHead (wrapSub 32 refs 1)
      if refs = shouldBeOnFreeList + 1 then some (s.goto thread (.zero prevHead (.tryGet head)), [])
      else some (s.goto thread (look head), [])
  | .zero node back => some (s.goto thread (.linking node s.freeListHead back), [])
  | .linking node head back =>
      let s := { s with freeListNext := Function.update s.freeListNext node head }
      some (s.goto thread (.linked node head back), [])
  | .linked node head back =>
      some ((s.setRefs node 1).goto thread (.counted node head back), [])
  | .counted node head back =>
      if s.freeListHead = head then
        some ({ s with freeListHead := some node }.goto thread back.place, [])
      else some (s.goto thread (.refused node s.freeListHead back), [])
  | .refused node head back =>
      let refs := s.freeListRefs node
      let s := s.setRefs node (wrapAdd 32 refs (shouldBeOnFreeList - 1))
      if refs = 1 then some (s.goto thread (.linking node head back), [])
      else some (s.goto thread back.place, [])

def step (s : State Thread Node) :
    Label Thread Node → Option (State Thread Node × List Node)
  | .add thread node => some (add thread node s, [])
  | .tryGet thread => some (s.goto thread (look s.freeListHead), [])
  | .advance thread => advance thread s

/-- Every node is in use at first. -/
def freeList : System (State Thread Node) (Label Thread Node) Node where
  init := ⟨none, fun _ => 0, fun _ => none, fun _ => true, fun _ => .idle⟩
  allowed := Label.Allowed
  step := step

instance (s : State Thread Node) (label : Label Thread Node) :
    Decidable ((freeList : System (State Thread Node) _ _).allowed s label) :=
  inferInstanceAs (Decidable (label.Allowed s))

end Accesses

/-! ## Stages -/

/-- Where a node is: with a caller; on the list; marked, and to be added by the
last thread that refers to it; or with the one thread that adds it, before and
after the count goes up, or that has just taken it off. -/
inductive Stage (Thread : Type) where
  | outside
  | listed
  | waiting
  | adding (thread : Thread)
  | offered (thread : Thread)
  | taken (thread : Thread)

def Stage.keeper : Stage Thread → Option Thread
  | .adding thread | .offered thread | .taken thread => some thread
  | _ => none

/-- What `freeListRefs` holds beside the references of threads. -/
def Stage.weight : Stage Thread → Nat
  | .outside => 0
  | .waiting | .adding _ => shouldBeOnFreeList
  | .listed | .offered _ | .taken _ => 1

/-- The node a thread is the only one to change, and the stage that node is in. -/
def Place.charge (thread : Thread) : Place Node → Option (Node × Stage Thread)
  | .zero node _ | .linking node _ _ | .linked node _ _ => some (node, .adding thread)
  | .counted node _ _ | .refused node _ _ => some (node, .offered thread)
  | .unlinked head | .asserted head => some (head, .taken thread)
  | _ => none

def Place.holds [DecidableEq Node] (node : Node) : Place Node → Bool
  | .referenced head | .nextLoaded head _ | .unlinked head | .asserted head | .lost head _ =>
      decide (head = node)
  | _ => false

def Place.Remembers (next : Node → Option Node) : Place Node → Prop
  | .refsLoaded _ refs => refs &&& refsMask ≠ 0
  | .nextLoaded head loaded => loaded = next head
  | .linked node head _ | .counted node head _ => next node = head
  | _ => True

@[simp] theorem look_charge (thread : Thread) (head : Option Node) :
    (look head).charge thread = none := by cases head <;> rfl

@[simp] theorem look_remembers (next : Node → Option Node) (head : Option Node) :
    (look head).Remembers next := by cases head <;> trivial

@[simp] theorem back_charge (thread : Thread) (back : Return Node) :
    back.place.charge thread = none := by
  cases back with
  | added => rfl
  | tryGet head => exact look_charge thread head

@[simp] theorem back_remembers (next : Node → Option Node) (back : Return Node) :
    back.place.Remembers next := by
  cases back with
  | added => trivial
  | tryGet head => exact look_remembers next head

section Holds
variable [DecidableEq Node]

@[simp] theorem look_holds (node : Node) (head : Option Node) :
    (look head).holds node = false := by cases head <;> rfl

@[simp] theorem back_holds (node : Node) (back : Return Node) :
    back.place.holds node = false := by
  cases back with
  | added => rfl
  | tryGet head => exact look_holds node head

end Holds

theorem charge_keeper {place : Place Node} {thread : Thread} {node : Node} {kind : Stage Thread}
    (charge : place.charge thread = some (node, kind)) : kind.keeper = some thread := by
  cases place <;> cases charge <;> rfl

/-! ## Who changes what -/

/-- Each thread and the stages of the nodes agree about what the thread is in
charge of. -/
structure Charged (places : Thread → Place Node) (stage : Node → Stage Thread) : Prop where
  charged : ∀ thread node kind, (places thread).charge thread = some (node, kind) →
    stage node = kind
  kept : ∀ node thread, (stage node).keeper = some thread →
    (places thread).charge thread = some (node, stage node)

structure Agree (thread : Thread) (node : Node) (kind : Stage Thread) (place : Place Node) :
    Prop where
  keeper : ∀ keeper, kind.keeper = some keeper → keeper = thread
  charge : place.charge thread = kind.keeper.map fun _ => (node, kind)

theorem Agree.of_charge {thread : Thread} {node : Node} {kind : Stage Thread} {place : Place Node}
    (charge : place.charge thread = some (node, kind)) : Agree thread node kind place := by
  have keeper := charge_keeper charge
  refine ⟨fun other known => ?_, ?_⟩
  · rw [keeper] at known
    exact (Option.some.inj known).symm
  · rw [charge, keeper]
    rfl

theorem Agree.of_none {thread : Thread} {node : Node} {kind : Stage Thread} {place : Place Node}
    (keeper : kind.keeper = none) (charge : place.charge thread = none) :
    Agree thread node kind place := by
  refine ⟨fun other known => ?_, ?_⟩
  · rw [keeper] at known
    cases known
  · rw [charge, keeper]
    rfl

section Charges
variable [DecidableEq Thread] {places : Thread → Place Node} {stage : Node → Stage Thread}
  {thread : Thread} {place : Place Node}

theorem Charged.pass (charged : Charged places stage)
    (charge : place.charge thread = (places thread).charge thread) :
    Charged (Function.update places thread place) stage := by
  have same : ∀ other, (Function.update places thread place other).charge other =
      (places other).charge other := by
    intro other
    by_cases self : other = thread
    · rw [self, Function.update_self]
      exact charge
    · rw [Function.update_of_ne self]
  refine ⟨fun other node kind known => ?_, fun node other known => ?_⟩
  · rw [same other] at known
    exact charged.charged other node kind known
  · rw [same other]
    exact charged.kept node other known

theorem Charged.turn [DecidableEq Node] (charged : Charged places stage) {node : Node}
    {kind : Stage Thread} (before : Agree thread node (stage node) (places thread))
    (after : Agree thread node kind place) :
    Charged (Function.update places thread place) (Function.update stage node kind) := by
  refine ⟨fun other that what known => ?_, fun that other known => ?_⟩
  · by_cases self : other = thread
    · subst self
      rw [Function.update_self, after.charge] at known
      obtain ⟨keeper, -, same⟩ := Option.map_eq_some_iff.mp known
      obtain ⟨rfl, rfl⟩ := Prod.mk.inj same
      exact Function.update_self ..
    · rw [Function.update_of_ne self] at known
      have here := charged.charged other that what known
      have apart : that ≠ node := by
        rintro rfl
        rw [← here] at known
        exact self (before.keeper other (charge_keeper known))
      rw [Function.update_of_ne apart]
      exact here
  · by_cases same : that = node
    · subst same
      rw [Function.update_self] at known ⊢
      have self := after.keeper other known
      subst self
      rw [Function.update_self, after.charge, known]
      rfl
    · rw [Function.update_of_ne same] at known ⊢
      have here := charged.kept that other known
      have apart : other ≠ thread := by
        rintro rfl
        rw [before.charge] at here
        obtain ⟨keeper, -, other⟩ := Option.map_eq_some_iff.mp here
        exact same (Prod.mk.inj other).1.symm
      rw [Function.update_of_ne apart]
      exact here

end Charges

/-! ## What is counted -/

section Counts
variable [Fintype Thread] [DecidableEq Node]

structure Counts (places : Thread → Place Node) (refs : Node → Nat) (stage : Node → Stage Thread) :
    Prop where
  refs : ∀ node, refs node = (stage node).weight + crowd places (Place.holds node)
  waiting : ∀ node, stage node = .waiting → 0 < crowd places (Place.holds node)
  adding : ∀ node thread, stage node = .adding thread → crowd places (Place.holds node) = 0

variable [DecidableEq Thread] {places : Thread → Place Node} {refs : Node → Nat}
  {stage : Node → Stage Thread} {thread : Thread} {place : Place Node}

theorem Counts.pass (counts : Counts places refs stage)
    (holds : ∀ node, place.holds node = (places thread).holds node) :
    Counts (Function.update places thread place) refs stage := by
  have same : ∀ node, crowd (Function.update places thread place) (Place.holds node) =
      crowd places (Place.holds node) := fun node => crowd_update_same (holds node)
  refine ⟨fun node => ?_, fun node waiting => ?_, fun node other adding => ?_⟩
  · rw [same node]
    exact counts.refs node
  · rw [same node]
    exact counts.waiting node waiting
  · rw [same node]
    exact counts.adding node other adding

theorem Counts.turn (counts : Counts places refs stage) {node : Node} {kind : Stage Thread}
    {count : Nat} (others : ∀ other, other ≠ node → place.holds other = (places thread).holds other)
    (sum : count =
      kind.weight + crowd (Function.update places thread place) (Place.holds node))
    (waiting : kind = .waiting →
      0 < crowd (Function.update places thread place) (Place.holds node))
    (adding : ∀ keeper, kind = .adding keeper →
      crowd (Function.update places thread place) (Place.holds node) = 0) :
    Counts (Function.update places thread place) (Function.update refs node count)
      (Function.update stage node kind) := by
  have same : ∀ other, other ≠ node →
      crowd (Function.update places thread place) (Place.holds other) =
        crowd places (Place.holds other) :=
    fun other apart => crowd_update_same (others other apart)
  refine ⟨fun other => ?_, fun other known => ?_, fun other keeper known => ?_⟩
  · by_cases self : other = node
    · rw [self, Function.update_self, Function.update_self]
      exact sum
    · rw [Function.update_of_ne self, Function.update_of_ne self, same other self]
      exact counts.refs other
  · by_cases self : other = node
    · rw [self, Function.update_self] at known
      rw [self]
      exact waiting known
    · rw [Function.update_of_ne self] at known
      rw [same other self]
      exact counts.waiting other known
  · by_cases self : other = node
    · rw [self, Function.update_self] at known
      rw [self]
      exact adding keeper known
    · rw [Function.update_of_ne self] at known
      rw [same other self]
      exact counts.adding other keeper known

end Counts

end BinanceNativeApp.Queue.FreeList
