import BinanceNativeApp.Queue.FreeList
import Mathlib.Data.Nat.Bitwise

/-!
# What each access to the free list keeps

The nodes from the head on are those that are listed, each once; what a thread
has loaded of a node it refers to is still so.
-/

set_option autoImplicit false

namespace BinanceNativeApp.Queue.FreeList

open BinanceNativeApp.Library.Circular
open BinanceNativeApp.Library.Shared
open BinanceNativeApp.Library.Transition

variable {Thread Node : Type}

theorem update_iff [DecidableEq Node] {stage : Node → Stage Thread} {node : Node}
    {kind what : Stage Thread} (same : kind = what ↔ stage node = what) (that : Node) :
    Function.update stage node kind that = what ↔ stage that = what := by
  by_cases self : that = node
  · rw [self, Function.update_self]
    exact same
  · rw [Function.update_of_ne self]

theorem and_refsMask (refs : Nat) : refs &&& refsMask = refs % 2 ^ 31 :=
  Nat.and_two_pow_sub_one_eq_mod refs 31

theorem and_shouldBe {refs : Nat} (small : refs < shouldBeOnFreeList) :
    refs &&& shouldBeOnFreeList = 0 := by
  rw [shouldBeOnFreeList, Nat.and_two_pow, Nat.testBit_lt_two_pow small]
  rfl

theorem Stage.weight_le (kind : Stage Thread) : kind.weight ≤ shouldBeOnFreeList := by
  cases kind <;> simp [Stage.weight, shouldBeOnFreeList]

theorem remembers_goto [DecidableEq Thread] {thread : Thread} {place : Place Node}
    {places : Thread → Place Node} {next : Node → Option Node}
    (all : ∀ other, (places other).Remembers next) (here : place.Remembers next)
    (other : Thread) : (Function.update places thread place other).Remembers next := by
  by_cases self : other = thread
  · rw [self, Function.update_self]
    exact here
  · rw [Function.update_of_ne self]
    exact all other

def Label.adds : Label Thread Node → List Node
  | .add _ node => [node]
  | _ => []

/-- A node goes from its caller when it is added, and to one when it is handed out. -/
def Balance [DecidableEq Node] (s next : State Thread Node) (given handed : List Node) : Prop :=
  ∀ node, (next.withCaller node).toNat + given.count node =
    (s.withCaller node).toNat + handed.count node

theorem Balance.unchanged [DecidableEq Node] {s next : State Thread Node}
    (same : next.withCaller = s.withCaller) :
    Balance s next [] [] := by
  intro node
  rw [same]

section Invariant
variable [Fintype Thread] [DecidableEq Node]

structure Inv (s : State Thread Node) (nodes : List Node) (stage : Node → Stage Thread) :
    Prop where
  counts : Counts s.place s.freeListRefs stage
  charged : Charged s.place stage
  linked : Linked s.freeListNext s.freeListHead nodes
  nodup : nodes.Nodup
  listed : ∀ node, node ∈ nodes ↔ stage node = .listed
  caller : ∀ node, s.withCaller node = true ↔ stage node = .outside
  remembers : ∀ thread, (s.place thread).Remembers s.freeListNext

variable {s : State Thread Node} {nodes : List Node} {stage : Node → Stage Thread}
  {thread : Thread} {place : Place Node}

theorem Inv.stage_of (inv : Inv s nodes stage) {node : Node} {kind : Stage Thread}
    (here : s.place thread = place) (charge : place.charge thread = some (node, kind)) :
    stage node = kind := by
  subst here
  exact inv.charged.charged thread node kind charge

theorem Inv.agree_of_charge (inv : Inv s nodes stage) {node : Node} {kind : Stage Thread}
    (here : s.place thread = place) (charge : place.charge thread = some (node, kind)) :
    Agree thread node (stage node) (s.place thread) := by
  rw [inv.stage_of here charge, here]
  exact .of_charge charge

/-- What `try_get` asserts. -/
theorem Inv.not_marked (inv : Inv s nodes stage) (few : Fintype.card Thread < refsMask)
    {head : Node} (here : s.place thread = .unlinked head) :
    s.freeListRefs head &&& shouldBeOnFreeList = 0 := by
  have bound : crowd s.place (Place.holds head) ≤ Fintype.card Thread := crowd_le_card
  refine and_shouldBe ?_
  rw [inv.counts.refs head, inv.stage_of here rfl, Stage.weight]
  simp only [refsMask, shouldBeOnFreeList] at few ⊢
  omega

theorem Inv.counted_of_mem (inv : Inv s nodes stage) (few : Fintype.card Thread < refsMask)
    {head : Node} (inside : head ∈ nodes) :
    ¬ s.freeListRefs head &&& refsMask = 0 ∧ s.freeListRefs head ≠ shouldBeOnFreeList + 1 := by
  have bound : crowd s.place (Place.holds head) ≤ Fintype.card Thread := crowd_le_card
  rw [and_refsMask, inv.counts.refs head, (inv.listed head).mp inside, Stage.weight]
  simp only [refsMask, shouldBeOnFreeList] at few ⊢
  omega

theorem Inv.head_mem (inv : Inv s nodes stage) {head : Node}
    (first : s.freeListHead = some head) : head ∈ nodes := by
  have linked := inv.linked
  rw [first] at linked
  obtain ⟨rest, rfl, -⟩ := linked.pop
  exact List.mem_cons_self

variable [DecidableEq Thread]

theorem Inv.pass (inv : Inv s nodes stage) {before : Place Node} (here : s.place thread = before)
    (holds : ∀ node, place.holds node = before.holds node)
    (charge : place.charge thread = before.charge thread)
    (remembers : place.Remembers s.freeListNext) : Inv (s.goto thread place) nodes stage := by
  subst here
  exact ⟨inv.counts.pass holds, inv.charged.pass charge, inv.linked, inv.nodup, inv.listed,
    inv.caller, remembers_goto inv.remembers remembers⟩

theorem Inv.recount (inv : Inv s nodes stage) {node : Node} {kind : Stage Thread} {count : Nat}
    (charged : Charged (Function.update s.place thread place) (Function.update stage node kind))
    (others : ∀ other, other ≠ node → place.holds other = (s.place thread).holds other)
    (sum : count =
      kind.weight + crowd (Function.update s.place thread place) (Place.holds node))
    (waiting : kind = .waiting →
      0 < crowd (Function.update s.place thread place) (Place.holds node))
    (adding : ∀ keeper, kind = .adding keeper →
      crowd (Function.update s.place thread place) (Place.holds node) = 0)
    (listed : kind = .listed ↔ stage node = .listed)
    (outside : kind = .outside ↔ stage node = .outside)
    (remembers : place.Remembers s.freeListNext) :
    Inv ((s.setRefs node count).goto thread place) nodes (Function.update stage node kind) where
  counts := inv.counts.turn others sum waiting adding
  charged := charged
  linked := inv.linked
  nodup := inv.nodup
  listed := fun that => (inv.listed that).trans (update_iff listed that).symm
  caller := fun that => (inv.caller that).trans (update_iff outside that).symm
  remembers := remembers_goto inv.remembers remembers

theorem Inv.recount_same (inv : Inv s nodes stage) {node : Node} {count : Nat}
    (charge : place.charge thread = (s.place thread).charge thread)
    (others : ∀ other, other ≠ node → place.holds other = (s.place thread).holds other)
    (sum : count =
      (stage node).weight + crowd (Function.update s.place thread place) (Place.holds node))
    (waiting : stage node = .waiting →
      0 < crowd (Function.update s.place thread place) (Place.holds node))
    (adding : ∀ keeper, stage node = .adding keeper →
      crowd (Function.update s.place thread place) (Place.holds node) = 0)
    (remembers : place.Remembers s.freeListNext) :
    Inv ((s.setRefs node count).goto thread place) nodes stage := by
  have same : Function.update stage node (stage node) = stage := Function.update_eq_self node stage
  have charged : Charged (Function.update s.place thread place)
      (Function.update stage node (stage node)) := by
    rw [same]
    exact inv.charged.pass charge
  have kept := inv.recount charged others sum waiting adding Iff.rfl Iff.rfl remembers
  rw [same] at kept
  exact kept

/-! ## Accesses to the count -/

theorem Inv.reference (inv : Inv s nodes stage) (few : Fintype.card Thread < refsMask)
    {head : Node} {refs : Nat} (here : s.place thread = .refsLoaded head refs)
    (same : s.freeListRefs head = refs) :
    Inv ((s.setRefs head (wrapAdd 32 refs 1)).goto thread (.referenced head)) nodes stage := by
  have entered : crowd (Function.update s.place thread (.referenced head)) (Place.holds head) =
      crowd s.place (Place.holds head) + 1 := by
    refine crowd_update_enter ?_ (decide_eq_true rfl)
    rw [here]
    rfl
  have sum := inv.counts.refs head
  have loaded := inv.remembers thread
  rw [here, Place.Remembers, and_refsMask, ← same, sum] at loaded
  have bound : crowd (Function.update s.place thread (.referenced head)) (Place.holds head) ≤
      Fintype.card Thread := crowd_le_card
  have weight := (stage head).weight_le
  refine inv.recount_same ?_ ?_ ?_ ?_ ?_ trivial
  · rw [here]
    rfl
  · intro other apart
    rw [here]
    exact decide_eq_false (Ne.symm apart)
  · rw [entered, wrapAdd, ← same, sum]
    simp only [refsMask, shouldBeOnFreeList] at few weight
    omega
  · intro _
    omega
  · intro keeper adding
    have nobody := inv.counts.adding head keeper adding
    rw [nobody, adding, Stage.weight, shouldBeOnFreeList, Nat.add_zero, Nat.mod_self] at loaded
    exact absurd rfl loaded

/-- A thread lets go of a node whose count another thread brought down, or will. -/
theorem Inv.release (inv : Inv s nodes stage) (few : Fintype.card Thread < refsMask)
    {prevHead : Node} {head : Option Node} (here : s.place thread = .lost prevHead head)
    (more : s.freeListRefs prevHead ≠ shouldBeOnFreeList + 1) :
    Inv ((s.setRefs prevHead (wrapSub 32 (s.freeListRefs prevHead) 1)).goto thread (look head))
      nodes stage := by
  have left : crowd (Function.update s.place thread (look head)) (Place.holds prevHead) + 1 =
      crowd s.place (Place.holds prevHead) := by
    refine crowd_update_leave ?_ (look_holds prevHead head)
    rw [here]
    exact decide_eq_true rfl
  have sum := inv.counts.refs prevHead
  have bound : crowd s.place (Place.holds prevHead) ≤ Fintype.card Thread := crowd_le_card
  have weight := (stage prevHead).weight_le
  refine inv.recount_same ?_ ?_ ?_ ?_ ?_ (look_remembers _ head)
  · rw [here, look_charge]
    rfl
  · intro other apart
    rw [here, look_holds]
    exact (decide_eq_false (Ne.symm apart)).symm
  · rw [wrapSub, sum]
    simp only [refsMask, shouldBeOnFreeList] at few weight
    omega
  · intro waiting
    rw [sum, waiting, Stage.weight] at more
    omega
  · intro keeper adding
    have nobody := inv.counts.adding prevHead keeper adding
    omega

/-- The last one to let go of a node that is marked adds it. -/
theorem Inv.resume (inv : Inv s nodes stage) (few : Fintype.card Thread < refsMask)
    {prevHead : Node} {head : Option Node} (here : s.place thread = .lost prevHead head)
    (last : s.freeListRefs prevHead = shouldBeOnFreeList + 1) :
    Inv ((s.setRefs prevHead (wrapSub 32 (s.freeListRefs prevHead) 1)).goto thread
      (.zero prevHead (.tryGet head))) nodes
      (Function.update stage prevHead (.adding thread)) := by
  have left : crowd (Function.update s.place thread (.zero prevHead (.tryGet head)))
      (Place.holds prevHead) + 1 = crowd s.place (Place.holds prevHead) := by
    refine crowd_update_leave ?_ rfl
    rw [here]
    exact decide_eq_true rfl
  have sum := inv.counts.refs prevHead
  have bound : crowd s.place (Place.holds prevHead) ≤ Fintype.card Thread := crowd_le_card
  have marked : stage prevHead = .waiting := by
    cases kind : stage prevHead with
    | waiting => rfl
    | adding keeper =>
      have nobody := inv.counts.adding prevHead keeper kind
      omega
    | _ =>
      rw [last, kind, Stage.weight] at sum
      simp only [refsMask, shouldBeOnFreeList] at few sum
      omega
  rw [last, marked, Stage.weight] at sum
  have before : Agree thread prevHead (stage prevHead) (s.place thread) := by
    rw [marked, here]
    exact .of_none rfl rfl
  refine inv.recount (inv.charged.turn before (.of_charge rfl)) ?_ ?_ (by simp) ?_ ?_ ?_ trivial
  · intro other apart
    rw [here]
    exact (decide_eq_false (Ne.symm apart)).symm
  · rw [wrapSub, last, Stage.weight]
    simp only [shouldBeOnFreeList] at sum ⊢
    omega
  · intro _ _
    omega
  · rw [marked]
    simp
  · rw [marked]
    simp

theorem Inv.offer (inv : Inv s nodes stage) {node : Node} {head : Option Node} {back : Return Node}
    (here : s.place thread = .linked node head back) :
    Inv ((s.setRefs node 1).goto thread (.counted node head back)) nodes
      (Function.update stage node (.offered thread)) := by
  have adding := inv.stage_of here rfl
  have before := inv.agree_of_charge here rfl
  have nobody : crowd (Function.update s.place thread (.counted node head back))
      (Place.holds node) = 0 := by
    rw [crowd_update_same, inv.counts.adding node thread adding]
    rw [here]
    rfl
  have remembers := inv.remembers thread
  rw [here] at remembers
  refine inv.recount (inv.charged.turn before (.of_charge rfl)) ?_ ?_ (by simp) (by simp) ?_ ?_
    remembers
  · intro other _
    rw [here]
    rfl
  · rw [nobody]
    rfl
  · rw [adding]
    simp
  · rw [adding]
    simp

/-- Another node came in between; whoever brings the count down tries again. -/
theorem Inv.refuse (inv : Inv s nodes stage) (few : Fintype.card Thread < refsMask)
    {node : Node} {head : Option Node} {back : Return Node}
    (here : s.place thread = .refused node head back) :
    ∃ stage', Inv ((s.setRefs node
        (wrapAdd 32 (s.freeListRefs node) (shouldBeOnFreeList - 1))).goto thread
      (if s.freeListRefs node = 1 then .linking node head back else back.place)) nodes stage' := by
  have offered := inv.stage_of here rfl
  have before := inv.agree_of_charge here rfl
  have sum := inv.counts.refs node
  have bound : crowd s.place (Place.holds node) ≤ Fintype.card Thread := crowd_le_card
  rw [offered, Stage.weight] at sum
  have total : wrapAdd 32 (s.freeListRefs node) (shouldBeOnFreeList - 1) =
      shouldBeOnFreeList + crowd s.place (Place.holds node) := by
    rw [wrapAdd, sum]
    simp only [refsMask, shouldBeOnFreeList] at few ⊢
    omega
  by_cases single : s.freeListRefs node = 1
  · rw [if_pos single, total]
    have same : crowd (Function.update s.place thread (.linking node head back))
        (Place.holds node) = crowd s.place (Place.holds node) := by
      refine crowd_update_same ?_
      rw [here]
      rfl
    refine ⟨Function.update stage node (.adding thread),
      inv.recount (inv.charged.turn before (.of_charge rfl)) ?_ ?_ (by simp) ?_ ?_ ?_ trivial⟩
    · intro other _
      rw [here]
      rfl
    · rw [same]
      rfl
    · intro _ _
      omega
    · rw [offered]
      simp
    · rw [offered]
      simp
  · rw [if_neg single, total]
    have same : crowd (Function.update s.place thread back.place) (Place.holds node) =
        crowd s.place (Place.holds node) := by
      refine crowd_update_same ?_
      rw [here, back_holds]
      rfl
    refine ⟨Function.update stage node .waiting,
      inv.recount (inv.charged.turn before (.of_none rfl (back_charge thread back)))
        ?_ ?_ ?_ (by simp) ?_ ?_ (back_remembers _ back)⟩
    · intro other _
      rw [here, back_holds]
      rfl
    · rw [same]
      rfl
    · intro _
      omega
    · rw [offered]
      simp
    · rw [offered]
      simp

/-! ## Calls and returns -/

theorem Inv.add (inv : Inv s nodes stage) (few : Fintype.card Thread < refsMask) {node : Node}
    (idle : s.place thread = .idle) (mine : s.withCaller node = true) :
    ∃ stage', Inv (FreeList.add thread node s) nodes stage' := by
  have outside := (inv.caller node).mp mine
  have sum := inv.counts.refs node
  have bound : crowd s.place (Place.holds node) ≤ Fintype.card Thread := crowd_le_card
  rw [outside, Stage.weight, Nat.zero_add] at sum
  have total : wrapAdd 32 (s.freeListRefs node) shouldBeOnFreeList =
      shouldBeOnFreeList + crowd s.place (Place.holds node) := by
    rw [wrapAdd, sum]
    simp only [refsMask, shouldBeOnFreeList] at few ⊢
    omega
  have before : Agree thread node (stage node) (s.place thread) := by
    rw [outside, idle]
    exact .of_none rfl rfl
  have same : ∀ {place : Place Node}, (∀ other, place.holds other = false) →
      (∀ other, place.holds other = (s.place thread).holds other) ∧
        crowd (Function.update s.place thread place) (Place.holds node) =
          crowd s.place (Place.holds node) := by
    intro place nothing
    have holds : ∀ other, place.holds other = (s.place thread).holds other := by
      intro other
      rw [nothing other, idle]
      rfl
    exact ⟨holds, crowd_update_same (holds node)⟩
  have gone : ∀ {kind : Stage Thread}, kind ≠ .outside → ∀ that,
      Function.update s.withCaller node false that = true ↔
        Function.update stage node kind that = .outside := by
    intro kind inside that
    by_cases self : that = node
    · rw [self, Function.update_self, Function.update_self]
      exact iff_of_false Bool.false_ne_true inside
    · rw [Function.update_of_ne self, Function.update_of_ne self]
      exact inv.caller that
  have listed : ∀ {kind : Stage Thread}, kind ≠ .listed → ∀ that,
      that ∈ nodes ↔ Function.update stage node kind that = .listed := by
    intro kind apart that
    refine (inv.listed that).trans (update_iff ?_ that).symm
    rw [outside]
    exact iff_of_false apart (by simp)
  by_cases zero : s.freeListRefs node = 0
  · obtain ⟨holds, count⟩ := @same (.zero node .added) fun _ => rfl
    refine ⟨Function.update stage node (.adding thread), ?_⟩
    rw [FreeList.add, if_pos zero, total]
    exact {
      counts := inv.counts.turn (fun other _ => holds other) (by rw [count]; rfl) (by simp)
        fun _ _ => by omega
      charged := inv.charged.turn before (.of_charge rfl)
      linked := inv.linked
      nodup := inv.nodup
      listed := listed (by simp)
      caller := gone (by simp)
      remembers := remembers_goto inv.remembers trivial }
  · obtain ⟨holds, count⟩ := @same .idle fun _ => rfl
    refine ⟨Function.update stage node .waiting, ?_⟩
    rw [FreeList.add, if_neg zero, total]
    exact {
      counts := inv.counts.turn (fun other _ => holds other) (by rw [count]; rfl)
        (fun _ => by omega) (by simp)
      charged := inv.charged.turn before (.of_none rfl rfl)
      linked := inv.linked
      nodup := inv.nodup
      listed := listed (by simp)
      caller := gone (by simp)
      remembers := remembers_goto inv.remembers trivial }

/-- The node leaves with its caller: the reference of the thread goes, and that
of the list. -/
theorem Inv.handOver (inv : Inv s nodes stage) (few : Fintype.card Thread < refsMask)
    {head : Node} (here : s.place thread = .asserted head) :
    Inv ({ s.setRefs head (wrapSub 32 (s.freeListRefs head) 2) with
        withCaller := Function.update s.withCaller head true }.goto thread .idle) nodes
      (Function.update stage head .outside) := by
  have taken := inv.stage_of here rfl
  have before := inv.agree_of_charge here rfl
  have sum := inv.counts.refs head
  have bound : crowd s.place (Place.holds head) ≤ Fintype.card Thread := crowd_le_card
  rw [taken, Stage.weight] at sum
  have left : crowd (Function.update s.place thread .idle) (Place.holds head) + 1 =
      crowd s.place (Place.holds head) := by
    refine crowd_update_leave ?_ rfl
    rw [here]
    exact decide_eq_true rfl
  have total : wrapSub 32 (s.freeListRefs head) 2 =
      Stage.weight (.outside : Stage Thread) +
        crowd (Function.update s.place thread .idle) (Place.holds head) := by
    rw [wrapSub, sum, Stage.weight]
    simp only [refsMask] at few
    omega
  have others : ∀ other, other ≠ head →
      (Place.idle : Place Node).holds other = (s.place thread).holds other := by
    intro other apart
    rw [here]
    exact (decide_eq_false (Ne.symm apart)).symm
  refine ⟨inv.counts.turn others total (by simp) (by simp),
    inv.charged.turn before (.of_none rfl rfl), inv.linked, inv.nodup, fun that => ?_,
    fun that => ?_, remembers_goto inv.remembers trivial⟩
  · refine (inv.listed that).trans (update_iff ?_ that).symm
    rw [taken]
    simp
  · show Function.update s.withCaller head true that = true ↔ _
    by_cases self : that = head
    · rw [self, Function.update_self, Function.update_self]
      exact iff_of_true rfl rfl
    · rw [Function.update_of_ne self, Function.update_of_ne self]
      exact inv.caller that

/-! ## Accesses to the list -/

/-- What follows the head has not changed since the thread counted itself. -/
theorem Inv.unlink (inv : Inv s nodes stage) {head : Node} {next : Option Node}
    (here : s.place thread = .nextLoaded head next) (first : s.freeListHead = some head) :
    ∃ nodes', Inv ({ s with freeListHead := next }.goto thread (.unlinked head)) nodes'
      (Function.update stage head (.taken thread)) := by
  have linked := inv.linked
  rw [first] at linked
  obtain ⟨rest, rfl, after⟩ := linked.pop
  obtain ⟨fresh, nodup⟩ := List.nodup_cons.mp inv.nodup
  have listed := (inv.listed head).mp List.mem_cons_self
  have remembers := inv.remembers thread
  rw [here, Place.Remembers] at remembers
  have before : Agree thread head (stage head) (s.place thread) := by
    rw [listed, here]
    exact .of_none rfl rfl
  have holds : ∀ node, (Place.unlinked head).holds node = (s.place thread).holds node := by
    intro node
    rw [here]
    rfl
  have counts : Counts (Function.update s.place thread (.unlinked head))
      (Function.update s.freeListRefs head (s.freeListRefs head))
      (Function.update stage head (.taken thread)) := by
    refine inv.counts.turn (fun node _ => holds node) ?_ (by simp) (by simp)
    rw [crowd_update_same (holds head), inv.counts.refs head, listed]
    rfl
  rw [Function.update_eq_self] at counts
  refine ⟨rest, counts, inv.charged.turn before (.of_charge rfl), ?_, nodup, fun that => ?_,
    fun that => ?_, remembers_goto inv.remembers trivial⟩
  · rw [remembers]
    exact after
  · by_cases self : that = head
    · rw [self, Function.update_self]
      exact iff_of_false fresh (by simp)
    · rw [Function.update_of_ne self, ← inv.listed that, List.mem_cons]
      exact (or_iff_right self).symm
  · refine (inv.caller that).trans (update_iff ?_ that).symm
    rw [listed]
    simp

/-- Nobody relies on what follows a node that is not counted. -/
theorem Inv.link (inv : Inv s nodes stage) {node : Node} {head : Option Node} {back : Return Node}
    (here : s.place thread = .linking node head back) :
    Inv ({ s with freeListNext := Function.update s.freeListNext node head }.goto thread
      (.linked node head back)) nodes stage := by
  have adding := inv.stage_of here rfl
  have holds : ∀ that, (Place.linked node head back).holds that = (s.place thread).holds that := by
    intro that
    rw [here]
    rfl
  have charge : (Place.linked node head back).charge thread = (s.place thread).charge thread := by
    rw [here]
    rfl
  have same : ∀ that ∈ nodes,
      Function.update s.freeListNext node head that = s.freeListNext that := by
    intro that inside
    refine Function.update_of_ne ?_ ..
    rintro rfl
    rw [(inv.listed that).mp inside] at adding
    cases adding
  refine ⟨inv.counts.pass holds, inv.charged.pass charge, Linked.congr same inv.linked, inv.nodup,
    inv.listed, inv.caller, remembers_goto (fun other => ?_) (Function.update_self ..)⟩
  · have known := inv.remembers other
    have away := elsewhere_of_crowd (inv.counts.adding node thread adding) other
    cases place : s.place other with
    | nextLoaded read loaded =>
      rw [place] at known away
      have apart : read ≠ node := of_decide_eq_false away
      exact known.trans (Function.update_of_ne apart ..).symm
    | linked that _ _ =>
      rw [place] at known
      have apart : that ≠ node := by
        rintro rfl
        have self := adding.symm.trans (inv.stage_of place rfl)
        cases self
        rw [here] at place
        cases place
      exact (Function.update_of_ne apart ..).trans known
    | counted that _ _ =>
      rw [place] at known
      have apart : that ≠ node := by
        rintro rfl
        have self := adding.symm.trans (inv.stage_of place rfl)
        cases self
      exact (Function.update_of_ne apart ..).trans known
    | refsLoaded _ _ =>
      rw [place] at known
      exact known
    | _ => trivial

theorem Inv.enlist (inv : Inv s nodes stage) {node : Node} {head : Option Node}
    {back : Return Node} (here : s.place thread = .counted node head back)
    (first : s.freeListHead = head) :
    Inv ({ s with freeListHead := some node }.goto thread back.place) (node :: nodes)
      (Function.update stage node .listed) := by
  have offered := inv.stage_of here rfl
  have before := inv.agree_of_charge here rfl
  have remembers := inv.remembers thread
  rw [here, Place.Remembers, ← first] at remembers
  have holds : ∀ that, back.place.holds that = (s.place thread).holds that := by
    intro that
    rw [here, back_holds]
    rfl
  have counts : Counts (Function.update s.place thread back.place)
      (Function.update s.freeListRefs node (s.freeListRefs node))
      (Function.update stage node .listed) := by
    refine inv.counts.turn (fun that _ => holds that) ?_ (by simp) (by simp)
    rw [crowd_update_same (holds node), inv.counts.refs node, offered]
    rfl
  rw [Function.update_eq_self] at counts
  refine ⟨counts, inv.charged.turn before (.of_none rfl (back_charge thread back)),
    inv.linked.push remembers, List.nodup_cons.mpr ⟨fun inside => ?_, inv.nodup⟩, fun that => ?_,
    fun that => ?_, remembers_goto inv.remembers (back_remembers _ back)⟩
  · rw [(inv.listed node).mp inside] at offered
    cases offered
  · by_cases self : that = node
    · rw [self, Function.update_self]
      exact iff_of_true List.mem_cons_self rfl
    · rw [Function.update_of_ne self, ← inv.listed that, List.mem_cons]
      exact or_iff_right self
  · refine (inv.caller that).trans (update_iff ?_ that).symm
    rw [offered]
    simp

/-! ## Steps -/

theorem Inv.progress {next : State Thread Node} {nodes' : List Node} {stage' : Node → Stage Thread}
    (inv' : Inv next nodes' stage') (stepped : FreeList.advance thread s = some (next, []))
    (same : next.withCaller = s.withCaller) :
    ∃ next emitted nodes' stage', FreeList.advance thread s = some (next, emitted) ∧
      Inv next nodes' stage' ∧ Balance s next [] emitted :=
  ⟨next, [], nodes', stage', stepped, inv', .unchanged same⟩

theorem Inv.advance (inv : Inv s nodes stage) (few : Fintype.card Thread < refsMask)
    (busy : s.place thread ≠ .idle) :
    ∃ next emitted nodes' stage', FreeList.advance thread s = some (next, emitted) ∧
      Inv next nodes' stage' ∧ Balance s next [] emitted := by
  cases here : s.place thread with
  | idle => exact absurd here busy
  | looking =>
    have inv' := inv.pass here (look_holds · s.freeListHead) (look_charge ..) (look_remembers ..)
    exact inv'.progress (by simp only [FreeList.advance, here]) rfl
  | headLoaded head =>
    by_cases zero : s.freeListRefs head &&& refsMask = 0
    · have inv' : Inv (s.goto thread .looking) nodes stage :=
        inv.pass here (fun _ => rfl) rfl trivial
      exact inv'.progress (by simp only [FreeList.advance, here, if_pos zero]) rfl
    · have inv' : Inv (s.goto thread (.refsLoaded head (s.freeListRefs head))) nodes stage :=
        inv.pass here (fun _ => rfl) rfl zero
      exact inv'.progress (by simp only [FreeList.advance, here, if_neg zero]) rfl
  | refsLoaded head refs =>
    by_cases same : s.freeListRefs head = refs
    · have inv' := inv.reference few here same
      exact inv'.progress (by simp only [FreeList.advance, here, if_pos same]) rfl
    · have inv' : Inv (s.goto thread .looking) nodes stage :=
        inv.pass here (fun _ => rfl) rfl trivial
      exact inv'.progress (by simp only [FreeList.advance, here, if_neg same]) rfl
  | referenced head =>
    have inv' : Inv (s.goto thread (.nextLoaded head (s.freeListNext head))) nodes stage :=
      inv.pass here (fun _ => rfl) rfl rfl
    exact inv'.progress (by simp only [FreeList.advance, here]) rfl
  | nextLoaded head next =>
    by_cases first : s.freeListHead = some head
    · obtain ⟨nodes', inv'⟩ := inv.unlink here first
      exact inv'.progress (by simp only [FreeList.advance, here, if_pos first]) rfl
    · have inv' : Inv (s.goto thread (.lost head s.freeListHead)) nodes stage :=
        inv.pass here (fun _ => rfl) rfl trivial
      exact inv'.progress (by simp only [FreeList.advance, here, if_neg first]) rfl
  | unlinked head =>
    have inv' : Inv (s.goto thread (.asserted head)) nodes stage :=
      inv.pass here (fun _ => rfl) rfl trivial
    have clear := inv.not_marked few here
    exact inv'.progress (by simp only [FreeList.advance, here, if_pos clear]) rfl
  | asserted head =>
    refine ⟨_, [head], nodes, _, by simp only [FreeList.advance, here]; rfl,
      inv.handOver few here, ?_⟩
    have away : s.withCaller head = false := by
      rw [← Bool.not_eq_true, inv.caller head, inv.stage_of here rfl]
      simp
    intro node
    show (Function.update s.withCaller head true node).toNat + 0 = _
    by_cases self : node = head
    · rw [self, Function.update_self, away, List.count_cons_self]
      rfl
    · rw [Function.update_of_ne self, List.count_cons_of_ne (Ne.symm self)]
      rfl
  | lost prevHead head =>
    by_cases last : s.freeListRefs prevHead = shouldBeOnFreeList + 1
    · have inv' := inv.resume few here last
      exact inv'.progress (by simp only [FreeList.advance, here, if_pos last]) rfl
    · have inv' := inv.release few here last
      exact inv'.progress (by simp only [FreeList.advance, here, if_neg last]) rfl
  | zero node back =>
    have inv' : Inv (s.goto thread (.linking node s.freeListHead back)) nodes stage :=
      inv.pass here (fun _ => rfl) rfl trivial
    exact inv'.progress (by simp only [FreeList.advance, here]) rfl
  | linking node head back =>
    exact (inv.link here).progress (by simp only [FreeList.advance, here]) rfl
  | linked node head back =>
    exact (inv.offer here).progress (by simp only [FreeList.advance, here]) rfl
  | counted node head back =>
    by_cases first : s.freeListHead = head
    · have inv' := inv.enlist here first
      exact inv'.progress (by simp only [FreeList.advance, here, if_pos first]) rfl
    · have inv' : Inv (s.goto thread (.refused node s.freeListHead back)) nodes stage :=
        inv.pass here (fun _ => rfl) rfl trivial
      exact inv'.progress (by simp only [FreeList.advance, here, if_neg first]) rfl
  | refused node head back =>
    obtain ⟨stage', inv'⟩ := inv.refuse few here
    by_cases single : s.freeListRefs node = 1
    · rw [if_pos single] at inv'
      exact inv'.progress (by simp only [FreeList.advance, here, if_pos single]) rfl
    · rw [if_neg single] at inv'
      exact inv'.progress (by simp only [FreeList.advance, here, if_neg single]) rfl

theorem Inv.step (inv : Inv s nodes stage) (few : Fintype.card Thread < refsMask)
    {label : Label Thread Node} (allowed : label.Allowed s) :
    ∃ next emitted nodes' stage', FreeList.step s label = some (next, emitted) ∧
      Inv next nodes' stage' ∧ Balance s next label.adds emitted := by
  cases label with
  | add thread node =>
    obtain ⟨idle, mine⟩ := allowed
    obtain ⟨stage', inv'⟩ := inv.add few idle mine
    refine ⟨_, [], nodes, stage', rfl, inv', fun that => ?_⟩
    show (Function.update s.withCaller node false that).toNat + [node].count that = _ + 0
    by_cases self : that = node
    · rw [self, Function.update_self, mine, List.count_cons_self]
      rfl
    · rw [Function.update_of_ne self, List.count_cons_of_ne (Ne.symm self)]
      rfl
  | tryGet thread =>
    have inv' := inv.pass allowed (look_holds · s.freeListHead) (look_charge ..)
      (look_remembers ..)
    exact ⟨_, [], nodes, stage, rfl, inv', .unchanged rfl⟩
  | advance thread => exact inv.advance few allowed

end Invariant

end BinanceNativeApp.Queue.FreeList
