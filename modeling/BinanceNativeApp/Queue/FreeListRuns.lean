import BinanceNativeApp.Queue.FreeListSteps

/-!
# Runs of the free list

Whatever the order of the accesses, no node is handed to two callers, and none
is lost.  A thread that is left alone comes to the end of its call, wherever the
others have been stopped.
-/

set_option autoImplicit false

namespace BinanceNativeApp.Queue.FreeList

open BinanceNativeApp.Library.Circular
open BinanceNativeApp.Library.Shared
open BinanceNativeApp.Library.Transition

variable {Thread Node : Type}

section Runs
variable [Fintype Thread] [DecidableEq Node]

def Resting (s : State Thread Node) : Prop := ∀ thread, s.place thread = .idle

/-- Then each node is with a caller or on the list. -/
theorem Inv.resting {s : State Thread Node} {nodes : List Node} {stage : Node → Stage Thread}
    (inv : Inv s nodes stage) (resting : Resting s) (node : Node) :
    (node ∈ nodes ↔ s.withCaller node = false) ∧
      s.freeListRefs node = (!s.withCaller node).toNat := by
  have nobody : crowd s.place (Place.holds node) = 0 := by
    refine crowd_eq_zero _ _ fun thread => ?_
    rw [resting thread]
    rfl
  have free : (stage node).keeper = none := by
    cases kept : (stage node).keeper with
    | none => rfl
    | some keeper =>
      have charge := inv.charged.kept node keeper kept
      rw [resting keeper] at charge
      cases charge
  have sum := inv.counts.refs node
  have caller := inv.caller node
  rw [inv.listed node]
  cases kind : stage node with
  | outside =>
    rw [kind] at sum caller
    rw [caller.mpr rfl, sum, nobody]
    simp [Stage.weight]
  | listed =>
    have away : s.withCaller node = false := by
      rw [← Bool.not_eq_true, caller, kind]
      simp
    rw [kind] at sum
    rw [away, sum, nobody]
    exact ⟨iff_of_true rfl rfl, rfl⟩
  | waiting => exact absurd nobody (Nat.ne_of_gt (inv.counts.waiting node kind))
  | _ =>
    rw [kind] at free
    cases free

variable [DecidableEq Thread]

theorem inv_init :
    Inv (freeList : System (State Thread Node) _ _).init [] fun _ => .outside where
  counts := by
    refine ⟨fun node => ?_, by simp, by simp⟩
    rw [Stage.weight, Nat.zero_add]
    exact (crowd_eq_zero (fun _ : Thread => .idle) (Place.holds node) fun _ => rfl).symm
  charged := ⟨by simp [freeList, Place.charge], by simp [Stage.keeper]⟩
  linked := rfl
  nodup := List.nodup_nil
  listed := fun _ => iff_of_false List.not_mem_nil (by simp)
  caller := fun _ => iff_of_true rfl rfl
  remembers := fun _ => trivial

theorem Inv.path {s final : State Thread Node}
    {moves : List (Move (State Thread Node) (Label Thread Node) Node)}
    (few : Fintype.card Thread < refsMask) (path : Path freeList s moves final) :
    ∀ {nodes stage}, Inv s nodes stage → (∃ nodes' stage', Inv final nodes' stage') ∧
      Balance s final (moves.flatMap fun move => move.label.adds)
        (moves.flatMap Move.emitted) := by
  induction path with
  | nil state => exact fun inv => ⟨⟨_, _, inv⟩, .unchanged rfl⟩
  | cons permitted stepped rest ih =>
    intro nodes stage inv
    obtain ⟨next, emitted, nodes', stage', stepped', inv', balance⟩ := inv.step few permitted
    obtain ⟨rfl, rfl⟩ := Prod.mk.inj (Option.some.inj (stepped.symm.trans stepped'))
    obtain ⟨kept, later⟩ := ih inv'
    refine ⟨kept, fun node => ?_⟩
    have now := balance node
    have after := later node
    simp only [List.flatMap_cons, List.count_append]
    omega

variable {moves : List (Move (State Thread Node) (Label Thread Node) Node)}
  {final : State Thread Node}

/-- Whatever the order of the accesses, a node that was handed out is not handed
out again before it is added again, and every access has a meaning; in particular
what `try_get` asserts is so.  No node is lost: once all calls have returned, the
nodes from the head on are those that were added once more than handed out, each
of them once, and only they are counted. -/
theorem nodes_handed_once (few : Fintype.card Thread < refsMask)
    (path : Path freeList freeList.init moves final) :
    (∀ node, (moves.flatMap fun move => move.label.adds).count node =
      (moves.flatMap Move.emitted).count node + (!final.withCaller node).toNat) ∧
    (∀ label : Label Thread Node, label.Allowed final →
      ∃ next emitted, step final label = some (next, emitted)) ∧
    (Resting final → ∃ nodes, Linked final.freeListNext final.freeListHead nodes ∧ nodes.Nodup ∧
      ∀ node, (node ∈ nodes ↔ (moves.flatMap fun move => move.label.adds).count node =
          (moves.flatMap Move.emitted).count node + 1) ∧
        final.freeListRefs node = (!final.withCaller node).toNat) := by
  obtain ⟨⟨nodes, stage, inv⟩, balance⟩ := Inv.path few path inv_init
  have counted : ∀ node, (moves.flatMap fun move => move.label.adds).count node =
      (moves.flatMap Move.emitted).count node + (!final.withCaller node).toNat := by
    intro node
    have sum : (final.withCaller node).toNat +
        (moves.flatMap fun move => move.label.adds).count node =
          1 + (moves.flatMap Move.emitted).count node := balance node
    have side : (final.withCaller node).toNat + (!final.withCaller node).toNat = 1 := by
      cases final.withCaller node <;> rfl
    omega
  refine ⟨counted, fun label allowed => ?_, fun resting => ⟨nodes, inv.linked, inv.nodup, ?_⟩⟩
  · obtain ⟨next, emitted, -, -, stepped, -⟩ := inv.step few allowed
    exact ⟨next, emitted, stepped⟩
  · intro node
    obtain ⟨listed, refs⟩ := inv.resting resting node
    refine ⟨?_, refs⟩
    rw [listed, counted node]
    cases final.withCaller node <;> simp

end Runs

def passedOn : List (Label Bool Nat) :=
  .add true 7 :: List.replicate 4 (.advance true) ++
    .tryGet false :: List.replicate 6 (.advance false)

theorem nodes_handed_once_passedOn :
    ∃ (moves : List (Move (State Bool Nat) (Label Bool Nat) Nat)) (final : State Bool Nat),
      moves.map Move.label = passedOn ∧ moves.flatMap Move.emitted = [7] ∧
        (moves.flatMap fun move => move.label.adds).count 7 = 1 + (!final.withCaller 7).toNat := by
  have checked : ∃ final, sequence (fun label s =>
      if (freeList : System (State Bool Nat) _ _).allowed s label then freeList.step s label
      else none) passedOn (freeList : System (State Bool Nat) _ _).init = some (final, [7]) :=
    ⟨_, rfl⟩
  obtain ⟨final, ran⟩ := checked
  obtain ⟨moves, path, labels, emitted⟩ := path_of_checked ran
  have counted := (nodes_handed_once (by decide) path).1 7
  rw [emitted] at counted
  exact ⟨moves, final, labels, emitted, counted⟩

/-! ## Threads that are left alone -/

@[simp] theorem goto_place [DecidableEq Thread] (s : State Thread Node) (thread : Thread)
    (place : Place Node) : (s.goto thread place).place thread = place := Function.update_self ..

/-- The thread comes to the end of its call in so many accesses at most. -/
inductive Returns [DecidableEq Thread] [DecidableEq Node] (thread : Thread) :
    Nat → State Thread Node → Prop
  | idle {count : Nat} {s : State Thread Node} (here : s.place thread = .idle) :
      Returns thread count s
  | access {count : Nat} {s next : State Thread Node} {emitted : List Node}
      (stepped : advance thread s = some (next, emitted)) (rest : Returns thread count next) :
      Returns thread (count + 1) s

section Returning
variable [DecidableEq Thread] [DecidableEq Node] {s : State Thread Node} {thread : Thread}
  {count : Nat}

theorem Returns.mono (returns : Returns thread count s) :
    ∀ {more : Nat}, count ≤ more → Returns thread more s := by
  induction returns with
  | idle here => exact fun _ => .idle here
  | access stepped rest ih =>
    intro more enough
    cases more with
    | zero => omega
    | succ more => exact .access stepped (ih (by omega))

theorem Returns.path (returns : Returns thread count s) :
    ∃ moves final, Path freeList s moves final ∧ (∀ move ∈ moves, move.label = .advance thread) ∧
      moves.length ≤ count ∧ final.place thread = .idle := by
  induction returns with
  | idle here => exact ⟨[], _, .nil _, by simp, Nat.zero_le _, here⟩
  | @access count s next emitted stepped rest ih =>
    obtain ⟨moves, final, path, mine, short, idle⟩ := ih
    have busy : s.place thread ≠ .idle := by
      intro idle
      simp only [advance, idle] at stepped
      cases stepped
    refine ⟨⟨s, .advance thread, emitted, next⟩ :: moves, final, .cons busy stepped path, ?_,
      Nat.succ_le_succ short, idle⟩
    intro move member
    rcases List.mem_cons.mp member with rfl | later
    · rfl
    · exact mine move later

theorem returns_asserted {head : Node} (here : s.place thread = .asserted head) :
    Returns thread 1 s := by
  have left : ∃ next, advance thread s = some (next, [head]) ∧ next.place thread = .idle := by
    simp only [advance, here]
    exact ⟨_, rfl, goto_place ..⟩
  obtain ⟨next, stepped, idle⟩ := left
  exact .access stepped (.idle idle)

end Returning

section Alone
variable [Fintype Thread] [DecidableEq Thread] [DecidableEq Node] {s : State Thread Node}
  {nodes : List Node} {stage : Node → Stage Thread} {thread : Thread} {count : Nat}

/-! ### With the head that is there -/

theorem returns_unlinked (inv : Inv s nodes stage) (few : Fintype.card Thread < refsMask)
    {head : Node} (here : s.place thread = .unlinked head) : Returns thread 2 s := by
  have clear := inv.not_marked few here
  have stepped : advance thread s = some (s.goto thread (.asserted head), []) := by
    simp only [advance, here, if_pos clear]
  exact .access stepped (returns_asserted (goto_place ..))

theorem returns_first (inv : Inv s nodes stage) (few : Fintype.card Thread < refsMask)
    {head : Node} {next : Option Node} (here : s.place thread = .nextLoaded head next)
    (first : s.freeListHead = some head) : Returns thread 3 s := by
  obtain ⟨nodes', inv'⟩ := inv.unlink here first
  have stepped : advance thread s =
      some ({ s with freeListHead := next }.goto thread (.unlinked head), []) := by
    simp only [advance, here, if_pos first]
  exact .access stepped (returns_unlinked inv' few (goto_place ..))

theorem returns_referenced (inv : Inv s nodes stage) {head : Node}
    (here : s.place thread = .referenced head)
    (after : ∀ next, Inv next nodes stage → next.freeListHead = s.freeListHead →
      next.place thread = .nextLoaded head (next.freeListNext head) → Returns thread count next) :
    Returns thread (count + 1) s := by
  have inv' : Inv (s.goto thread (.nextLoaded head (s.freeListNext head))) nodes stage :=
    inv.pass here (fun _ => rfl) rfl rfl
  have stepped : advance thread s =
      some (s.goto thread (.nextLoaded head (s.freeListNext head)), []) := by
    simp only [advance, here]
  exact .access stepped (after _ inv' rfl (goto_place ..))

theorem returns_headLoaded (inv : Inv s nodes stage) (few : Fintype.card Thread < refsMask)
    {head : Node} (here : s.place thread = .headLoaded head)
    (counted : ¬ s.freeListRefs head &&& refsMask = 0)
    (after : ∀ next, Inv next nodes stage → next.freeListHead = s.freeListHead →
      next.place thread = .nextLoaded head (next.freeListNext head) → Returns thread count next) :
    Returns thread (count + 3) s := by
  have inv' : Inv (s.goto thread (.refsLoaded head (s.freeListRefs head))) nodes stage :=
    inv.pass here (fun _ => rfl) rfl counted
  have stepped : advance thread s =
      some (s.goto thread (.refsLoaded head (s.freeListRefs head)), []) := by
    simp only [advance, here, if_neg counted]
  have inv'' := inv'.reference few (goto_place ..) rfl
  have counting : advance thread (s.goto thread (.refsLoaded head (s.freeListRefs head))) =
      some (((s.goto thread (.refsLoaded head (s.freeListRefs head))).setRefs head
        (wrapAdd 32 (s.freeListRefs head) 1)).goto thread (.referenced head), []) := by
    simp only [advance, goto_place]
    exact if_pos rfl
  refine .access stepped (.access counting (returns_referenced inv'' (goto_place ..) ?_))
  exact fun next inv' same => after next inv' same

theorem returns_look (inv : Inv s nodes stage) (few : Fintype.card Thread < refsMask)
    (here : s.place thread = look s.freeListHead) : Returns thread 6 s := by
  cases first : s.freeListHead with
  | none =>
    rw [first] at here
    exact .idle here
  | some head =>
    rw [first] at here
    have counted := (inv.counted_of_mem few (inv.head_mem first)).1
    refine returns_headLoaded inv few here counted fun next inv' same loaded => ?_
    exact returns_first inv' few loaded (same.trans first)

theorem returns_looking (inv : Inv s nodes stage) (few : Fintype.card Thread < refsMask)
    (here : s.place thread = .looking) : Returns thread 7 s := by
  have inv' := inv.pass here (look_holds · s.freeListHead) (look_charge ..) (look_remembers ..)
  have stepped : advance thread s = some (s.goto thread (look s.freeListHead), []) := by
    simp only [advance, here]
  exact .access stepped (returns_look inv' few (goto_place ..))

theorem returns_counted (inv : Inv s nodes stage) {node : Node} {back : Return Node}
    (here : s.place thread = .counted node s.freeListHead back)
    (after : ∀ next stage', Inv next (node :: nodes) stage' → next.place thread = back.place →
      Returns thread count next) : Returns thread (count + 1) s := by
  have inv' := inv.enlist here rfl
  have stepped : advance thread s =
      some ({ s with freeListHead := some node }.goto thread back.place, []) := by
    simp only [advance, here, if_true]
  exact .access stepped (after _ _ inv' (goto_place ..))

theorem returns_linked (inv : Inv s nodes stage) {node : Node} {back : Return Node}
    (here : s.place thread = .linked node s.freeListHead back)
    (after : ∀ next stage', Inv next (node :: nodes) stage' → next.place thread = back.place →
      Returns thread count next) : Returns thread (count + 2) s := by
  have inv' := inv.offer here
  have stepped : advance thread s =
      some ((s.setRefs node 1).goto thread (.counted node s.freeListHead back), []) := by
    simp only [advance, here]
  exact .access stepped (returns_counted inv' (goto_place ..) after)

theorem returns_linking (inv : Inv s nodes stage) {node : Node} {back : Return Node}
    (here : s.place thread = .linking node s.freeListHead back)
    (after : ∀ next stage', Inv next (node :: nodes) stage' → next.place thread = back.place →
      Returns thread count next) : Returns thread (count + 3) s := by
  have inv' := inv.link here
  have stepped : advance thread s =
      some ({ s with freeListNext := Function.update s.freeListNext node s.freeListHead }.goto
        thread (.linked node s.freeListHead back), []) := by
    simp only [advance, here]
  exact .access stepped (returns_linked inv' (goto_place ..) after)

theorem returns_zero (inv : Inv s nodes stage) {node : Node} {back : Return Node}
    (here : s.place thread = .zero node back)
    (after : ∀ next stage', Inv next (node :: nodes) stage' → next.place thread = back.place →
      Returns thread count next) : Returns thread (count + 4) s := by
  have inv' : Inv (s.goto thread (.linking node s.freeListHead back)) nodes stage :=
    inv.pass here (fun _ => rfl) rfl trivial
  have stepped : advance thread s =
      some (s.goto thread (.linking node s.freeListHead back), []) := by
    simp only [advance, here]
  exact .access stepped (returns_linking inv' (goto_place ..) after)

/-! ### With a head that may be gone -/

theorem returns_lost_more (inv : Inv s nodes stage) (few : Fintype.card Thread < refsMask)
    {prevHead : Node} {head : Option Node} (here : s.place thread = .lost prevHead head)
    (more : s.freeListRefs prevHead ≠ shouldBeOnFreeList + 1)
    (after : ∀ next, Inv next nodes stage → next.freeListHead = s.freeListHead →
      next.place thread = look head → Returns thread count next) :
    Returns thread (count + 1) s := by
  have inv' := inv.release few here more
  have stepped : advance thread s =
      some ((s.setRefs prevHead (wrapSub 32 (s.freeListRefs prevHead) 1)).goto thread
        (look head), []) := by
    simp only [advance, here, if_neg more]
  exact .access stepped (after _ inv' rfl (goto_place ..))

theorem returns_lost (inv : Inv s nodes stage) (few : Fintype.card Thread < refsMask)
    {prevHead : Node} {head : Option Node} (here : s.place thread = .lost prevHead head)
    (after : ∀ next nodes' stage', Inv next nodes' stage' → (∀ node ∈ nodes, node ∈ nodes') →
      next.place thread = look head → Returns thread count next) :
    Returns thread (count + 5) s := by
  by_cases last : s.freeListRefs prevHead = shouldBeOnFreeList + 1
  · have inv' := inv.resume few here last
    have stepped : advance thread s =
        some ((s.setRefs prevHead (wrapSub 32 (s.freeListRefs prevHead) 1)).goto thread
          (.zero prevHead (.tryGet head)), []) := by
      simp only [advance, here, if_pos last]
    refine .access stepped (returns_zero inv' (goto_place ..) fun next stage' inv'' returned => ?_)
    exact after next _ stage' inv'' (fun _ inside => List.mem_cons_of_mem _ inside) returned
  · have returns := returns_lost_more inv few here last fun next inv' _ loaded =>
      after next nodes stage inv' (fun _ inside => inside) loaded
    exact returns.mono (by omega)

theorem returns_nextLoaded (inv : Inv s nodes stage) (few : Fintype.card Thread < refsMask)
    {head : Node} {next : Option Node} (here : s.place thread = .nextLoaded head next)
    (enough : 2 ≤ count)
    (after : ∀ next, Inv next nodes stage → next.place thread = .lost head next.freeListHead →
      Returns thread count next) : Returns thread (count + 1) s := by
  by_cases first : s.freeListHead = some head
  · exact (returns_first inv few here first).mono (by omega)
  · have inv' : Inv (s.goto thread (.lost head s.freeListHead)) nodes stage :=
      inv.pass here (fun _ => rfl) rfl trivial
    have stepped : advance thread s = some (s.goto thread (.lost head s.freeListHead), []) := by
      simp only [advance, here, if_neg first]
    exact .access stepped (after _ inv' (goto_place ..))

theorem returns_listed (inv : Inv s nodes stage) (few : Fintype.card Thread < refsMask)
    {head : Option Node} (here : s.place thread = look head)
    (inside : ∀ node, head = some node → node ∈ nodes) : Returns thread 11 s := by
  cases head with
  | none => exact .idle here
  | some node =>
    have counted := (inv.counted_of_mem few (inside node rfl)).1
    refine returns_headLoaded inv few here counted fun next inv' _ loaded => ?_
    refine returns_nextLoaded inv' few loaded (by omega) fun next inv'' lost => ?_
    have more := (inv''.counted_of_mem few (inside node rfl)).2
    refine returns_lost_more inv'' few lost more fun last inv''' same loaded => ?_
    exact returns_look inv''' few (same.symm ▸ loaded)

/-- If the node has to be added on the way, the head loaded before that is on the
list still. -/
theorem returns_gone (inv : Inv s nodes stage) (few : Fintype.card Thread < refsMask)
    {head : Node} {next : Option Node} (here : s.place thread = .nextLoaded head next) :
    Returns thread 17 s := by
  refine returns_nextLoaded inv few here (by omega) fun next inv' lost => ?_
  refine returns_lost inv' few lost fun last nodes' stage' inv'' more loaded => ?_
  refine returns_listed inv'' few loaded fun node first => ?_
  exact more node (inv'.head_mem first)

theorem returns_loaded (inv : Inv s nodes stage) (few : Fintype.card Thread < refsMask)
    {head : Option Node} (here : s.place thread = look head) : Returns thread 20 s := by
  cases head with
  | none => exact .idle here
  | some node =>
    by_cases zero : s.freeListRefs node &&& refsMask = 0
    · have inv' : Inv (s.goto thread .looking) nodes stage :=
        inv.pass here (fun _ => rfl) rfl trivial
      have stepped : advance thread s = some (s.goto thread .looking, []) := by
        simp only [advance, here, look, if_pos zero]
      exact (Returns.access stepped (returns_looking inv' few (goto_place ..))).mono (by omega)
    · refine returns_headLoaded inv few here zero fun next inv' _ loaded => ?_
      exact returns_gone inv' few loaded

theorem returns_back (inv : Inv s nodes stage) (few : Fintype.card Thread < refsMask)
    {back : Return Node} (here : s.place thread = back.place) : Returns thread 20 s := by
  cases back with
  | added => exact .idle here
  | tryGet head => exact returns_loaded inv few here

theorem returns_refused (inv : Inv s nodes stage) (few : Fintype.card Thread < refsMask)
    {node : Node} {head : Option Node} {back : Return Node}
    (here : s.place thread = .refused node head back)
    (again : ∀ next stage', Inv next nodes stage' → next.freeListHead = s.freeListHead →
      next.place thread = .linking node head back → Returns thread count next)
    (after : ∀ next stage', Inv next nodes stage' → next.place thread = back.place →
      Returns thread count next) : Returns thread (count + 1) s := by
  obtain ⟨stage', inv'⟩ := inv.refuse few here
  by_cases single : s.freeListRefs node = 1
  · rw [if_pos single] at inv'
    have stepped : advance thread s = some ((s.setRefs node (wrapAdd 32 (s.freeListRefs node)
        (shouldBeOnFreeList - 1))).goto thread (.linking node head back), []) := by
      simp only [advance, here, if_pos single]
    exact .access stepped (again _ stage' inv' rfl (goto_place ..))
  · rw [if_neg single] at inv'
    have stepped : advance thread s = some ((s.setRefs node (wrapAdd 32 (s.freeListRefs node)
        (shouldBeOnFreeList - 1))).goto thread back.place, []) := by
      simp only [advance, here, if_neg single]
    exact .access stepped (after _ stage' inv' (goto_place ..))

/-- A node that was not added for another head is added for that one. -/
theorem returns_retry (inv : Inv s nodes stage) (few : Fintype.card Thread < refsMask)
    {node : Node} {head : Option Node} {back : Return Node}
    (here : s.place thread = .counted node head back) : Returns thread 25 s := by
  by_cases first : s.freeListHead = head
  · subst first
    refine (returns_counted inv here fun next stage' inv' returned => ?_).mono
      (by omega : 21 ≤ 25)
    exact returns_back inv' few returned
  · have inv' : Inv (s.goto thread (.refused node s.freeListHead back)) nodes stage :=
      inv.pass here (fun _ => rfl) rfl trivial
    have stepped : advance thread s =
        some (s.goto thread (.refused node s.freeListHead back), []) := by
      simp only [advance, here, if_neg first]
    refine .access stepped (returns_refused inv' few (goto_place ..) ?_ ?_)
    · intro next stage' inv'' same linking
      refine returns_linking inv'' (same ▸ linking) fun last stage'' inv''' returned => ?_
      exact returns_back inv''' few returned
    · intro next stage' inv'' returned
      exact (returns_back inv'' few returned).mono (by omega)

theorem returns_linked_retry (inv : Inv s nodes stage) (few : Fintype.card Thread < refsMask)
    {node : Node} {head : Option Node} {back : Return Node}
    (here : s.place thread = .linked node head back) : Returns thread 26 s := by
  have inv' := inv.offer here
  have stepped : advance thread s =
      some ((s.setRefs node 1).goto thread (.counted node head back), []) := by
    simp only [advance, here]
  exact .access stepped (returns_retry inv' few (goto_place ..))

theorem returns_linking_retry (inv : Inv s nodes stage) (few : Fintype.card Thread < refsMask)
    {node : Node} {head : Option Node} {back : Return Node}
    (here : s.place thread = .linking node head back) : Returns thread 27 s := by
  have inv' := inv.link here
  have stepped : advance thread s =
      some ({ s with freeListNext := Function.update s.freeListNext node head }.goto thread
        (.linked node head back), []) := by
    simp only [advance, here]
  exact .access stepped (returns_linked_retry inv' few (goto_place ..))

theorem returns_anywhere (inv : Inv s nodes stage) (few : Fintype.card Thread < refsMask)
    (thread : Thread) : Returns thread 28 s := by
  cases here : s.place thread with
  | idle => exact .idle here
  | looking => exact (returns_looking inv few here).mono (by omega)
  | headLoaded head =>
    have loaded : s.place thread = look (some head) := here
    exact (returns_loaded inv few loaded).mono (by omega)
  | refsLoaded head refs =>
    by_cases same : s.freeListRefs head = refs
    · have inv' := inv.reference few here same
      have stepped : advance thread s =
          some ((s.setRefs head (wrapAdd 32 refs 1)).goto thread (.referenced head), []) := by
        simp only [advance, here, if_pos same]
      have returns := returns_referenced inv' (goto_place ..) fun next inv'' _ loaded =>
        returns_gone inv'' few loaded
      exact (Returns.access stepped returns).mono (by omega)
    · have inv' : Inv (s.goto thread .looking) nodes stage :=
        inv.pass here (fun _ => rfl) rfl trivial
      have stepped : advance thread s = some (s.goto thread .looking, []) := by
        simp only [advance, here, if_neg same]
      exact (Returns.access stepped (returns_looking inv' few (goto_place ..))).mono (by omega)
  | referenced head =>
    have returns := returns_referenced inv here fun next inv' _ loaded =>
      returns_gone inv' few loaded
    exact returns.mono (by omega)
  | nextLoaded head next => exact (returns_gone inv few here).mono (by omega)
  | unlinked head => exact (returns_unlinked inv few here).mono (by omega)
  | asserted head => exact (returns_asserted here).mono (by omega)
  | lost prevHead head =>
    have returns := returns_lost inv few here fun next nodes' stage' inv' _ loaded =>
      returns_loaded inv' few loaded
    exact returns.mono (by omega)
  | zero node back =>
    have returns := returns_zero inv here fun next stage' inv' returned =>
      returns_back inv' few returned
    exact returns.mono (by omega)
  | linking node head back => exact (returns_linking_retry inv few here).mono (by omega)
  | linked node head back => exact (returns_linked_retry inv few here).mono (by omega)
  | counted node head back => exact (returns_retry inv few here).mono (by omega)
  | refused node head back =>
    refine returns_refused inv few here ?_ ?_
    · intro next stage' inv' _ linking
      exact returns_linking_retry inv' few linking
    · intro next stage' inv' returned
      exact (returns_back inv' few returned).mono (by omega)

/-- Wherever the threads have been stopped, one of them that goes on alone comes
to the end of its call after so many accesses at most: none of them waits for
another. -/
theorem alone_returns (few : Fintype.card Thread < refsMask) (reached : Reachable freeList s)
    (thread : Thread) :
    ∃ moves final, Path freeList s moves final ∧ (∀ move ∈ moves, move.label = .advance thread) ∧
      moves.length ≤ 28 ∧ final.place thread = .idle := by
  obtain ⟨earlier, path⟩ := reached
  obtain ⟨⟨nodes, stage, inv⟩, -⟩ := Inv.path few path inv_init
  exact (returns_anywhere inv few thread).path

end Alone

def contended : List (Label Bool Nat) :=
  .add true 7 :: List.replicate 4 (.advance true) ++
    [.tryGet false, .advance false, .advance false, .tryGet true]

theorem alone_returns_contended :
    ∃ s : State Bool Nat, s.place true = .headLoaded 7 ∧ s.place false = .referenced 7 ∧
      ∃ moves final, Path freeList s moves final ∧ (∀ move ∈ moves, move.label = .advance true) ∧
        moves.length ≤ 28 ∧ final.place true = .idle := by
  have checked : ∃ s, sequence (fun label s =>
      if (freeList : System (State Bool Nat) _ _).allowed s label then freeList.step s label
      else none) contended (freeList : System (State Bool Nat) _ _).init = some (s, []) ∧
        s.place true = .headLoaded 7 ∧ s.place false = .referenced 7 := ⟨_, rfl, rfl, rfl⟩
  obtain ⟨s, ran, first, second⟩ := checked
  obtain ⟨moves, path, -, -⟩ := path_of_checked ran
  exact ⟨s, first, second, alone_returns (by decide) ⟨moves, path⟩ true⟩

end BinanceNativeApp.Queue.FreeList
