import BinanceNativeApp.Queue.FreeListRuns

/-!
# Calls of the free list one after the other

`addBlockToFreeList` and `tryGetBlockFromFreeList` are what the accesses of a
thread come to when no other thread is at work in between.
-/

set_option autoImplicit false

namespace BinanceNativeApp.Queue.FreeList

open BinanceNativeApp.Library.Circular

variable {T Thread : Type}

/-! ## Blocks in shared memory -/

structure Shares (pool : Pool T) (s : State Thread Nat) : Prop where
  head : s.freeListHead = pool.freeListHead
  refs : ∀ pointer block, pool.blocks[pointer]? = some block →
    s.freeListRefs pointer = block.freeListRefs
  next : ∀ pointer block, pool.blocks[pointer]? = some block →
    s.freeListNext pointer = block.freeListNext

theorem Shares.set {pool : Pool T} {s s' : State Thread Nat} {node : Nat} {block block' : Block T}
    {head : Option Nat} (shares : Shares pool s) (there : pool.blocks[node]? = some block)
    (first : s'.freeListHead = head)
    (refs : s'.freeListRefs = Function.update s.freeListRefs node block'.freeListRefs)
    (next : s'.freeListNext = Function.update s.freeListNext node block'.freeListNext) :
    Shares { pool with blocks := pool.blocks.set node block', freeListHead := head } s' := by
  refine ⟨first, fun pointer found inside => ?_, fun pointer found inside => ?_⟩
  · by_cases same : pointer = node
    · rw [same, set_there there] at inside
      cases inside
      rw [refs, same, Function.update_self]
    · rw [set_elsewhere same] at inside
      rw [refs, Function.update_of_ne same]
      exact shares.refs pointer found inside
  · by_cases same : pointer = node
    · rw [same, set_there there] at inside
      cases inside
      rw [next, same, Function.update_self]
    · rw [set_elsewhere same] at inside
      rw [next, Function.update_of_ne same]
      exact shares.next pointer found inside

/-! ## Accesses with nothing in between -/

section Accesses
variable [DecidableEq Thread]

/-- The thread goes on alone until its call returns; `handed` is what that
returns. -/
inductive Alone (thread : Thread) : State Thread Nat → List Nat → State Thread Nat → Prop
  | done {s : State Thread Nat} (idle : s.place thread = .idle) : Alone thread s [] s
  | access {s next final : State Thread Nat} {emitted handed : List Nat}
      (stepped : advance thread s = some (next, emitted)) (rest : Alone thread next handed final) :
      Alone thread s (emitted ++ handed) final

variable {s : State Thread Nat} {thread : Thread} {node : Nat}

theorem zero_alone (here : s.place thread = .zero node .added) :
    ∃ next, Alone thread s [] next ∧ next.freeListHead = some node ∧
      next.freeListRefs = Function.update s.freeListRefs node 1 ∧
      next.freeListNext = Function.update s.freeListNext node s.freeListHead := by
  let linking := s.goto thread (.linking node s.freeListHead .added)
  let linked := { linking with
    freeListNext := Function.update s.freeListNext node s.freeListHead }.goto thread
      (.linked node s.freeListHead .added)
  let counted := (linked.setRefs node 1).goto thread (.counted node s.freeListHead .added)
  let final := { counted with freeListHead := some node }.goto thread .idle
  have first : advance thread s = some (linking, []) := by
    simp only [advance, here]
    rfl
  have second : advance thread linking = some (linked, []) := by
    simp only [advance, linking, goto_place]
    rfl
  have third : advance thread linked = some (counted, []) := by
    simp only [advance, linked, goto_place]
    rfl
  have fourth : advance thread counted = some (final, []) := by
    simp only [advance, counted, goto_place]
    exact if_pos rfl
  refine ⟨final, ?_, rfl, rfl, rfl⟩
  exact .access first (.access second (.access third (.access fourth (.done (goto_place ..)))))

theorem headLoaded_alone {head : Nat} (here : s.place thread = .headLoaded head)
    (first : s.freeListHead = some head) (counted : ¬ s.freeListRefs head &&& refsMask = 0)
    (clear : wrapAdd 32 (s.freeListRefs head) 1 &&& shouldBeOnFreeList = 0) :
    ∃ next, Alone thread s [head] next ∧ next.freeListHead = s.freeListNext head ∧
      next.freeListRefs = Function.update s.freeListRefs head
        (wrapSub 32 (wrapAdd 32 (s.freeListRefs head) 1) 2) ∧
      next.freeListNext = s.freeListNext := by
  let refs := wrapAdd 32 (s.freeListRefs head) 1
  let loaded := s.goto thread (.refsLoaded head (s.freeListRefs head))
  let referenced := (loaded.setRefs head refs).goto thread (.referenced head)
  let nextLoaded := referenced.goto thread (.nextLoaded head (s.freeListNext head))
  let unlinked := { nextLoaded with freeListHead := s.freeListNext head }.goto thread
    (.unlinked head)
  let asserted := unlinked.goto thread (.asserted head)
  let released := asserted.setRefs head (wrapSub 32 (asserted.freeListRefs head) 2)
  let final := { released with
    withCaller := Function.update released.withCaller head true }.goto thread .idle
  have now : asserted.freeListRefs head = refs := Function.update_self ..
  have one : advance thread s = some (loaded, []) := by
    simp only [advance, here, if_neg counted]
    rfl
  have two : advance thread loaded = some (referenced, []) := by
    simp only [advance, loaded, goto_place]
    exact if_pos rfl
  have three : advance thread referenced = some (nextLoaded, []) := by
    simp only [advance, referenced, goto_place]
    rfl
  have four : advance thread nextLoaded = some (unlinked, []) := by
    simp only [advance, nextLoaded, goto_place]
    exact if_pos first
  have five : advance thread unlinked = some (asserted, []) := by
    simp only [advance, unlinked, goto_place]
    rw [show unlinked.freeListRefs head = refs from now]
    exact if_pos clear
  have six : advance thread asserted = some (final, [head]) := by
    simp only [advance, asserted, goto_place]
    rfl
  refine ⟨final, ?_, rfl, ?_, rfl⟩
  · exact .access one (.access two (.access three (.access four (.access five
      (.access six (.done (goto_place ..)))))))
  · show Function.update (Function.update s.freeListRefs head refs) head
      (wrapSub 32 (asserted.freeListRefs head) 2) = _
    rw [now, Function.update_idem]

variable {pool pool' : Pool T}

theorem addBlockToFreeList_alone (shares : Shares pool s) (thread : Thread)
    (added : addBlockToFreeList node pool = some pool') :
    ∃ next, Alone thread (add thread node s) [] next ∧ Shares pool' next := by
  obtain ⟨block, there, added⟩ := Option.bind_eq_some_iff.mp added
  have refs := shares.refs node block there
  rw [Pool.at_some there, Option.bind_eq_bind, Option.bind_some] at added
  by_cases zero : block.freeListRefs = 0
  · rw [if_pos zero, addKnowingRefcountIsZero, Pool.at_some (set_there there _)] at added
    cases added
    have here : (add thread node s).place thread = .zero node .added := by
      rw [add, goto_place, if_pos (refs.trans zero)]
    obtain ⟨next, alone, first, counted, linked⟩ := zero_alone here
    refine ⟨next, alone, ?_⟩
    rw [List.set_set]
    refine shares.set there first ?_ ?_
    · rw [counted]
      exact Function.update_idem ..
    · rw [linked, ← shares.head]
      rfl
  · rw [if_neg zero] at added
    cases added
    have here : (add thread node s).place thread = .idle := by
      rw [add, goto_place, if_neg fun none => zero (refs.symm.trans none)]
    refine ⟨_, .done here, shares.set there shares.head ?_ ?_⟩
    · rw [← refs]
      rfl
    · rw [← shares.next node block there, Function.update_eq_self]
      rfl

theorem tryGetBlockFromFreeList_alone (shares : Shares pool s) (thread : Thread)
    {head : Option Nat} (taken : tryGetBlockFromFreeList pool = some (head, pool')) :
    ∃ next, Alone thread (s.goto thread (look s.freeListHead)) head.toList next ∧
      Shares pool' next := by
  rw [tryGetBlockFromFreeList, ← shares.head] at taken
  cases first : s.freeListHead with
  | none =>
    rw [first] at taken
    cases taken
    exact ⟨_, .done (goto_place ..), shares.head, shares.refs, shares.next⟩
  | some node =>
    rw [first] at taken
    obtain ⟨block, there, taken⟩ := Option.bind_eq_some_iff.mp taken
    have refs := shares.refs node block there
    by_cases zero : block.freeListRefs &&& refsMask = 0
    · rw [if_pos zero] at taken
      cases taken
    · rw [if_neg zero] at taken
      by_cases clear : wrapAdd 32 block.freeListRefs 1 &&& shouldBeOnFreeList = 0
      · simp only [if_pos clear, Pool.at_some there, Option.bind_eq_bind, Option.bind_some]
          at taken
        cases taken
        rw [← refs] at zero clear
        obtain ⟨next, alone, unlinked, released, same⟩ :=
          headLoaded_alone (goto_place s thread (.headLoaded node)) first zero clear
        refine ⟨next, alone, shares.set there ?_ ?_ ?_⟩
        · rw [unlinked]
          exact shares.next node block there
        · rw [released, ← refs]
          rfl
        · rw [same, ← shares.next node block there]
          exact (Function.update_eq_self ..).symm
      · simp only [if_neg clear] at taken
        cases taken

end Accesses

end BinanceNativeApp.Queue.FreeList
