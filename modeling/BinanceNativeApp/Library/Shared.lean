import Mathlib.Algebra.BigOperators.Group.Finset.Basic
import Mathlib.Algebra.BigOperators.Group.Finset.Piecewise
import Mathlib.Data.Fintype.Card
import Mathlib.Logic.Function.Basic

/-!
# Nodes that threads share

A list is linked through the memory of its nodes: what is on it depends on its
head and on what each of its nodes says comes next.  How many threads use a
node is counted over the places where they all are; one thread that goes from a
place to another changes that count by one at most.
-/

set_option autoImplicit false

namespace BinanceNativeApp.Library.Shared

universe u v w

/-! ## Linked lists -/

section Lists
variable {Node : Type u} {next next' : Node → Option Node} {nodes : List Node} {node : Node}

/-- What is found from a head on. -/
def Linked (next : Node → Option Node) : Option Node → List Node → Prop
  | head, [] => head = none
  | head, node :: rest => head = some node ∧ Linked next (next node) rest

theorem Linked.congr (same : ∀ node ∈ nodes, next' node = next node) :
    ∀ {head : Option Node}, Linked next head nodes → Linked next' head nodes := by
  induction nodes with
  | nil => exact fun linked => linked
  | cons first rest ih =>
    intro head linked
    refine ⟨linked.1, ?_⟩
    rw [same first List.mem_cons_self]
    exact ih (fun node later => same node (List.mem_cons_of_mem _ later)) linked.2

theorem Linked.push {head : Option Node} (linked : Linked next head nodes)
    (before : next node = head) : Linked next (some node) (node :: nodes) :=
  ⟨rfl, before.symm ▸ linked⟩

theorem Linked.pop (linked : Linked next (some node) nodes) :
    ∃ rest, nodes = node :: rest ∧ Linked next (next node) rest := by
  cases nodes with
  | nil => cases linked
  | cons first rest =>
    obtain ⟨same, linked⟩ := linked
    cases same
    exact ⟨rest, rfl, linked⟩

end Lists

/-! ## Threads at their places -/

section Crowds
variable {Thread : Type u} {Place : Type v} [Fintype Thread]

def crowd (places : Thread → Place) (kind : Place → Bool) : Nat :=
  (Finset.univ.filter fun thread => kind (places thread) = true).card

variable {places : Thread → Place} {kind : Place → Bool} {thread : Thread}

theorem crowd_le_card : crowd places kind ≤ Fintype.card Thread := Finset.card_le_univ _

theorem crowd_pos (here : kind (places thread) = true) : 0 < crowd places kind :=
  Finset.card_pos.mpr ⟨thread, Finset.mem_filter.mpr ⟨Finset.mem_univ thread, here⟩⟩

theorem elsewhere_of_crowd (nobody : crowd places kind = 0) (thread : Thread) :
    kind (places thread) = false := by
  rw [← Bool.not_eq_true]
  intro here
  exact absurd nobody (Nat.ne_of_gt (crowd_pos here))

theorem crowd_eq_zero (places : Thread → Place) (kind : Place → Bool)
    (elsewhere : ∀ thread, kind (places thread) = false) : crowd places kind = 0 := by
  refine Finset.card_eq_zero.mpr (Finset.filter_eq_empty_iff.mpr fun thread _ => ?_)
  rw [elsewhere thread]
  exact Bool.false_ne_true

variable [DecidableEq Thread]

theorem crowd_update (places : Thread → Place) (kind : Place → Bool) (thread : Thread)
    (place : Place) :
    crowd (Function.update places thread place) kind + (if kind (places thread) then 1 else 0) =
      crowd places kind + if kind place then 1 else 0 := by
  have others : ∀ other ∈ Finset.univ.erase thread,
      (if kind (Function.update places thread place other) = true then 1 else 0) =
        if kind (places other) = true then 1 else 0 := by
    intro other apart
    rw [Function.update_of_ne (Finset.ne_of_mem_erase apart)]
  have before : crowd places kind = (if kind (places thread) then 1 else 0) +
      ∑ other ∈ Finset.univ.erase thread, if kind (places other) = true then 1 else 0 := by
    rw [crowd, Finset.card_filter]
    exact (Finset.add_sum_erase _ _ (Finset.mem_univ thread)).symm
  rw [before, crowd, Finset.card_filter, ← Finset.add_sum_erase _ _ (Finset.mem_univ thread),
    Finset.sum_congr rfl others, Function.update_self]
  omega

theorem crowd_update_same {place : Place} (same : kind place = kind (places thread)) :
    crowd (Function.update places thread place) kind = crowd places kind := by
  have sum := crowd_update places kind thread place
  rw [same] at sum
  omega

theorem crowd_update_enter {place : Place} (before : kind (places thread) = false)
    (after : kind place = true) :
    crowd (Function.update places thread place) kind = crowd places kind + 1 := by
  have sum := crowd_update places kind thread place
  rw [before, after] at sum
  exact sum

theorem crowd_update_leave {place : Place} (before : kind (places thread) = true)
    (after : kind place = false) :
    crowd (Function.update places thread place) kind + 1 = crowd places kind := by
  have sum := crowd_update places kind thread place
  rw [before, after] at sum
  exact sum

end Crowds

end BinanceNativeApp.Library.Shared
