import BinanceNativeApp.Library.Containers

/-!
# Interning

A pool keeps one object for each key it was ever asked for and answers with a
pointer to it.  It only grows, so that a pointer it has given out stays good,
and equal pointers mean equal keys as soon as the objects tell the keys apart.
-/

set_option autoImplicit false

namespace BinanceNativeApp.Library.Interning

open BinanceNativeApp.Library.Containers

universe u v

structure Pool (Key : Type u) (Value : Type v) where
  pointers : UnorderedMap Key Nat
  objects : Objects Value

namespace Pool
variable {Key : Type u} {Value : Type v}

def empty : Pool Key Value := ⟨UnorderedMap.empty, Objects.empty⟩

def intern [DecidableEq Key] (make : Key → Value) (key : Key) (pool : Pool Key Value) :
    Nat × Pool Key Value :=
  match pool.pointers.find key with
  | some found => (found, pool)
  | none =>
      let (pointer, objects) := pool.objects.create (make key)
      (pointer, ⟨pool.pointers.assign key pointer, objects⟩)

/-- Every key leads to its own object. -/
structure Interned (make : Key → Value) (pool : Pool Key Value) : Prop where
  allocated : ∀ key pointer, pool.pointers.find key = some pointer → pointer < pool.objects.next
  object : ∀ key pointer, pool.pointers.find key = some pointer →
    pool.objects.read pointer = some (make key)

def Extends (pool later : Pool Key Value) : Prop :=
  ∀ key pointer, pool.pointers.find key = some pointer →
    later.pointers.find key = some pointer ∧
      later.objects.read pointer = pool.objects.read pointer

theorem extends_refl (pool : Pool Key Value) : Extends pool pool :=
  fun _ _ found => ⟨found, rfl⟩

theorem extends_trans {first second third : Pool Key Value} (left : Extends first second)
    (right : Extends second third) : Extends first third := by
  intro key pointer found
  obtain ⟨kept, same⟩ := left key pointer found
  obtain ⟨keptLater, sameLater⟩ := right key pointer kept
  exact ⟨keptLater, sameLater.trans same⟩

theorem empty_interned (make : Key → Value) : Interned make (empty : Pool Key Value) := by
  constructor <;> (intro key pointer found; cases found)

theorem pointer_eq_iff {make : Key → Value} (injective : Function.Injective make)
    {pool : Pool Key Value} (interned : Interned make pool) {one other : Key}
    {pointer otherPointer : Nat} (found : pool.pointers.find one = some pointer)
    (otherFound : pool.pointers.find other = some otherPointer) :
    one = other ↔ pointer = otherPointer := by
  constructor
  · intro same
    subst same
    exact Option.some.inj (found.symm.trans otherFound)
  · intro same
    subst same
    have object := interned.object one pointer found
    rw [interned.object other pointer otherFound] at object
    exact (injective (Option.some.inj object)).symm

variable [DecidableEq Key]

theorem intern_spec {make : Key → Value} {pool : Pool Key Value} (interned : Interned make pool)
    (key : Key) :
    (intern make key pool).2.pointers.find key = some (intern make key pool).1 ∧
      Interned make (intern make key pool).2 ∧ Extends pool (intern make key pool).2 := by
  cases found : pool.pointers.find key with
  | some pointer =>
      have same : intern make key pool = (pointer, pool) := by rw [intern, found]
      rw [same]
      exact ⟨found, interned, extends_refl pool⟩
  | none =>
      simp only [intern, found, Objects.create]
      have fresh : ∀ other pointer, pool.pointers.find other = some pointer → other ≠ key := by
        intro other pointer foundOther same
        rw [same, found] at foundOther
        cases foundOther
      refine ⟨UnorderedMap.find_assign_self _ _ _, ⟨?_, ?_⟩, ?_⟩
      · intro other pointer foundOther
        by_cases same : other = key
        · rw [same, UnorderedMap.find_assign_self] at foundOther
          rw [← Option.some.inj foundOther]
          exact Nat.lt_succ_self _
        · rw [UnorderedMap.find_assign_of_ne _ _ same] at foundOther
          exact Nat.lt_succ_of_lt (interned.allocated other pointer foundOther)
      · intro other pointer foundOther
        by_cases same : other = key
        · rw [same, UnorderedMap.find_assign_self] at foundOther
          rw [← Option.some.inj foundOther, same]
          exact Objects.read_create_self pool.objects (make key)
        · rw [UnorderedMap.find_assign_of_ne _ _ same] at foundOther
          have earlier := interned.allocated other pointer foundOther
          rw [← interned.object other pointer foundOther]
          exact Objects.read_create_of_ne pool.objects (make key) (Nat.ne_of_lt earlier)
      · intro other pointer foundOther
        refine ⟨?_, ?_⟩
        · rw [UnorderedMap.find_assign_of_ne _ _ (fresh other pointer foundOther)]
          exact foundOther
        · have earlier := interned.allocated other pointer foundOther
          exact Objects.read_create_of_ne pool.objects (make key) (Nat.ne_of_lt earlier)

end Pool

end BinanceNativeApp.Library.Interning
