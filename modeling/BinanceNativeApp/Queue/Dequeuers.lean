import BinanceNativeApp.Queue.Tickets

/-!
# Threads that dequeue at once

Every element is taken by one thread.  The counters of a run of less than half
the range do not wrap.
-/

set_option autoImplicit false

namespace BinanceNativeApp.Queue.Dequeuers

open BinanceNativeApp.Library.Circular
open BinanceNativeApp.Library.Transition

variable {Thread T : Type}

/-! ## Elements and those who take them -/

/-- `given` are the elements constructed so far, `out` those moved out, with the
indices they had. -/
structure Handed (s : State Thread T) (given : List T) (out : List (Nat × T)) : Prop where
  length : given.length = s.tailIndex + if s.constructed then 1 else 0
  claims : ∀ thread index, s.dequeuing thread = .claimed index →
    index < s.headIndex ∧ index ∉ out.map Prod.fst
  distinct : ∀ thread other index, s.dequeuing thread = .claimed index →
    s.dequeuing other = .claimed index → thread = other
  known : ∀ taken ∈ out, taken.1 < s.headIndex ∧ given[taken.1]? = some taken.2
  nodup : (out.map Prod.fst).Nodup
  handed : ∀ index, index < s.headIndex →
    index ∈ out.map Prod.fst ∨ ∃ thread, s.dequeuing thread = .claimed index
  elements : ∀ index, s.elements index = if index ∈ out.map Prod.fst then none else given[index]?

theorem Handed.other_counters {s : State Thread T} {given : List T} {out : List (Nat × T)}
    (handed : Handed s given out) (dequeueOptimisticCount dequeueOvercommit : Nat) :
    Handed { s with
      dequeueOptimisticCount := dequeueOptimisticCount
      dequeueOvercommit := dequeueOvercommit } given out :=
  ⟨handed.length, handed.claims, handed.distinct, handed.known, handed.nodup, handed.handed,
    handed.elements⟩

section Elements
variable [DecidableEq Thread] {s : State Thread T} {given : List T} {out : List (Nat × T)}
  {thread : Thread} {place : Dequeuing}

theorem Handed.goto (handed : Handed s given out)
    (before : ∀ index, s.dequeuing thread ≠ .claimed index)
    (after : ∀ index, place ≠ .claimed index) : Handed (s.goto thread place) given out := by
  have same : ∀ other index, (s.goto thread place).dequeuing other = .claimed index ↔
      s.dequeuing other = .claimed index := by
    intro other index
    show Function.update s.dequeuing thread place other = _ ↔ _
    by_cases self : other = thread
    · rw [self, Function.update_self]
      exact iff_of_false (after index) (before index)
    · rw [Function.update_of_ne self]
  refine ⟨handed.length, ?_, ?_, handed.known, handed.nodup, ?_, handed.elements⟩
  · intro other index claimed
    exact handed.claims other index ((same other index).mp claimed)
  · intro other other' index claimed claimed'
    exact handed.distinct other other' index ((same other index).mp claimed)
      ((same other' index).mp claimed')
  · intro index below
    refine (handed.handed index below).imp id fun found => ?_
    obtain ⟨other, claimed⟩ := found
    exact ⟨other, (same other index).mpr claimed⟩

theorem Handed.claim (handed : Handed s given out)
    (before : ∀ index, s.dequeuing thread ≠ .claimed index) :
    Handed ({ s with headIndex := s.headIndex + 1 }.goto thread (.claimed s.headIndex)) given
      out := by
  have others : ∀ other index,
      Function.update s.dequeuing thread (.claimed s.headIndex) other = .claimed index →
        other = thread ∧ index = s.headIndex ∨ s.dequeuing other = .claimed index := by
    intro other index claimed
    by_cases self : other = thread
    · rw [self, Function.update_self] at claimed
      cases claimed
      exact .inl ⟨self, rfl⟩
    · rw [Function.update_of_ne self] at claimed
      exact .inr claimed
  refine ⟨handed.length, ?_, ?_, ?_, handed.nodup, ?_, handed.elements⟩
  · intro other index claimed
    rcases others other index claimed with ⟨-, rfl⟩ | old
    · refine ⟨Nat.lt_succ_self _, fun taken => ?_⟩
      obtain ⟨pair, inside, same⟩ := List.mem_map.mp taken
      have below := (handed.known pair inside).1
      omega
    · obtain ⟨below, kept⟩ := handed.claims other index old
      exact ⟨Nat.lt_succ_of_lt below, kept⟩
  · intro other other' index claimed claimed'
    rcases others other index claimed with ⟨self, first⟩ | old <;>
      rcases others other' index claimed' with ⟨self', second⟩ | old'
    · rw [self, self']
    · have below := (handed.claims other' index old').1
      omega
    · have below := (handed.claims other index old).1
      omega
    · exact handed.distinct other other' index old old'
  · intro taken inside
    obtain ⟨below, found⟩ := handed.known taken inside
    exact ⟨Nat.lt_succ_of_lt below, found⟩
  · intro index below
    rcases Nat.eq_or_lt_of_le (Nat.le_of_lt_succ below) with rfl | old
    · exact .inr ⟨thread, Function.update_self ..⟩
    · refine (handed.handed index old).imp id fun found => ?_
      obtain ⟨other, claimed⟩ := found
      refine ⟨other, ?_⟩
      show Function.update s.dequeuing thread _ other = _
      rw [Function.update_of_ne]
      · exact claimed
      · rintro rfl
        exact before index claimed

/-- The element is there for the thread that has its index, and for no other. -/
theorem Handed.moveOut (handed : Handed s given out) (below : s.headIndex ≤ s.tailIndex)
    {index : Nat} (claimed : s.dequeuing thread = .claimed index) :
    ∃ element, s.elements index = some element ∧
      Handed ({ s with elements := Function.update s.elements index none }.goto thread .idle) given
        (out ++ [(index, element)]) := by
  obtain ⟨inside, untaken⟩ := handed.claims thread index claimed
  have short : index < given.length := by
    have length := handed.length
    omega
  have there := handed.elements index
  rw [if_neg untaken, List.getElem?_eq_getElem short] at there
  have names : (out ++ [(index, given[index])]).map Prod.fst = out.map Prod.fst ++ [index] := by
    rw [List.map_append]
    rfl
  have others : ∀ other i, Function.update s.dequeuing thread .idle other = .claimed i →
      other ≠ thread ∧ s.dequeuing other = .claimed i := by
    intro other i found
    by_cases self : other = thread
    · rw [self, Function.update_self] at found
      cases found
    · rw [Function.update_of_ne self] at found
      exact ⟨self, found⟩
  refine ⟨given[index], there, handed.length, ?_, ?_, ?_, ?_, ?_, ?_⟩
  · intro other i found
    obtain ⟨different, found⟩ := others other i found
    obtain ⟨low, kept⟩ := handed.claims other i found
    refine ⟨low, fun taken => ?_⟩
    rw [names] at taken
    rcases List.mem_append.mp taken with old | new
    · exact kept old
    · rw [List.mem_singleton.mp new] at found
      exact different (handed.distinct other thread index found claimed)
  · intro other other' i found found'
    exact handed.distinct other other' i (others other i found).2 (others other' i found').2
  · intro taken known
    rcases List.mem_append.mp known with old | new
    · exact handed.known taken old
    · rw [List.mem_singleton.mp new]
      exact ⟨inside, List.getElem?_eq_getElem short⟩
  · rw [names]
    exact List.nodup_append.mpr ⟨handed.nodup, List.nodup_singleton _,
      fun i old j new same => untaken (List.mem_singleton.mp new ▸ same ▸ old)⟩
  · intro i low
    rw [names]
    by_cases same : i = index
    · exact .inl (List.mem_append_right _ (List.mem_singleton.mpr same))
    · rcases handed.handed i low with old | ⟨other, found⟩
      · exact .inl (List.mem_append_left _ old)
      · refine .inr ⟨other, ?_⟩
        show Function.update s.dequeuing thread .idle other = _
        rw [Function.update_of_ne]
        · exact found
        · rintro rfl
          rw [claimed] at found
          cases found
          exact same rfl
  · intro i
    show Function.update s.elements index none i = _
    rw [names]
    by_cases same : i = index
    · rw [same, Function.update_self, if_pos]
      exact List.mem_append_right _ (List.mem_singleton.mpr rfl)
    · rw [Function.update_of_ne same, handed.elements i]
      have taken : i ∈ out.map Prod.fst ++ [index] ↔ i ∈ out.map Prod.fst := by
        rw [List.mem_append, List.mem_singleton]
        exact or_iff_left same
      simp only [taken]

end Elements

/-! ## Steps -/

/-- After `n` accesses; `tickets` is what the threads have counted for
themselves. -/
structure Inv (n : Nat) (s : State Thread T) (tickets : List (Ticket Thread)) (given : List T)
    (out : List (Nat × T)) : Prop where
  counted : Counted s tickets
  handed : Handed s given out
  tail : s.tailIndex ≤ n
  optimistic : s.dequeueOptimisticCount ≤ n

def Label.constructs : Label Thread T → List T
  | .construct element => [element]
  | _ => []

section Invariant
variable {w n : Nat} {s : State Thread T} {tickets : List (Ticket Thread)}
  {given : List T} {out : List (Nat × T)} {thread : Thread}

theorem Inv.construct (inv : Inv n s tickets given out) (allowed : s.constructed = false)
    (element : T) :
    s.elements s.tailIndex = none ∧
      Inv (n + 1)
        { s with
          elements := Function.update s.elements s.tailIndex (some element)
          constructed := true } tickets (given ++ [element]) out := by
  obtain ⟨counted, handed, tail, optimistic⟩ := inv
  have length : given.length = s.tailIndex := by
    rw [handed.length, allowed]
    rfl
  have order := counted.head_le_tail
  have untaken : s.tailIndex ∉ out.map Prod.fst := by
    intro taken
    obtain ⟨pair, inside, same⟩ := List.mem_map.mp taken
    have below := (handed.known pair inside).1
    omega
  constructor
  · rw [handed.elements, if_neg untaken, List.getElem?_eq_none (Nat.le_of_eq length)]
  · refine ⟨counted.other_elements _ true, ⟨?_, handed.claims, handed.distinct, ?_,
      handed.nodup, handed.handed, ?_⟩, Nat.le_succ_of_le tail, Nat.le_succ_of_le optimistic⟩
    · rw [List.length_append, List.length_singleton, length]
      rfl
    · intro taken inside
      obtain ⟨below, found⟩ := handed.known taken inside
      exact ⟨below, by rw [List.getElem?_append_left (by omega), found]⟩
    · intro index
      show Function.update s.elements s.tailIndex (some element) index = _
      by_cases last : index = s.tailIndex
      · rw [last, Function.update_self, if_neg untaken, ← length, List.getElem?_concat_length]
      · rw [Function.update_of_ne last, handed.elements]
        split
        · rfl
        · rcases Nat.lt_or_ge index given.length with inside | past
          · rw [List.getElem?_append_left inside]
          · rw [List.getElem?_eq_none past, List.getElem?_eq_none]
            rw [List.length_append, List.length_singleton]
            omega

theorem Inv.publish (inv : Inv n s tickets given out) (allowed : s.constructed = true) :
    Inv (n + 1) { s with tailIndex := s.tailIndex + 1, constructed := false } tickets given
      out := by
  obtain ⟨counted, handed, tail, optimistic⟩ := inv
  refine ⟨⟨counted.length, counted.head, counted.overcommit, counted.sound.mono (Nat.le_succ _),
    counted.loaded, counted.mine, counted.theirs, counted.single⟩, ⟨?_, handed.claims,
    handed.distinct, handed.known, handed.nodup, handed.handed, handed.elements⟩,
    Nat.succ_le_succ tail, Nat.le_succ_of_le optimistic⟩
  rw [handed.length, allowed]
  rfl

variable [DecidableEq Thread]

theorem inv_init : Inv 0 (queue w : System (State Thread T) _ _).init [] [] [] := by
  have nothing : ∀ {k : Nat} {ticket : Ticket Thread},
      ([] : List (Ticket Thread))[k]? ≠ some ticket :=
    fun there => by cases there
  refine ⟨⟨rfl, rfl, rfl, fun _ _ there => absurd there nothing, fun _ => trivial, nofun,
    fun _ _ there => absurd there nothing, fun _ _ _ _ there => absurd there nothing⟩,
    ⟨rfl, nofun, nofun, nofun, List.nodup_nil, nofun, fun _ => rfl⟩, Nat.le_refl _, Nat.le_refl _⟩

theorem Inv.goto (inv : Inv n s tickets given out) {place : Dequeuing}
    (idle : (s.dequeuing thread).busy = false) (next : place.busy = false)
    (loaded : place.Loaded s.dequeueOvercommit)
    (before : ∀ index, s.dequeuing thread ≠ .claimed index)
    (after : ∀ index, place ≠ .claimed index) :
    Inv (n + 1) (s.goto thread place) tickets given out :=
  ⟨inv.counted.goto idle next loaded, inv.handed.goto before after, Nat.le_succ_of_le inv.tail,
    Nat.le_succ_of_le inv.optimistic⟩

theorem Inv.advance (positive : 0 < w) (short : n < 2 ^ (w - 1))
    (inv : Inv n s tickets given out) (thread : Thread) :
    ∃ next emitted tickets', advance w thread s = some (next, emitted) ∧
      Inv (n + 1) next tickets' given (out ++ emitted) := by
  have half := half_range positive
  have counted := inv.counted
  have handed := inv.handed
  have tail := inv.tail
  have optimistic := inv.optimistic
  have order := counted.head_le_tail
  have lost := counted.overcommit_le
  have all := won_add_lost_le tickets
  have length := counted.length
  cases place : s.dequeuing thread with
  | idle =>
    refine ⟨_, [], tickets, by rw [Dequeuers.advance, place], ?_⟩
    rw [List.append_nil]
    exact inv.goto (by rw [place]; rfl) rfl trivial (by rw [place]; exact nofun) nofun
  | tailLoaded tail =>
    refine ⟨_, [], tickets, by rw [Dequeuers.advance, place], ?_⟩
    rw [List.append_nil]
    exact inv.goto (by rw [place]; rfl) rfl (Nat.le_refl _) (by rw [place]; exact nofun) nofun
  | overcommitLoaded tail overcommit =>
    have loaded := counted.loaded thread
    rw [place] at loaded
    by_cases less :
        circularLessThan w (wrapSub w s.dequeueOptimisticCount overcommit) tail = true
    · refine ⟨s.goto thread (.likely overcommit), [], tickets, ?_, ?_⟩
      · rw [Dequeuers.advance, place]
        exact if_pos less
      · rw [List.append_nil]
        exact inv.goto (by rw [place]; rfl) rfl loaded (by rw [place]; exact nofun) nofun
    · refine ⟨s.goto thread .idle, [], tickets, ?_, ?_⟩
      · rw [Dequeuers.advance, place]
        exact if_neg less
      · rw [List.append_nil]
        exact inv.goto (by rw [place]; rfl) rfl trivial (by rw [place]; exact nofun) nofun
  | likely overcommit =>
    have next : wrapAdd w s.dequeueOptimisticCount 1 = s.dequeueOptimisticCount + 1 :=
      wrapAdd_of_lt (by omega)
    refine ⟨_, [], _, by rw [Dequeuers.advance, place]; simp only [next], counted.take place, ?_,
      Nat.le_succ_of_le tail, Nat.succ_le_succ optimistic⟩
    rw [List.append_nil]
    exact (handed.other_counters (s.dequeueOptimisticCount + 1) s.dequeueOvercommit).goto
      (by rw [place]; exact nofun) nofun
  | counted overcommit my =>
    obtain ⟨k, ticket, there, rfl, here⟩ := counted.ticket place rfl
    obtain ⟨⟨⟩, stage⟩ | ⟨⟨⟩, -⟩ | ⟨⟨⟩, -⟩ := here
    have given := (counted.sound _ ticket there).1
    have fewer : lostTickets (tickets.take my) ≤ my :=
      Nat.le_trans List.countP_le_length (List.length_take_le _ _)
    have inside := (List.getElem?_eq_some_iff.mp there).1
    have difference : wrapSub w my ticket.overcommit = my - ticket.overcommit :=
      wrapSub_of_le (by omega) (by omega)
    have less := circularLessThan_of_lt positive (a := my - ticket.overcommit)
      (b := s.tailIndex) (by omega) (by omega)
    by_cases below :
        circularLessThan w (wrapSub w my ticket.overcommit) s.tailIndex = true
    · refine ⟨s.goto ticket.owner .passed, [], tickets.set my { ticket with stage := .passed }, ?_,
        counted.move there (by rw [stage]; rfl) rfl rfl rfl ?_ ?_ (Nat.le_refl _) ?_ trivial
          (fun _ => .inr (.inl ⟨rfl, rfl⟩)) nofun, ?_, Nat.le_succ_of_le tail,
        Nat.le_succ_of_le optimistic⟩
      · rw [Dequeuers.advance, place]
        exact if_pos below
      · exact (countP_set_same there (by rw [stage]; rfl)).trans counted.head
      · exact (countP_set_same there (by rw [stage]; rfl)).trans counted.overcommit
      · refine counted.sound.set there .passed (by rw [stage]; exact nofun) fun _ => ?_
        rw [difference, less] at below
        omega
      · rw [List.append_nil]
        exact handed.goto (by rw [place]; exact nofun) nofun
    · refine ⟨s.goto ticket.owner .exceeded, [], tickets.set my { ticket with stage := .exceeded },
        ?_, counted.move there (by rw [stage]; rfl) rfl rfl rfl ?_ ?_ (Nat.le_refl _) ?_ trivial
          (fun _ => .inr (.inr ⟨rfl, rfl⟩)) nofun, ?_, Nat.le_succ_of_le tail,
        Nat.le_succ_of_le optimistic⟩
      · rw [Dequeuers.advance, place]
        exact if_neg below
      · exact (countP_set_same there (by rw [stage]; rfl)).trans counted.head
      · exact (countP_set_same there (by rw [stage]; rfl)).trans counted.overcommit
      · exact counted.sound.set there .exceeded (fun _ => rfl) nofun
      · rw [List.append_nil]
        exact handed.goto (by rw [place]; exact nofun) nofun
  | passed =>
    obtain ⟨k, ticket, there, rfl, here⟩ := counted.ticket place rfl
    obtain ⟨⟨⟩, -⟩ | ⟨-, stage⟩ | ⟨⟨⟩, -⟩ := here
    have next : wrapAdd w s.headIndex 1 = s.headIndex + 1 := wrapAdd_of_lt (by omega)
    refine ⟨{ s with headIndex := s.headIndex + 1 }.goto ticket.owner (.claimed s.headIndex), [],
      tickets.set k { ticket with stage := .claimed },
      by rw [Dequeuers.advance, place]; simp only [next],
      counted.move there (by rw [stage]; rfl) rfl rfl rfl ?_ ?_ (Nat.le_refl _) ?_ ?_ nofun
        fun _ => rfl, ?_, Nat.le_succ_of_le tail, Nat.le_succ_of_le optimistic⟩
    · rw [countP_set_succ there (by rw [stage]; rfl) rfl, counted.head]
      rfl
    · exact (countP_set_same there (by rw [stage]; rfl)).trans counted.overcommit
    · refine counted.sound.set there .claimed (by rw [stage]; exact nofun) fun _ => ?_
      exact (counted.sound k ticket there).2 (by rw [stage]; rfl)
    · trivial
    · rw [List.append_nil]
      exact handed.claim (by rw [place]; exact nofun)
  | claimed index =>
    obtain ⟨element, found, handed'⟩ := handed.moveOut order place
    refine ⟨{ s with elements := Function.update s.elements index none }.goto thread .idle,
      [(index, element)], tickets, by rw [Dequeuers.advance, place]; simp only [found],
      (counted.other_elements _ s.constructed).goto (by rw [place]; rfl) rfl ?_, handed',
      Nat.le_succ_of_le tail, Nat.le_succ_of_le optimistic⟩
    trivial
  | exceeded =>
    obtain ⟨k, ticket, there, rfl, here⟩ := counted.ticket place rfl
    obtain ⟨⟨⟩, -⟩ | ⟨⟨⟩, -⟩ | ⟨-, stage⟩ := here
    have next : wrapAdd w s.dequeueOvercommit 1 = s.dequeueOvercommit + 1 :=
      wrapAdd_of_lt (by omega)
    refine ⟨{ s with dequeueOvercommit := s.dequeueOvercommit + 1 }.goto ticket.owner .idle, [],
      tickets.set k { ticket with stage := .settled },
      by rw [Dequeuers.advance, place]; simp only [next],
      counted.move there (by rw [stage]; rfl) rfl rfl rfl ?_ ?_ (Nat.le_succ _) ?_ ?_ nofun
        fun _ => rfl, ?_, Nat.le_succ_of_le tail, Nat.le_succ_of_le optimistic⟩
    · exact (countP_set_same there (by rw [stage]; rfl)).trans counted.head
    · rw [countP_set_succ there (by rw [stage]; rfl) rfl, counted.overcommit]
      rfl
    · exact counted.sound.set there .settled (fun _ => rfl) nofun
    · trivial
    · rw [List.append_nil]
      exact (handed.other_counters s.dequeueOptimisticCount (s.dequeueOvercommit + 1)).goto
        (by rw [place]; exact nofun) nofun

theorem Inv.step (positive : 0 < w) (short : n < 2 ^ (w - 1))
    (inv : Inv n s tickets given out) {label : Label Thread T} (allowed : label.Allowed s) :
    ∃ next emitted tickets', step w s label = some (next, emitted) ∧
      Inv (n + 1) next tickets' (given ++ label.constructs) (out ++ emitted) := by
  cases label with
  | construct element =>
    obtain ⟨raw, inv'⟩ := inv.construct allowed element
    refine ⟨_, [], tickets, ?_, (List.append_nil out).symm ▸ inv'⟩
    simp only [Dequeuers.step, raw]
  | publish =>
    have next : wrapAdd w s.tailIndex 1 = s.tailIndex + 1 := by
      have half := half_range positive
      exact wrapAdd_of_lt (Nat.lt_of_le_of_lt (Nat.succ_le_succ inv.tail) (by omega))
    refine ⟨{ s with tailIndex := s.tailIndex + 1, constructed := false }, [], tickets, ?_, ?_⟩
    · simp only [Dequeuers.step, next]
    · simp only [Label.constructs, List.append_nil]
      exact inv.publish allowed
  | advance thread =>
    simp only [Label.constructs, List.append_nil]
    exact inv.advance positive short thread

theorem Inv.path (positive : 0 < w)
    {moves : List (Move (State Thread T) (Label Thread T) (Nat × T))} {final : State Thread T}
    (path : Path (queue w) s moves final) :
    ∀ {n tickets given out}, n + moves.length < 2 ^ (w - 1) → Inv n s tickets given out →
      ∃ tickets', Inv (n + moves.length) final tickets'
        (given ++ moves.flatMap fun move => move.label.constructs)
        (out ++ moves.flatMap Move.emitted) := by
  induction path with
  | nil state =>
    intro n tickets given out _ inv
    refine ⟨tickets, ?_⟩
    rw [List.flatMap_nil, List.flatMap_nil, List.append_nil, List.append_nil]
    exact inv
  | @cons state next final label emitted moves permitted stepped rest ih =>
    intro n tickets given out short inv
    rw [List.length_cons] at short
    obtain ⟨next', emitted', tickets', stepped', inv'⟩ := inv.step positive (by omega) permitted
    obtain ⟨rfl, rfl⟩ := Prod.mk.inj (Option.some.inj (stepped.symm.trans stepped'))
    obtain ⟨tickets'', inv''⟩ := ih (by omega) inv'
    refine ⟨tickets'', ?_⟩
    rw [List.flatMap_cons, List.flatMap_cons, List.length_cons, ← List.append_assoc,
      ← List.append_assoc, ← Nat.add_assoc, Nat.add_right_comm]
    exact inv''

end Invariant

/-! ## Runs -/

def Resting (s : State Thread T) : Prop := ∀ thread, s.dequeuing thread = .idle

/-- Then every ticket has been used up. -/
theorem Counted.resting {s : State Thread T} {tickets : List (Ticket Thread)}
    (counted : Counted s tickets) (resting : Resting s) :
    s.dequeueOptimisticCount = s.headIndex + s.dequeueOvercommit := by
  have used : ∀ ticket ∈ tickets, ticket.stage = .claimed ∨ ticket.stage = .settled := by
    intro ticket inside
    obtain ⟨k, there⟩ := List.mem_iff_getElem?.mp inside
    have idle : ticket.stage.active ≠ true := by
      intro active
      have here := (counted.theirs k ticket there active).busy
      rw [resting] at here
      cases here
    cases stage : ticket.stage <;> rw [stage] at idle
    all_goals first
      | exact .inl rfl
      | exact .inr rfl
      | exact absurd rfl idle
  rw [← counted.length, ← counted.head, ← counted.overcommit]
  clear counted
  induction tickets with
  | nil => rfl
  | cons ticket rest ih =>
    have sum := ih fun other inside => used other (List.mem_cons_of_mem _ inside)
    simp only [List.length_cons, List.countP_cons]
    rcases used ticket List.mem_cons_self with stage | stage <;> simp [stage] <;> omega

section Runs
variable [DecidableEq Thread] {w : Nat}
  {moves : List (Move (State Thread T) (Label Thread T) (Nat × T))} {final : State Thread T}

/-- Whatever the order of the accesses, every element goes to one thread, after
it was published and before anything else is put in its place.  None is passed
over: once all threads are done, the elements in front of the head are those that
were taken, the counts not given up are as many, and the next thread finds an
element exactly if there is one. -/
theorem elements_taken_once (positive : 0 < w)
    (path : Path (queue w) (queue w).init moves final) (short : moves.length < 2 ^ (w - 1)) :
    ((moves.flatMap Move.emitted).map Prod.fst).Nodup ∧
      (∀ taken ∈ moves.flatMap Move.emitted, taken.1 < final.headIndex ∧
        (moves.flatMap fun move => move.label.constructs)[taken.1]? = some taken.2) ∧
      final.headIndex ≤ final.tailIndex ∧
      (∀ label : Label Thread T, label.Allowed final →
        ∃ next emitted, step w final label = some (next, emitted)) ∧
      (Resting final →
        ((moves.flatMap Move.emitted).map Prod.fst).Perm (List.range final.headIndex) ∧
          wrapSub w final.dequeueOptimisticCount final.dequeueOvercommit = final.headIndex ∧
          (circularLessThan w (wrapSub w final.dequeueOptimisticCount final.dequeueOvercommit)
            final.tailIndex = true ↔ final.headIndex < final.tailIndex)) := by
  obtain ⟨tickets, inv⟩ := Inv.path positive path (by rw [Nat.zero_add]; exact short) inv_init
  rw [Nat.zero_add, List.nil_append, List.nil_append] at inv
  have half := half_range positive
  have order := inv.counted.head_le_tail
  have tail := inv.tail
  have optimistic := inv.optimistic
  refine ⟨inv.handed.nodup, inv.handed.known, order, fun label allowed => ?_, fun resting => ?_⟩
  · obtain ⟨next, emitted, -, stepped, -⟩ := inv.step positive short allowed
    exact ⟨next, emitted, stepped⟩
  · constructor
    · refine (List.perm_ext_iff_of_nodup inv.handed.nodup List.nodup_range).mpr fun index => ?_
      rw [List.mem_range]
      constructor
      · intro taken
        obtain ⟨pair, inside, rfl⟩ := List.mem_map.mp taken
        exact (inv.handed.known pair inside).1
      · intro below
        rcases inv.handed.handed index below with taken | ⟨thread, claimed⟩
        · exact taken
        · rw [resting] at claimed
          cases claimed
    · have sum := inv.counted.resting resting
      have difference : wrapSub w final.dequeueOptimisticCount final.dequeueOvercommit =
          final.headIndex := by
        rw [wrapSub_of_le (by omega) (by omega)]
        omega
      refine ⟨difference, ?_⟩
      rw [difference]
      exact circularLessThan_of_lt positive (by omega) (by omega)

end Runs

def oneElement : List (Label Bool Nat) :=
  [.construct 7, .publish] ++ List.replicate 7 (.advance true)

theorem offered_oneElement :
    Offered (queue 64 : System (State Bool Nat) _ _) oneElement (queue 64).init := by
  have advances : ∀ count (s : State Bool Nat),
      Offered (queue 64) (List.replicate count (.advance true)) s := by
    intro count
    induction count with
    | zero => exact fun _ => trivial
    | succ count ih => exact fun _ => ⟨trivial, fun next _ _ => ih next⟩
  refine ⟨rfl, fun next emitted stepped => ?_⟩
  cases stepped
  exact ⟨rfl, fun next _ _ => advances 7 next⟩

theorem elements_taken_once_one :
    ∃ (moves : List (Move (State Bool Nat) (Label Bool Nat) (Nat × Nat))) (final : State Bool Nat),
      moves.map Move.label = oneElement ∧ moves.flatMap Move.emitted = [(0, 7)] ∧
        (moves.flatMap fun move => move.label.constructs)[0]? = some 7 ∧
          final.headIndex ≤ final.tailIndex := by
  have ran : ∃ final, sequence (fun label s => (queue 64).step s label) oneElement
      (queue 64 : System (State Bool Nat) _ _).init = some (final, [(0, 7)]) := ⟨_, rfl⟩
  obtain ⟨final, ran⟩ := ran
  obtain ⟨moves, path, labels, emitted⟩ := path_of_sequence offered_oneElement ran
  have short : moves.length < 2 ^ (64 - 1) := by
    rw [← List.length_map (f := Move.label), labels]
    decide
  obtain ⟨-, taken, order, -⟩ := elements_taken_once (by decide) path short
  have inside : (0, 7) ∈ moves.flatMap Move.emitted := by
    rw [emitted]
    exact List.mem_cons_self
  exact ⟨moves, final, labels, emitted, (taken (0, 7) inside).2, order⟩

end BinanceNativeApp.Queue.Dequeuers
