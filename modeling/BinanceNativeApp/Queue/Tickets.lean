import BinanceNativeApp.Library.Circular
import BinanceNativeApp.Library.Transition

/-!
# Accesses of threads that dequeue at once

One thread enqueues while any number of others dequeue; between two accesses to
memory any thread may be at work.  An access is seen by all threads at once.
Where the cell of an index lies is the business of the block index; here a cell
is named by its index.

A thread that counts itself in `dequeueOptimisticCount` takes a ticket.  The
tickets are not in memory; they tell why the head does not overtake the tail.
-/

set_option autoImplicit false

namespace BinanceNativeApp.Queue.Dequeuers

open BinanceNativeApp.Library.Circular
open BinanceNativeApp.Library.Transition

variable {Thread T : Type}

/-! ## The accesses -/

/-- Where a thread is in `dequeue`, with what it has loaded. -/
inductive Dequeuing where
  | idle
  | tailLoaded (tail : Nat)
  | overcommitLoaded (tail overcommit : Nat)
  | likely (overcommit : Nat)
  | counted (overcommit myDequeueCount : Nat)
  | passed
  | claimed (index : Nat)
  | exceeded
  deriving DecidableEq

structure State (Thread T : Type) where
  tailIndex : Nat
  headIndex : Nat
  dequeueOptimisticCount : Nat
  dequeueOvercommit : Nat
  elements : Nat → Option T
  /-- The element at the tail is constructed and the tail not yet moved. -/
  constructed : Bool
  dequeuing : Thread → Dequeuing

inductive Label (Thread T : Type) where
  | construct (element : T)
  | publish
  | advance (thread : Thread)

/-- Only the calls of the one thread that enqueues have an order of their own. -/
def Label.Allowed (s : State Thread T) : Label Thread T → Prop
  | .construct _ => s.constructed = false
  | .publish => s.constructed = true
  | .advance _ => True

section Accesses
variable [DecidableEq Thread]

def State.goto (s : State Thread T) (thread : Thread) (next : Dequeuing) : State Thread T :=
  { s with dequeuing := Function.update s.dequeuing thread next }

/-- The next access of a thread in `dequeue`; an element that is moved out is
emitted with its index. -/
def advance (w : Nat) (thread : Thread) (s : State Thread T) :
    Option (State Thread T × List (Nat × T)) :=
  match s.dequeuing thread with
  | .idle => some (s.goto thread (.tailLoaded s.tailIndex), [])
  | .tailLoaded tail => some (s.goto thread (.overcommitLoaded tail s.dequeueOvercommit), [])
  | .overcommitLoaded tail overcommit =>
      if circularLessThan w (wrapSub w s.dequeueOptimisticCount overcommit) tail then
        some (s.goto thread (.likely overcommit), [])
      else some (s.goto thread .idle, [])
  | .likely overcommit =>
      let myDequeueCount := s.dequeueOptimisticCount
      some ({ s with dequeueOptimisticCount := wrapAdd w myDequeueCount 1 }.goto thread
        (.counted overcommit myDequeueCount), [])
  | .counted overcommit myDequeueCount =>
      if circularLessThan w (wrapSub w myDequeueCount overcommit) s.tailIndex then
        some (s.goto thread .passed, [])
      else some (s.goto thread .exceeded, [])
  | .passed =>
      let index := s.headIndex
      some ({ s with headIndex := wrapAdd w index 1 }.goto thread (.claimed index), [])
  | .claimed index =>
      match s.elements index with
      | none => none
      | some element =>
          some ({ s with elements := Function.update s.elements index none }.goto thread .idle,
            [(index, element)])
  | .exceeded =>
      some ({ s with dequeueOvercommit := wrapAdd w s.dequeueOvercommit 1 }.goto thread .idle, [])

def step (w : Nat) (s : State Thread T) :
    Label Thread T → Option (State Thread T × List (Nat × T))
  | .construct element =>
      match s.elements s.tailIndex with
      | none =>
          some ({ s with
            elements := Function.update s.elements s.tailIndex (some element)
            constructed := true }, [])
      | some _ => none
  | .publish => some ({ s with tailIndex := wrapAdd w s.tailIndex 1, constructed := false }, [])
  | .advance thread => advance w thread s

def queue (w : Nat) : System (State Thread T) (Label Thread T) (Nat × T) where
  init := ⟨0, 0, 0, 0, fun _ => none, false, fun _ => .idle⟩
  allowed := Label.Allowed
  step := step w

end Accesses

/-! ## Tickets -/

/-- What has become of a count that a thread took from `dequeueOptimisticCount`:
it is looked at, it was below the tail, an index was taken for it; or it was not
below the tail, and that has been counted. -/
inductive Stage where
  | open
  | passed
  | claimed
  | exceeded
  | settled
  deriving DecidableEq

def Stage.won : Stage → Bool
  | .passed | .claimed => true
  | _ => false

def Stage.lost : Stage → Bool
  | .exceeded | .settled => true
  | _ => false

structure Ticket (Thread : Type) where
  owner : Thread
  overcommit : Nat
  stage : Stage

def wonTickets (tickets : List (Ticket Thread)) : Nat :=
  tickets.countP fun ticket => ticket.stage.won

def lostTickets (tickets : List (Ticket Thread)) : Nat :=
  tickets.countP fun ticket => ticket.stage.lost

/-- What a thread subtracted had been given up by earlier tickets; a ticket is
good for an element that was published. -/
def Sound (tail : Nat) (tickets : List (Ticket Thread)) : Prop :=
  ∀ k ticket, tickets[k]? = some ticket →
    ticket.overcommit ≤ lostTickets (tickets.take k) ∧
      (ticket.stage.won = true → k + 1 ≤ tail + ticket.overcommit)

theorem won_add_lost_le (tickets : List (Ticket Thread)) :
    wonTickets tickets + lostTickets tickets ≤ tickets.length := by
  induction tickets with
  | nil => exact Nat.le_refl _
  | cons ticket rest ih =>
    have apart : ¬(ticket.stage.won = true ∧ ticket.stage.lost = true) := by
      cases ticket.stage <;> decide
    simp only [wonTickets, lostTickets, List.countP_cons, List.length_cons] at ih ⊢
    by_cases won : ticket.stage.won = true
    · have kept : ¬ticket.stage.lost = true := fun lost => apart ⟨won, lost⟩
      rw [if_pos won, if_neg kept]
      omega
    · rw [if_neg won]
      split <;> omega

/-- There are no more tickets to pass than elements. -/
theorem won_le_tail {tail : Nat} {tickets : List (Ticket Thread)} (sound : Sound tail tickets) :
    wonTickets tickets ≤ tail := by
  induction tickets using List.reverseRecOn with
  | nil => exact Nat.zero_le _
  | append_singleton earlier last ih =>
    have counted : wonTickets (earlier ++ [last]) =
        wonTickets earlier + if last.stage.won then 1 else 0 := by
      rw [wonTickets, List.countP_append, List.countP_singleton]
      rfl
    rw [counted]
    by_cases won : last.stage.won = true
    · obtain ⟨given, published⟩ := sound earlier.length last List.getElem?_concat_length
      rw [List.take_left] at given
      have bound := won_add_lost_le earlier
      have room := published won
      rw [if_pos won]
      omega
    · rw [if_neg won]
      refine ih fun k ticket there => ?_
      have inside := (List.getElem?_eq_some_iff.mp there).1
      have pair := sound k ticket (by rw [List.getElem?_append_left inside, there])
      rw [List.take_append_of_le_length (Nat.le_of_lt inside)] at pair
      exact pair

theorem countP_set_add (p : Ticket Thread → Bool) {old : Ticket Thread} (new : Ticket Thread) :
    ∀ {tickets : List (Ticket Thread)} {k : Nat}, tickets[k]? = some old →
      (tickets.set k new).countP p + (if p old then 1 else 0) =
        tickets.countP p + if p new then 1 else 0 := by
  intro tickets
  induction tickets with
  | nil => intro k there; cases there
  | cons first rest ih =>
    intro k there
    cases k with
    | zero =>
      cases there
      simp only [List.set_cons_zero, List.countP_cons]
      omega
    | succ k =>
      have later := ih there
      simp only [List.set_cons_succ, List.countP_cons]
      omega

theorem countP_set_same {p : Ticket Thread → Bool} {tickets : List (Ticket Thread)}
    {k : Nat} {old new : Ticket Thread}
    (there : tickets[k]? = some old) (same : p old = p new) :
    (tickets.set k new).countP p = tickets.countP p := by
  have sum := countP_set_add p new there
  rw [same] at sum
  omega

theorem countP_set_succ {p : Ticket Thread → Bool} {tickets : List (Ticket Thread)}
    {k : Nat} {old new : Ticket Thread}
    (there : tickets[k]? = some old) (before : p old = false) (after : p new = true) :
    (tickets.set k new).countP p = tickets.countP p + 1 := by
  have sum := countP_set_add p new there
  rw [before, after, if_neg Bool.false_ne_true, if_pos rfl] at sum
  exact sum

theorem lost_set_mono {new : Ticket Thread} :
    ∀ {tickets : List (Ticket Thread)} {k : Nat},
      (∀ old, tickets[k]? = some old → old.stage.lost = true → new.stage.lost = true) →
        lostTickets tickets ≤ lostTickets (tickets.set k new) := by
  intro tickets k keeps
  rcases Nat.lt_or_ge k tickets.length with inside | past
  · have there := List.getElem?_eq_getElem inside
    have sum := countP_set_add (fun ticket => ticket.stage.lost) new there
    have kept := keeps _ there
    rw [lostTickets, lostTickets]
    split at sum <;> split at sum <;> simp_all
  · rw [List.set_eq_of_length_le past]

/-- A ticket that passes must be good for an element; what is lost stays lost. -/
theorem Sound.set {tail k : Nat} {tickets : List (Ticket Thread)} {ticket : Ticket Thread}
    (sound : Sound tail tickets) (there : tickets[k]? = some ticket) (stage : Stage)
    (keeps : ticket.stage.lost = true → stage.lost = true)
    (published : stage.won = true → k + 1 ≤ tail + ticket.overcommit) :
    Sound tail (tickets.set k { ticket with stage := stage }) := by
  intro j other found
  have mono : lostTickets (tickets.take j) ≤
      lostTickets ((tickets.set k { ticket with stage := stage }).take j) := by
    rw [List.take_set]
    refine lost_set_mono fun old inside lost => ?_
    have same : tickets[k]? = some old := by
      have short := (List.getElem?_eq_some_iff.mp inside).1
      rw [List.length_take] at short
      rw [List.getElem?_take_of_lt (by omega)] at inside
      exact inside
    rw [there] at same
    cases same
    exact keeps lost
  by_cases self : k = j
  · subst self
    rw [List.getElem?_set_self (List.getElem?_eq_some_iff.mp there).1] at found
    cases found
    exact ⟨Nat.le_trans (sound k ticket there).1 mono, published⟩
  · rw [List.getElem?_set_ne self] at found
    obtain ⟨given, passed⟩ := sound j other found
    exact ⟨Nat.le_trans given mono, passed⟩

theorem Sound.append {tail overcommit : Nat} {tickets : List (Ticket Thread)}
    (sound : Sound tail tickets) (thread : Thread) (given : overcommit ≤ lostTickets tickets) :
    Sound tail (tickets ++ [⟨thread, overcommit, .open⟩]) := by
  intro k ticket there
  rcases Nat.lt_or_ge k tickets.length with inside | past
  · rw [List.getElem?_append_left inside] at there
    rw [List.take_append_of_le_length (Nat.le_of_lt inside)]
    exact sound k ticket there
  · have last : k = tickets.length := by
      have inside := (List.getElem?_eq_some_iff.mp there).1
      rw [List.length_append, List.length_singleton] at inside
      omega
    subst last
    rw [List.getElem?_concat_length] at there
    cases there
    rw [List.take_left]
    exact ⟨given, nofun⟩

theorem Sound.mono {tail tail' : Nat} {tickets : List (Ticket Thread)}
    (sound : Sound tail tickets) (later : tail ≤ tail') : Sound tail' tickets := by
  intro k ticket there
  obtain ⟨given, published⟩ := sound k ticket there
  exact ⟨given, fun won => Nat.le_trans (published won) (Nat.add_le_add_right later _)⟩

/-! ## Counters and tickets -/

def Stage.active : Stage → Bool
  | .open | .passed | .exceeded => true
  | .claimed | .settled => false

/-- A thread between taking a ticket and the end of what it does with it. -/
def Dequeuing.busy : Dequeuing → Bool
  | .counted _ _ | .passed | .exceeded => true
  | _ => false

/-- Where a thread is that has the active ticket `ticket`, of number `k`. -/
def At (k : Nat) (ticket : Ticket Thread) (place : Dequeuing) : Prop :=
  place = .counted ticket.overcommit k ∧ ticket.stage = .open ∨
    place = .passed ∧ ticket.stage = .passed ∨ place = .exceeded ∧ ticket.stage = .exceeded

def Dequeuing.Loaded (dequeueOvercommit : Nat) : Dequeuing → Prop
  | .overcommitLoaded _ overcommit | .likely overcommit => overcommit ≤ dequeueOvercommit
  | _ => True

structure Counted (s : State Thread T) (tickets : List (Ticket Thread)) : Prop where
  length : tickets.length = s.dequeueOptimisticCount
  head : tickets.countP (fun ticket => ticket.stage = .claimed) = s.headIndex
  overcommit : tickets.countP (fun ticket => ticket.stage = .settled) = s.dequeueOvercommit
  sound : Sound s.tailIndex tickets
  loaded : ∀ thread, (s.dequeuing thread).Loaded s.dequeueOvercommit
  mine : ∀ thread, (s.dequeuing thread).busy = true →
    ∃ k ticket, tickets[k]? = some ticket ∧ ticket.owner = thread ∧ At k ticket (s.dequeuing thread)
  theirs : ∀ k ticket, tickets[k]? = some ticket → ticket.stage.active = true →
    At k ticket (s.dequeuing ticket.owner)
  single : ∀ (k k' : Nat) (ticket ticket' : Ticket Thread), tickets[k]? = some ticket →
    tickets[k']? = some ticket' → ticket.stage.active = true → ticket'.stage.active = true →
      ticket.owner = ticket'.owner → k = k'

theorem At.busy {k : Nat} {ticket : Ticket Thread} {place : Dequeuing} (here : At k ticket place) :
    place.busy = true := by
  rcases here with ⟨rfl, -⟩ | ⟨rfl, -⟩ | ⟨rfl, -⟩ <;> rfl

theorem At.active {k : Nat} {ticket : Ticket Thread} {place : Dequeuing}
    (here : At k ticket place) : ticket.stage.active = true := by
  rcases here with ⟨-, stage⟩ | ⟨-, stage⟩ | ⟨-, stage⟩ <;> rw [stage] <;> rfl

theorem countP_le_countP {p q : Ticket Thread → Bool} (tickets : List (Ticket Thread))
    (less : ∀ ticket, p ticket = true → q ticket = true) : tickets.countP p ≤ tickets.countP q :=
  List.countP_mono_left fun ticket _ => less ticket

/-- The head never overtakes the tail. -/
theorem Counted.head_le_tail {s : State Thread T} {tickets : List (Ticket Thread)}
    (counted : Counted s tickets) : s.headIndex ≤ s.tailIndex := by
  rw [← counted.head]
  refine Nat.le_trans (countP_le_countP tickets fun ticket claimed => ?_)
    (won_le_tail counted.sound)
  rw [of_decide_eq_true claimed]
  rfl

theorem Counted.overcommit_le {s : State Thread T} {tickets : List (Ticket Thread)}
    (counted : Counted s tickets) : s.dequeueOvercommit ≤ lostTickets tickets := by
  rw [← counted.overcommit]
  refine countP_le_countP tickets fun ticket settled => ?_
  rw [of_decide_eq_true settled]
  rfl

theorem Counted.other_elements {s : State Thread T} {tickets : List (Ticket Thread)}
    (counted : Counted s tickets) (elements : Nat → Option T) (constructed : Bool) :
    Counted { s with elements := elements, constructed := constructed } tickets :=
  ⟨counted.length, counted.head, counted.overcommit, counted.sound, counted.loaded, counted.mine,
    counted.theirs, counted.single⟩

theorem Counted.ticket {s : State Thread T} {tickets : List (Ticket Thread)}
    (counted : Counted s tickets) {thread : Thread} {place : Dequeuing}
    (here : s.dequeuing thread = place) (busy : place.busy = true) :
    ∃ k ticket, tickets[k]? = some ticket ∧ ticket.owner = thread ∧ At k ticket place := by
  subst here
  exact counted.mine thread busy

section Steps
variable [DecidableEq Thread] {s : State Thread T} {tickets : List (Ticket Thread)}
  {thread : Thread} {place : Dequeuing}

/-- A thread without a ticket goes on to where it needs none. -/
theorem Counted.goto (counted : Counted s tickets) (idle : (s.dequeuing thread).busy = false)
    (next : place.busy = false) (loaded : place.Loaded s.dequeueOvercommit) :
    Counted (s.goto thread place) tickets := by
  refine ⟨counted.length, counted.head, counted.overcommit, counted.sound, ?_, ?_, ?_,
    counted.single⟩
  · intro other
    show ((Function.update s.dequeuing thread place) other).Loaded _
    by_cases same : other = thread
    · rw [same, Function.update_self]
      exact loaded
    · rw [Function.update_of_ne same]
      exact counted.loaded other
  · intro other busy
    change ((Function.update s.dequeuing thread place) other).busy = true at busy
    show ∃ k ticket, _ ∧ _ ∧ At k ticket ((Function.update s.dequeuing thread place) other)
    by_cases same : other = thread
    · rw [same, Function.update_self, next] at busy
      cases busy
    · rw [Function.update_of_ne same] at busy ⊢
      exact counted.mine other busy
  · intro k ticket there active
    have here := counted.theirs k ticket there active
    show At k ticket ((Function.update s.dequeuing thread place) ticket.owner)
    by_cases same : ticket.owner = thread
    · rw [same] at here
      rw [here.busy] at idle
      cases idle
    · rw [Function.update_of_ne same]
      exact here

theorem Dequeuing.Loaded.mono {before after : Nat} (loaded : place.Loaded before)
    (more : before ≤ after) : place.Loaded after := by
  cases place with
  | overcommitLoaded tail overcommit => exact Nat.le_trans loaded more
  | likely overcommit => exact Nat.le_trans loaded more
  | _ => trivial

theorem Counted.move (counted : Counted s tickets) {k : Nat} {ticket : Ticket Thread}
    (there : tickets[k]? = some ticket) (active : ticket.stage.active = true) {stage : Stage}
    {s' : State Thread T} (tail : s'.tailIndex = s.tailIndex)
    (count : s'.dequeueOptimisticCount = s.dequeueOptimisticCount)
    (places : s'.dequeuing = Function.update s.dequeuing ticket.owner place)
    (head : (tickets.set k { ticket with stage := stage }).countP
      (fun ticket => ticket.stage = .claimed) = s'.headIndex)
    (overcommit : (tickets.set k { ticket with stage := stage }).countP
      (fun ticket => ticket.stage = .settled) = s'.dequeueOvercommit)
    (more : s.dequeueOvercommit ≤ s'.dequeueOvercommit)
    (sound : Sound s.tailIndex (tickets.set k { ticket with stage := stage }))
    (loaded : place.Loaded s'.dequeueOvercommit)
    (here : stage.active = true → At k { ticket with stage := stage } place)
    (gone : stage.active = false → place.busy = false) :
    Counted s' (tickets.set k { ticket with stage := stage }) := by
  have inside := (List.getElem?_eq_some_iff.mp there).1
  have others : ∀ j, j ≠ k → (tickets.set k { ticket with stage := stage })[j]? = tickets[j]? :=
    fun j apart => List.getElem?_set_ne (Ne.symm apart)
  have self : (tickets.set k { ticket with stage := stage })[k]? =
      some { ticket with stage := stage } := List.getElem?_set_self inside
  have apart : ∀ j other, tickets[j]? = some other → j ≠ k → other.stage.active = true →
      other.owner ≠ ticket.owner :=
    fun j other found different busy same =>
      different (counted.single j k other ticket found there busy active same)
  refine ⟨?_, head, overcommit, tail ▸ sound, ?_, ?_, ?_, ?_⟩
  · rw [List.length_set, count]
    exact counted.length
  · intro other
    rw [places]
    by_cases same : other = ticket.owner
    · rw [same, Function.update_self]
      exact loaded
    · rw [Function.update_of_ne same]
      exact (counted.loaded other).mono more
  · intro other busy
    rw [places] at busy ⊢
    by_cases same : other = ticket.owner
    · rw [same, Function.update_self] at busy ⊢
      by_cases still : stage.active = true
      · exact ⟨k, _, self, rfl, here still⟩
      · rw [gone (Bool.eq_false_iff.mpr still)] at busy
        cases busy
    · rw [Function.update_of_ne same] at busy ⊢
      obtain ⟨j, held, found, owner, at'⟩ := counted.mine other busy
      have different : j ≠ k := by
        rintro rfl
        rw [there] at found
        cases found
        exact same owner.symm
      exact ⟨j, held, by rw [others j different, found], owner, at'⟩
  · intro j held found busy
    rw [places]
    by_cases same : j = k
    · subst same
      rw [self] at found
      cases found
      rw [Function.update_self]
      exact here busy
    · rw [others j same] at found
      rw [Function.update_of_ne (apart j held found same busy)]
      exact counted.theirs j held found busy
  · intro j j' held held' found found' busy busy' owner
    by_cases same : j = k
    · by_cases same' : j' = k
      · rw [same, same']
      · rw [same, self] at found
        cases found
        rw [others j' same'] at found'
        exact absurd owner.symm (apart j' held' found' same' busy')
    · rw [others j same] at found
      by_cases same' : j' = k
      · rw [same', self] at found'
        cases found'
        exact absurd owner (apart j held found same busy)
      · rw [others j' same'] at found'
        exact counted.single j j' held held' found found' busy busy' owner

/-- `fetch_add` on `dequeueOptimisticCount`. -/
theorem Counted.take (counted : Counted s tickets) {overcommit : Nat}
    (likely : s.dequeuing thread = .likely overcommit) :
    Counted
      ({ s with dequeueOptimisticCount := s.dequeueOptimisticCount + 1 }.goto thread
        (.counted overcommit s.dequeueOptimisticCount))
      (tickets ++ [⟨thread, overcommit, .open⟩]) := by
  have loaded : overcommit ≤ s.dequeueOvercommit := by
    have known := counted.loaded thread
    rw [likely] at known
    exact known
  have idle : ∀ (k : Nat) (ticket : Ticket Thread), tickets[k]? = some ticket →
      ticket.stage.active = true →
      ticket.owner ≠ thread := by
    intro k ticket there active same
    have here := (counted.theirs k ticket there active).busy
    rw [same, likely] at here
    cases here
  have old : ∀ {k : Nat} {ticket : Ticket Thread},
      (tickets ++ [⟨thread, overcommit, .open⟩])[k]? = some ticket →
      tickets[k]? = some ticket ∨ k = tickets.length ∧ ticket = ⟨thread, overcommit, .open⟩ := by
    intro k ticket there
    rcases Nat.lt_or_ge k tickets.length with inside | past
    · rw [List.getElem?_append_left inside] at there
      exact .inl there
    · have last : k = tickets.length := by
        have inside := (List.getElem?_eq_some_iff.mp there).1
        rw [List.length_append, List.length_singleton] at inside
        omega
      rw [last, List.getElem?_concat_length] at there
      exact .inr ⟨last, (Option.some.inj there).symm⟩
  refine ⟨?_, ?_, ?_, counted.sound.append thread (Nat.le_trans loaded counted.overcommit_le), ?_,
    ?_, ?_, ?_⟩
  · rw [List.length_append, List.length_singleton, counted.length]
    rfl
  · rw [List.countP_append]
    exact counted.head
  · rw [List.countP_append]
    exact counted.overcommit
  · intro other
    show ((Function.update s.dequeuing thread _) other).Loaded _
    by_cases same : other = thread
    · rw [same, Function.update_self]
      trivial
    · rw [Function.update_of_ne same]
      exact counted.loaded other
  · intro other busy
    change ((Function.update s.dequeuing thread _) other).busy = true at busy
    show ∃ k ticket, _ ∧ _ ∧ At k ticket ((Function.update s.dequeuing thread _) other)
    by_cases same : other = thread
    · rw [same, Function.update_self]
      refine ⟨tickets.length, _, List.getElem?_concat_length, rfl, .inl ⟨?_, rfl⟩⟩
      rw [counted.length]
    · rw [Function.update_of_ne same] at busy ⊢
      obtain ⟨k, ticket, found, owner, here⟩ := counted.mine other busy
      refine ⟨k, ticket, ?_, owner, here⟩
      rw [List.getElem?_append_left (List.getElem?_eq_some_iff.mp found).1, found]
  · intro k ticket found active
    show At k ticket ((Function.update s.dequeuing thread _) ticket.owner)
    rcases old found with found | ⟨rfl, rfl⟩
    · rw [Function.update_of_ne (idle k ticket found active)]
      exact counted.theirs k ticket found active
    · rw [Function.update_self]
      exact .inl ⟨by rw [counted.length], rfl⟩
  · intro k k' ticket ticket' found found' active active' same
    rcases old found with found | ⟨rfl, rfl⟩ <;> rcases old found' with found' | ⟨rfl, rfl⟩
    · exact counted.single k k' ticket ticket' found found' active active' same
    · exact absurd same (idle k ticket found active)
    · exact absurd same.symm (idle k' ticket' found' active')
    · rfl

end Steps

end BinanceNativeApp.Queue.Dequeuers
