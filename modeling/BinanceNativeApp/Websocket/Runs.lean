import BinanceNativeApp.Websocket.Subscriptions

/-!
# The api and libwebsockets together

`Network` is the other side of the api's calls: what has been registered, which
handles are open, for whom and with which path, which were ever handed out, and
which have been established.  `world` drives both sides with one event at a
time.  Its `allowed` is the contract of libwebsockets: a new handle differs
from every open one, though not from one that has ended; data arrives on open
handles only; an end is reported for a handle that was handed out.
-/

set_option autoImplicit false

namespace BinanceNativeApp.Websocket.Runs

open BinanceNativeApp.Library.Containers
open BinanceNativeApp.Library.Transition
open BinanceNativeApp.Websocket.Subscriptions

structure Session where
  owner : Nat
  path : Bytes
  deriving DecidableEq

structure Network (Handle Func : Type) where
  registrations : List (Bytes × Func)
  sessions : Handle → Option Session
  obtained : Handle → Bool
  established : Handle → Bool

structure World (Handle Func : Type) where
  api : Api Handle Func
  network : Network Handle Func

inductive Event (Handle Func : Type)
  | connectEndpoint (path : Bytes) (func : Func) (created : Int)
      (outcome : ConnectOutcome Handle) (completed : Int)
  | visit (i : Nat) (met : Visit Handle)
  | callback (callback : Callback Handle)

section Network
variable {Handle Func : Type}

def Network.initial : Network Handle Func :=
  ⟨[], fun _ => none, fun _ => false, fun _ => false⟩

def Network.register (path : Bytes) (func : Func) (n : Network Handle Func) :
    Network Handle Func :=
  { n with registrations := n.registrations ++ [(path, func)] }

def Fresh (n : Network Handle Func) (outcome : ConnectOutcome Handle) : Prop :=
  ∀ wsi, outcome.handle = some wsi → n.sessions wsi = none

variable [DecidableEq Handle]

/-- A connect call for subscriber `owner`, seen from libwebsockets. -/
def Network.attempt (info : ClientConnectInfo) (owner : Nat)
    (outcome : ConnectOutcome Handle) (n : Network Handle Func) : Network Handle Func :=
  match outcome with
  | .opened wsi =>
      { n with
        sessions := Function.update n.sessions wsi (some ⟨owner, info.path⟩)
        obtained := Function.update n.obtained wsi true
        established := Function.update n.established wsi false }
  | .failed wsi _ _ => { n with obtained := Function.update n.obtained wsi true }
  | .refused => n

/-- The attempts among the effects of one event, which makes at most one. -/
def Network.observe (outcome : ConnectOutcome Handle) (effects : List (Effect Handle Func))
    (n : Network Handle Func) : Network Handle Func :=
  match effects with
  | [.clientConnectViaInfo info owner] => n.attempt info owner outcome
  | _ => n

/-- Every reason that tells of an end ends the session, whatever the code makes
of it. -/
def Network.callback (wsi : Handle) (reason : Reason) (n : Network Handle Func) :
    Network Handle Func :=
  match reason with
  | .closed | .clientConnectionError | .clientClosed =>
      { n with
        sessions := Function.update n.sessions wsi none
        established := Function.update n.established wsi false }
  | .clientEstablished => { n with established := Function.update n.established wsi true }
  | .clientReceive | .clientWriteable | .other => n

end Network

section World
variable {Handle Func : Type}

def World.initial : World Handle Func := ⟨Subscriptions.initial, Network.initial⟩

def Event.Allowed (g : World Handle Func) : Event Handle Func → Prop
  | .connectEndpoint _ _ _ outcome _ => Fresh g.network outcome
  | .visit i met => i < g.api.subscribers.length ∧ Fresh g.network met.outcome
  | .callback c =>
      match c.reason with
      | .clientEstablished | .clientReceive => ∃ session, g.network.sessions c.wsi = some session
      | .closed | .clientConnectionError | .clientClosed => g.network.obtained c.wsi = true
      | .clientWriteable | .other => True

variable [DecidableEq Handle]

def World.step (g : World Handle Func) :
    Event Handle Func → Option (World Handle Func × List (Effect Handle Func))
  | .connectEndpoint path func created outcome completed =>
      (connectEndpoint path func created outcome completed g.api).map fun (api, effects) =>
        (⟨api, (g.network.register path func).observe outcome effects⟩, effects)
  | .visit i met =>
      (Subscriptions.visit i met g.api).map fun (api, effects) =>
        (⟨api, g.network.observe met.outcome effects⟩, effects)
  | .callback c =>
      (eventCbImpl c.wsi c.reason c.input g.api).map fun (api, effects) =>
        (⟨api, g.network.callback c.wsi c.reason⟩, effects)

def world (Handle Func : Type) [DecidableEq Handle] :
    System (World Handle Func) (Event Handle Func) (Effect Handle Func) where
  init := World.initial
  allowed := fun g event => event.Allowed g
  step := World.step

end World

/-! ## The three things an event can be -/

section Steps
variable {Handle Func : Type} [DecidableEq Handle]

def World.registered (path : Bytes) (func : Func) (created : Int) (g : World Handle Func) :
    World Handle Func :=
  ⟨emplaceBack path func created g.api, g.network.register path func⟩

def World.attempted (k : Nat) (outcome : ConnectOutcome Handle) (completed : Int)
    (info : ClientConnectInfo) (base : World Handle Func) : World Handle Func :=
  ⟨settle k (keptHandle k outcome base.api) completed (afterReport outcome base.api),
    base.network.attempt info k outcome⟩

/-- The event makes a connection attempt for subscriber `k`, which begins in
world `base`. -/
inductive Attempt (g : World Handle Func) :
    Event Handle Func → World Handle Func → Nat → ConnectOutcome Handle → Int → Prop
  | first (path : Bytes) (func : Func) (created : Int) (outcome : ConnectOutcome Handle)
      (completed : Int) :
      Attempt g (.connectEndpoint path func created outcome completed)
        (g.registered path func created) g.api.subscribers.length outcome completed
  | again {i : Nat} {met : Visit Handle} {subscriber : Subscriber Handle Func}
      (found : g.api.subscribers[i]? = some subscriber)
      (due : reconnectDue subscriber met.now = true) :
      Attempt g (.visit i met) g i met.outcome met.completed

omit [DecidableEq Handle] in
theorem attempt_begins {g base : World Handle Func} {event : Event Handle Func} {k : Nat}
    {outcome : ConnectOutcome Handle} {completed : Int} (indexed : WellIndexed g.api)
    (starts : Attempt g event base k outcome completed) :
    WellIndexed base.api ∧ ∃ subscriber, base.api.subscribers[k]? = some subscriber ∧
      subscriber.wsi = none := by
  cases starts with
  | first path func created outcome completed =>
      exact ⟨emplaceBack_wellIndexed indexed path func created, _,
        emplaceBack_getElem?_length path func created g.api, rfl⟩
  | @again i met subscriber found due =>
      refine ⟨indexed, subscriber, found, ?_⟩
      have vacant : subscriber.wsi.isNone = true := by
        simp only [reconnectDue, Bool.and_eq_true] at due
        exact due.1
      exact Option.isNone_iff_eq_none.mp vacant

omit [DecidableEq Handle] in
theorem attempt_base_getElem? {g base : World Handle Func} {event : Event Handle Func}
    {k : Nat} {outcome : ConnectOutcome Handle} {completed : Int}
    (starts : Attempt g event base k outcome completed) {j : Nat} (other : j ≠ k) :
    base.api.subscribers[j]? = g.api.subscribers[j]? := by
  cases starts with
  | first path func created outcome completed =>
      rcases Nat.lt_or_gt_of_ne other with earlier | beyond
      · exact emplaceBack_getElem?_of_lt path func created earlier
      · rw [List.getElem?_eq_none (Nat.le_of_lt beyond)]
        apply List.getElem?_eq_none
        simp only [World.registered, emplaceBack, List.length_append, List.length_singleton]
        omega
  | again found due => rfl

theorem attempt_step {g base : World Handle Func} {event : Event Handle Func} {k : Nat}
    {outcome : ConnectOutcome Handle} {completed : Int}
    {subscriber : Subscriber Handle Func} (indexed : WellIndexed g.api)
    (starts : Attempt g event base k outcome completed)
    (found : base.api.subscribers[k]? = some subscriber) :
    g.step event = some (base.attempted k outcome completed (connectInfo subscriber.path),
      [.clientConnectViaInfo (connectInfo subscriber.path) k]) := by
  obtain ⟨baseIndexed, other, foundOther, vacant⟩ := attempt_begins indexed starts
  cases Option.some.inj (found.symm.trans foundOther)
  have called := connectEndpointSubscriber_eq found vacant baseIndexed outcome completed
  cases starts with
  | first path func created outcome completed =>
      simp only [World.step, connectEndpoint]
      exact congrArg (Option.map _) called
  | @again i met subscriber' found' due =>
      cases Option.some.inj (found.symm.trans found')
      simp only [World.step, visit, found, due, if_true, called, Option.map_some]
      rfl

/-- What one event does: a connection attempt, a visit to a subscriber that is
not due, or a callback. -/
theorem step_cases {g next : World Handle Func} {event : Event Handle Func}
    {effects : List (Effect Handle Func)} (indexed : WellIndexed g.api)
    (stepped : g.step event = some (next, effects)) :
    (∃ base k outcome completed subscriber, Attempt g event base k outcome completed ∧
      base.api.subscribers[k]? = some subscriber ∧
      next = base.attempted k outcome completed (connectInfo subscriber.path) ∧
      effects = [.clientConnectViaInfo (connectInfo subscriber.path) k]) ∨
    (∃ i met subscriber, event = .visit i met ∧ g.api.subscribers[i]? = some subscriber ∧
      reconnectDue subscriber met.now = false ∧ next = g ∧ effects = []) ∨
    (∃ c, event = .callback c ∧
      eventCbImpl c.wsi c.reason c.input g.api = some (next.api, effects) ∧
      next.network = g.network.callback c.wsi c.reason) := by
  have ofAttempt : ∀ {base k outcome completed}, Attempt g event base k outcome completed →
      ∃ base k outcome completed subscriber, Attempt g event base k outcome completed ∧
        base.api.subscribers[k]? = some subscriber ∧
        next = base.attempted k outcome completed (connectInfo subscriber.path) ∧
        effects = [.clientConnectViaInfo (connectInfo subscriber.path) k] := by
    intro base k outcome completed starts
    obtain ⟨_, subscriber, found, _⟩ := attempt_begins indexed starts
    have result := stepped.symm.trans (attempt_step indexed starts found)
    obtain ⟨nextEq, effectsEq⟩ := Prod.mk.inj (Option.some.inj result)
    exact ⟨base, k, outcome, completed, subscriber, starts, found, nextEq, effectsEq⟩
  cases event with
  | connectEndpoint path func created outcome completed =>
      exact Or.inl (ofAttempt (.first path func created outcome completed))
  | visit i met =>
      cases found : g.api.subscribers[i]? with
      | none => simp [World.step, visit, found] at stepped
      | some subscriber =>
          by_cases due : reconnectDue subscriber met.now = true
          · exact Or.inl (ofAttempt (.again found due))
          · simp only [World.step, visit, found, due, Bool.false_eq_true, if_false,
              Option.map_some, Option.some.injEq, Prod.mk.injEq] at stepped
            exact Or.inr (Or.inl ⟨i, met, subscriber, rfl, found, Bool.eq_false_iff.mpr due,
              stepped.1.symm, stepped.2.symm⟩)
  | callback c =>
      simp only [World.step] at stepped
      obtain ⟨⟨api, emitted⟩, ran, result⟩ := Option.map_eq_some_iff.mp stepped
      obtain ⟨rfl, rfl⟩ := Prod.mk.inj result
      exact Or.inr (Or.inr ⟨c, rfl, ran, rfl⟩)

end Steps

end BinanceNativeApp.Websocket.Runs
