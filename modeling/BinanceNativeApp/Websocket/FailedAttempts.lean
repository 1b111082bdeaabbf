import BinanceNativeApp.Websocket.Agreement

/-!
# What a failed connection attempt touches

A failed attempt should leave its own subscriber without a handle, so that
`event_loop` tries again, and everybody else alone.  A failure reported from
`lws_service` does.  A failure reported from inside the connect call goes to
the subscriber that the map answers for the new handle, which is subscriber 0
when there is no entry, and the handle stays in `wsi` when libwebsockets does
not clear it.
-/

set_option autoImplicit false

namespace BinanceNativeApp.Websocket.FailedAttempts

open BinanceNativeApp.Library.Containers
open BinanceNativeApp.Library.Transition
open BinanceNativeApp.Websocket.Subscriptions
open BinanceNativeApp.Websocket.Runs
open BinanceNativeApp.Websocket.Routing
open BinanceNativeApp.Websocket.Agreement (misdirected misdirected_step misdirected_permitted)

variable {Handle Func : Type}

structure OthersKept (k : Nat) (g next : World Handle Func) : Prop where
  subscribers : ∀ j subscriber, j ≠ k → g.api.subscribers[j]? = some subscriber →
    next.api.subscribers[j]? = some subscriber
  entries : ∀ wsi session, g.network.sessions wsi = some session → session.owner ≠ k →
    next.api.subscriberCallbacks.find (some wsi) = g.api.subscriberCallbacks.find (some wsi)

structure FailureContained (k : Nat) (g next : World Handle Func) : Prop where
  vacant : ∃ subscriber, next.api.subscribers[k]? = some subscriber ∧ subscriber.wsi = none
  others : OthersKept k g next

/-- The report reaches subscriber `k` itself, or somebody who has no handle to
lose while libwebsockets clears the handle of `k`. -/
def ReportHarmless (k : Nat) (wsi : Handle) (cleared : Bool) (s : Api Handle Func) : Prop :=
  resolved wsi s = k ∨ cleared = true ∧
    ∀ subscriber, s.subscribers[resolved wsi s]? = some subscriber → subscriber.wsi = none

theorem attempt_base_same {g base : World Handle Func} {event : Event Handle Func}
    {k : Nat} {outcome : ConnectOutcome Handle} {completed : Int}
    (starts : Attempt g event base k outcome completed) :
    base.api.subscriberCallbacks = g.api.subscriberCallbacks ∧
      base.network.sessions = g.network.sessions := by
  cases starts <;> exact ⟨rfl, rfl⟩

variable [DecidableEq Handle]

theorem attempt_entries {g base next : World Handle Func} {event : Event Handle Func}
    {k : Nat} {outcome : ConnectOutcome Handle} {completed : Int}
    {effects : List (Effect Handle Func)} (routed : Routed g)
    (starts : Attempt g event base k outcome completed) (permitted : event.Allowed g)
    (stepped : g.step event = some (next, effects)) {wsi : Handle} {session : Session}
    (live : g.network.sessions wsi = some session) :
    next.api.subscriberCallbacks.find (some wsi) =
      g.api.subscriberCallbacks.find (some wsi) := by
  obtain ⟨_, subscriber, found, _⟩ := attempt_begins routed.indexed starts
  cases Option.some.inj (stepped.symm.trans (attempt_step routed.indexed starts found))
  obtain ⟨sameMap, sameSessions⟩ := attempt_base_same starts
  have baseLive : base.network.sessions wsi = some session := by rw [sameSessions, live]
  rw [World.attempted, attempt_find_of_ne (fresh_ne (attempt_fresh starts permitted) baseLive),
    sameMap]

theorem opened_others_kept {g base next : World Handle Func} {event : Event Handle Func}
    {k : Nat} {wsi : Handle} {completed : Int} {effects : List (Effect Handle Func)}
    (routed : Routed g) (starts : Attempt g event base k (.opened wsi) completed)
    (permitted : event.Allowed g) (stepped : g.step event = some (next, effects)) :
    OthersKept k g next where
  subscribers := by
    intro j subscriber other found
    obtain ⟨_, own, foundOwn, _⟩ := attempt_begins routed.indexed starts
    cases Option.some.inj (stepped.symm.trans (attempt_step routed.indexed starts foundOwn))
    rw [World.attempted, settle_getElem?, if_neg (Ne.symm other), afterReport_opened,
      attempt_base_getElem? starts other, found]
  entries := fun _ _ live _ => attempt_entries routed starts permitted stepped live

section ReportedInside
variable {g base next : World Handle Func} {event : Event Handle Func} {k : Nat}
  {wsi : Handle} {cleared : Bool} {completed : Int} {effects : List (Effect Handle Func)}

omit [DecidableEq Handle] in
theorem attempt_base_resolved {outcome : ConnectOutcome Handle}
    (starts : Attempt g event base k outcome completed) (wsi : Handle) :
    resolved wsi base.api = resolved wsi g.api := by
  rw [resolved, (attempt_base_same starts).1]
  rfl

theorem reported_inside_api (routed : Routed g)
    (starts : Attempt g event base k (.failed wsi true cleared) completed)
    (stepped : g.step event = some (next, effects)) :
    next.api = settle k (keptHandle k (.failed wsi true cleared) base.api) completed
      (reportEnd wsi base.api) := by
  obtain ⟨_, own, found, _⟩ := attempt_begins routed.indexed starts
  have result := attempt_step routed.indexed starts found
  exact congrArg (fun r => r.1.api) (Option.some.inj (stepped.symm.trans result))

theorem reported_inside_own (routed : Routed g)
    (starts : Attempt g event base k (.failed wsi true cleared) completed)
    (stepped : g.step event = some (next, effects)) :
    ∃ subscriber, next.api.subscribers[k]? = some subscriber ∧
      (subscriber.wsi = none ↔ cleared = true ∨ resolved wsi g.api = k) := by
  obtain ⟨_, own, found, _⟩ := attempt_begins routed.indexed starts
  have kept : keptHandle k (.failed wsi true cleared) base.api = none ↔
      cleared = true ∨ resolved wsi g.api = k := by
    rw [← attempt_base_resolved starts]
    cases cleared <;> simp [keptHandle]
  rw [reported_inside_api routed starts stepped, settle_getElem?, if_pos rfl,
    reportEnd_getElem?, found]
  split
  · exact ⟨_, rfl, kept⟩
  · exact ⟨_, rfl, kept⟩

theorem reported_inside_other (routed : Routed g)
    (starts : Attempt g event base k (.failed wsi true cleared) completed)
    (stepped : g.step event = some (next, effects)) {j : Nat} (other : j ≠ k) :
    next.api.subscribers[j]? =
      if resolved wsi g.api = j then
        g.api.subscribers[j]?.map fun subscriber => { subscriber with wsi := none }
      else g.api.subscribers[j]? := by
  rw [reported_inside_api routed starts stepped, settle_getElem?, if_neg (Ne.symm other),
    reportEnd_getElem?, attempt_base_resolved starts, attempt_base_getElem? starts other]

theorem inside_contained_iff (routed : Routed g)
    (starts : Attempt g event base k (.failed wsi true cleared) completed)
    (permitted : event.Allowed g) (stepped : g.step event = some (next, effects)) :
    FailureContained k g next ↔ ReportHarmless k wsi cleared g.api := by
  obtain ⟨own, foundOwn, ownVacant⟩ := reported_inside_own routed starts stepped
  constructor
  · intro contained
    obtain ⟨⟨left, foundLeft, leftVacant⟩, others⟩ := contained
    cases Option.some.inj (foundLeft.symm.trans foundOwn)
    by_cases hit : resolved wsi g.api = k
    · exact .inl hit
    · refine .inr ⟨(ownVacant.mp leftVacant).resolve_right hit, ?_⟩
      intro subscriber found
      have unchanged := others.subscribers _ subscriber hit found
      rw [reported_inside_other routed starts stepped hit, if_pos rfl, found,
        Option.map_some] at unchanged
      exact (congrArg Subscriber.wsi (Option.some.inj unchanged)).symm
  · intro harmless
    have vacant : own.wsi = none := by
      apply ownVacant.mpr
      obtain hit | ⟨isCleared, _⟩ := harmless
      · exact .inr hit
      · exact .inl isCleared
    refine ⟨⟨own, foundOwn, vacant⟩, ?_, fun _ _ live _ =>
      attempt_entries routed starts permitted stepped live⟩
    intro j subscriber other found
    rw [reported_inside_other routed starts stepped other]
    split
    · rename_i hit
      obtain own | ⟨_, noLoss⟩ := harmless
      · exact absurd (hit.symm.trans own) other
      · subst hit
        have already := noLoss subscriber found
        rw [found, Option.map_some, ← already]
    · exact found

end ReportedInside

/-- A failure reported from `lws_service` finds the entry of its handle. -/
theorem later_contained {g next : World Handle Func} {wsi : Handle} {session : Session}
    {input : StringView} {effects : List (Effect Handle Func)} (routed : Routed g)
    (live : g.network.sessions wsi = some session)
    (stepped : g.step (.callback ⟨wsi, .clientConnectionError, input⟩) = some (next, effects)) :
    FailureContained session.owner g next := by
  have mapped := routed.mapped wsi session live
  have hit : resolved wsi g.api = session.owner := by simp [resolved, mapped]
  have inRange := routed.indexed.entry_inRange _ _ mapped
  have ran := eventCbImpl_end (Or.inr (Eq.refl Reason.clientConnectionError)) input
    (hit ▸ inRange)
  simp only [World.step, ran, Option.map_some, Option.some.injEq, Prod.mk.injEq] at stepped
  obtain ⟨rfl, _⟩ := stepped
  refine ⟨⟨{ g.api.subscribers[session.owner] with wsi := none }, ?_, rfl⟩, ?_, ?_⟩
  · rw [reportEnd_getElem?, if_pos hit, List.getElem?_eq_getElem inRange]
    rfl
  · intro j subscriber other found
    rw [reportEnd_getElem?, if_neg (by rw [hit]; exact Ne.symm other), found]
  · intro wsi' session' live' other
    have different : some wsi' ≠ some wsi := by
      rintro ⟨⟩
      cases Option.some.inj (live.symm.trans live')
      exact other rfl
    rw [reportEnd, UnorderedMap.find_erase_of_ne _ different]

/-- A failing attempt is contained when its failure is reported later, for the
handle that the call has handed over; when it is reported inside the connect
call, exactly if that report is harmless. -/
theorem failed_attempt_contained {g : World Handle Func}
    (reached : Reachable (world Handle Func) g) :
    (∀ {base next : World Handle Func} {event : Event Handle Func} {k : Nat} {wsi : Handle}
      {cleared : Bool} {completed : Int} {effects : List (Effect Handle Func)},
      Attempt g event base k (.failed wsi true cleared) completed → event.Allowed g →
        g.step event = some (next, effects) →
          (FailureContained k g next ↔ ReportHarmless k wsi cleared g.api)) ∧
    (∀ {base next : World Handle Func} {event : Event Handle Func} {k : Nat} {wsi : Handle}
      {completed : Int} {effects : List (Effect Handle Func)},
      Attempt g event base k (.opened wsi) completed → event.Allowed g →
        g.step event = some (next, effects) → OthersKept k g next) ∧
    (∀ (wsi : Handle) (session : Session) (input : StringView) (next : World Handle Func)
      (effects : List (Effect Handle Func)), g.network.sessions wsi = some session →
        g.step (.callback ⟨wsi, .clientConnectionError, input⟩) = some (next, effects) →
          FailureContained session.owner g next) := by
  have routed := reachable_routed reached
  refine ⟨?_, ?_, ?_⟩
  · intro base next event k wsi cleared completed effects starts permitted stepped
    exact inside_contained_iff routed starts permitted stepped
  · intro base next event k wsi completed effects starts permitted stepped
    exact opened_others_kept routed starts permitted stepped
  · intro wsi session input next effects live stepped
    exact later_contained routed live stepped

/-- The first attempt of the second subscriber fails inside the call, with
`*pwsi` cleared, and the first subscriber loses its open handle. -/
theorem misdirected_not_contained :
    Reachable (world Nat Nat) oneSession ∧
      Attempt oneSession (.connectEndpoint [48] 6 0 (.failed 2 true true) 0)
        (oneSession.registered [48] 6 0) 1 (.failed 2 true true) 0 ∧
      oneSession.step (.connectEndpoint [48] 6 0 (.failed 2 true true) 0) =
        some (misdirected, [.clientConnectViaInfo (connectInfo [48]) 1]) ∧
      ¬ FailureContained 1 oneSession misdirected := by
  refine ⟨oneSession_reachable, .first [48] 6 0 (.failed 2 true true) 0, misdirected_step, ?_⟩
  intro contained
  have kept := contained.others.subscribers 0 ⟨0, some 1, [47], 5, 0⟩ (by decide) rfl
  have lost : misdirected.api.subscribers[0]? = some ⟨0, none, [47], 5, 0⟩ := rfl
  cases kept.symm.trans lost

theorem failed_attempt_contained_oneSession :
    (FailureContained 1 oneSession misdirected ↔
      ReportHarmless 1 2 true oneSession.api) ∧
      ∃ next, oneSession.step (.callback ⟨1, .clientConnectionError, StringView.ofString []⟩) =
        some (next, []) ∧ FailureContained 0 oneSession next := by
  obtain ⟨inside, _, later⟩ := failed_attempt_contained oneSession_reachable
  refine ⟨inside (.first [48] 6 0 (.failed 2 true true) 0) misdirected_permitted
    misdirected_step, ⟨_, rfl, ?_⟩⟩
  exact later 1 ⟨0, [47]⟩ (StringView.ofString []) _ [] rfl rfl

end BinanceNativeApp.Websocket.FailedAttempts
