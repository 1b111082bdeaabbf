import BinanceNativeApp.Websocket.Routing

/-!
# When the map and the vector agree

`subscribers_[i].wsi` and `subscriber_callbacks_` are meant to be inverse to
each other.  A report for a handle without an entry breaks this: `operator[]`
binds the handle to index 0, so subscriber 0 loses its `wsi` while its own
entry stays.  That happens when libwebsockets reports a failed attempt from
inside the connect call, before the entry of the new handle is written.  The
other way is the reuse of an address that a subscriber still stores after its
attempt failed unnoticed.  These two are all: a run stays consistent exactly
as long as it avoids them.
-/

set_option autoImplicit false

namespace BinanceNativeApp.Websocket.Agreement

open BinanceNativeApp.Library.Containers
open BinanceNativeApp.Library.Transition
open BinanceNativeApp.Websocket.Subscriptions
open BinanceNativeApp.Websocket.Runs
open BinanceNativeApp.Websocket.Routing

section Definitions
variable {Handle Func : Type}

def Holds (s : Api Handle Func) (i : Nat) (wsi : Handle) : Prop :=
  ∃ subscriber, s.subscribers[i]? = some subscriber ∧ subscriber.wsi = some wsi

/-- Off the null handle, the map is the inverse of the `wsi` fields. -/
def Matched (s : Api Handle Func) : Prop :=
  ∀ (wsi : Handle) (i : Nat), s.subscriberCallbacks.find (some wsi) = some i ↔ Holds s i wsi

structure Consistent (g : World Handle Func) : Prop where
  index_exact : ∀ (i : Nat) (subscriber : Subscriber Handle Func),
    g.api.subscribers[i]? = some subscriber → subscriber.index = i
  matched : Matched g.api
  /-- No open handle belongs to two subscribers or to none. -/
  owner_unique : ∀ wsi session, g.network.sessions wsi = some session →
    ∃! i, Holds g.api i wsi
  /-- No subscriber has two open handles. -/
  handle_unique : ∀ wsi other session otherSession,
    g.network.sessions wsi = some session → g.network.sessions other = some otherSession →
      session.owner = otherSession.owner → wsi = other

/-! ## The condition on one step -/

/-- The report finds an entry for its handle, or does no harm at index 0. -/
def ReportLands (wsi : Handle) (s : Api Handle Func) : Prop :=
  s.subscriberCallbacks.find (some wsi) ≠ none ∨
    ∀ subscriber, s.subscribers[0]? = some subscriber → subscriber.wsi = none

def Unheld (wsi : Handle) (s : Api Handle Func) : Prop := ∀ i, ¬ Holds s i wsi

def AttemptKeeps (s : Api Handle Func) : ConnectOutcome Handle → Prop
  | .opened wsi => Unheld wsi s
  | .failed wsi true _ => ReportLands wsi s
  | .failed wsi false cleared => cleared = true ∨ Unheld wsi s
  | .refused => True

def StepKeeps (g : World Handle Func) : Event Handle Func → Prop
  | .connectEndpoint _ _ _ outcome _ => AttemptKeeps g.api outcome
  | .visit i met => ∀ subscriber, g.api.subscribers[i]? = some subscriber →
      reconnectDue subscriber met.now = true → AttemptKeeps g.api met.outcome
  | .callback c => c.reason = .closed ∨ c.reason = .clientConnectionError →
      ReportLands c.wsi g.api

end Definitions

/-! ## One step -/

section Steps
variable {Handle Func : Type}

theorem holds_index_unique {s : Api Handle Func} (matched : Matched s) {wsi : Handle}
    {i j : Nat} (left : Holds s i wsi) (right : Holds s j wsi) : i = j := by
  have found := (matched wsi i).mpr left
  exact Option.some.inj (found.symm.trans ((matched wsi j).mpr right))

theorem holds_handle_unique {s : Api Handle Func} {i : Nat} {wsi other : Handle}
    (left : Holds s i wsi) (right : Holds s i other) : wsi = other := by
  obtain ⟨subscriber, found, held⟩ := left
  obtain ⟨subscriber', found', held'⟩ := right
  cases Option.some.inj (found.symm.trans found')
  exact Option.some.inj (held.symm.trans held')

theorem not_holds_of_vacant {s : Api Handle Func} {k : Nat}
    {subscriber : Subscriber Handle Func} (found : s.subscribers[k]? = some subscriber)
    (vacant : subscriber.wsi = none) (wsi : Handle) : ¬ Holds s k wsi := by
  intro held
  obtain ⟨other, foundOther, held⟩ := held
  cases Option.some.inj (found.symm.trans foundOther)
  rw [vacant] at held
  cases held

theorem emplaceBack_holds (path : Bytes) (func : Func) (created : Int) (s : Api Handle Func)
    (i : Nat) (wsi : Handle) : Holds (emplaceBack path func created s) i wsi ↔ Holds s i wsi := by
  rcases Nat.lt_trichotomy i s.subscribers.length with earlier | rfl | beyond
  · simp only [Holds, emplaceBack_getElem?_of_lt path func created earlier]
  · simp [Holds, emplaceBack_getElem?_length]
  · have absent : (emplaceBack path func created s).subscribers[i]? = none := by
      simp only [emplaceBack, List.getElem?_eq_none_iff, List.length_append,
        List.length_singleton]
      omega
    simp [Holds, absent, List.getElem?_eq_none (Nat.le_of_lt beyond)]

theorem emplaceBack_matched {s : Api Handle Func} (matched : Matched s) (path : Bytes)
    (func : Func) (created : Int) : Matched (emplaceBack path func created s) := by
  intro wsi i
  rw [emplaceBack_holds]
  exact matched wsi i

theorem emplaceBack_keeps (path : Bytes) (func : Func) (created : Int) (s : Api Handle Func)
    (outcome : ConnectOutcome Handle) :
    AttemptKeeps (emplaceBack path func created s) outcome ↔ AttemptKeeps s outcome := by
  have unheld : ∀ wsi, Unheld wsi (emplaceBack path func created s) ↔ Unheld wsi s := by
    intro wsi
    simp only [Unheld, emplaceBack_holds]
  have lands : ∀ wsi, ReportLands wsi (emplaceBack path func created s) ↔ ReportLands wsi s := by
    intro wsi
    have first : (∀ subscriber, (emplaceBack path func created s).subscribers[0]? =
        some subscriber → subscriber.wsi = none) ↔
          ∀ subscriber, s.subscribers[0]? = some subscriber → subscriber.wsi = none := by
      cases known : s.subscribers with
      | nil => simp [emplaceBack, known]
      | cons head rest => simp [emplaceBack, known]
    simp only [ReportLands, first]
    rfl
  cases outcome with
  | opened wsi => exact unheld wsi
  | failed wsi reported cleared =>
      cases reported with
      | true => exact lands wsi
      | false => simp only [AttemptKeeps, unheld]
  | refused => exact Iff.rfl

variable [DecidableEq Handle]

theorem settle_holds {k : Nat} {s : Api Handle Func} (inRange : k < s.subscribers.length)
    (wsi : Option Handle) (completed : Int) (i : Nat) (other : Handle) :
    Holds (settle k wsi completed s) i other ↔
      if k = i then wsi = some other else Holds s i other := by
  unfold Holds
  rw [settle_getElem?]
  by_cases here : k = i
  · subst here
    simp [List.getElem?_eq_getElem inRange]
  · simp [here]

theorem reportEnd_holds (wsi : Handle) (s : Api Handle Func) (i : Nat) (other : Handle) :
    Holds (reportEnd wsi s) i other ↔ resolved wsi s ≠ i ∧ Holds s i other := by
  unfold Holds
  rw [reportEnd_getElem?]
  by_cases hit : resolved wsi s = i
  · simp [hit]
  · simp [hit]

theorem settle_matched_of_new {s : Api Handle Func} {k : Nat}
    (inRange : k < s.subscribers.length) (empty : ∀ other, ¬ Holds s k other)
    {wsi : Option Handle} (new : ∀ created, wsi = some created →
      Unheld created s ∧ s.subscriberCallbacks.find (some created) = none) (completed : Int) :
    Matched (settle k wsi completed s) ↔ Matched s := by
  have pointwise : ∀ other i,
      ((settle k wsi completed s).subscriberCallbacks.find (some other) = some i ↔
        Holds (settle k wsi completed s) i other) ↔
      (s.subscriberCallbacks.find (some other) = some i ↔ Holds s i other) := by
    intro other i
    rw [settle_holds inRange]
    by_cases same : some other = wsi
    · subst same
      obtain ⟨unheld, absent⟩ := new other rfl
      simp [settle, unheld i, absent]
    · rw [settle, UnorderedMap.find_assign_of_ne _ _ same]
      by_cases here : k = i
      · subst here
        simp [empty other, Ne.symm same]
      · simp [here]
  exact forall_congr' fun other => forall_congr' fun i => pointwise other i

theorem settle_matched_iff {s : Api Handle Func} (matched : Matched s) {k : Nat}
    {subscriber : Subscriber Handle Func} (found : s.subscribers[k]? = some subscriber)
    (vacant : subscriber.wsi = none) (wsi : Option Handle) (completed : Int) :
    Matched (settle k wsi completed s) ↔ ∀ created, wsi = some created → Unheld created s := by
  have inRange := (List.getElem?_eq_some_iff.mp found).1
  have empty := not_holds_of_vacant found vacant
  constructor
  · rintro after created rfl i holds
    have different : k ≠ i := fun same => empty created (same ▸ holds)
    have moved := (after created i).mpr (by
      rw [settle_holds inRange, if_neg different]
      exact holds)
    simp only [settle, UnorderedMap.find_assign_self, Option.some.injEq] at moved
    exact different moved
  · intro unheld
    apply (settle_matched_of_new inRange empty ?_ completed).mpr matched
    intro created isHandle
    refine ⟨unheld created isHandle, ?_⟩
    apply Option.eq_none_iff_forall_ne_some.mpr
    intro i mapped
    exact unheld created isHandle i ((matched created i).mp mapped)

/-- Only the subscriber of the entry holds the handle, so that exactly its
entry and its field go. -/
theorem reportEnd_matched_of_entry {s : Api Handle Func} (matched : Matched s) {wsi : Handle}
    {j : Nat} (entry : s.subscriberCallbacks.find (some wsi) = some j) :
    Matched (reportEnd wsi s) := by
  have hit : resolved wsi s = j := by simp [resolved, entry]
  intro other i
  rw [reportEnd_holds, hit]
  by_cases same : other = wsi
  · subst same
    have unique : Holds s i other → j = i := fun holds =>
      holds_index_unique matched ((matched other j).mp entry) holds
    simp only [reportEnd, UnorderedMap.find_erase_self, reduceCtorEq, false_iff, not_and]
    exact fun different holds => different (unique holds)
  · rw [reportEnd, UnorderedMap.find_erase_of_ne _ (by simpa using same), matched other i]
    refine (and_iff_right_of_imp ?_).symm
    intro holds hitHere
    subst hitHere
    exact same (holds_handle_unique holds ((matched wsi _).mp entry))

/-- `operator[]` binds an unknown handle to index 0, and the report takes the
handle of subscriber 0, whose entry stays. -/
theorem reportEnd_matched_of_unknown {s : Api Handle Func} (matched : Matched s) {wsi : Handle}
    (unknown : s.subscriberCallbacks.find (some wsi) = none) :
    Matched (reportEnd wsi s) ↔
      ∀ subscriber, s.subscribers[0]? = some subscriber → subscriber.wsi = none := by
  have hit : resolved wsi s = 0 := by simp [resolved, unknown]
  have sameFind : ∀ other, (reportEnd wsi s).subscriberCallbacks.find (some other) =
      s.subscriberCallbacks.find (some other) := by
    intro other
    by_cases same : other = wsi
    · subst same
      simp [reportEnd, unknown]
    · rw [reportEnd, UnorderedMap.find_erase_of_ne _ (by simpa using same)]
  constructor
  · intro after first found
    by_contra stored
    obtain ⟨held, heldEq⟩ := Option.ne_none_iff_exists'.mp stored
    have mapped := (matched held 0).mpr ⟨first, found, heldEq⟩
    rw [← sameFind held, after held 0, reportEnd_holds] at mapped
    exact mapped.1 hit
  · intro vacant other i
    rw [sameFind, reportEnd_holds, hit, matched other i]
    refine (and_iff_right_of_imp ?_).symm
    intro holds hitHere
    subst hitHere
    obtain ⟨subscriber, found, held⟩ := holds
    rw [vacant subscriber found] at held
    cases held

theorem reportEnd_matched_iff {s : Api Handle Func} (matched : Matched s) (wsi : Handle) :
    Matched (reportEnd wsi s) ↔ ReportLands wsi s := by
  cases entry : s.subscriberCallbacks.find (some wsi) with
  | some j =>
      have lands : ReportLands wsi s := .inl (by simp [entry])
      exact iff_of_true (reportEnd_matched_of_entry matched entry) lands
  | none =>
      rw [reportEnd_matched_of_unknown matched entry, ReportLands]
      exact (or_iff_right (not_not.mpr entry)).symm

theorem attempt_matched_iff {s : Api Handle Func} (matched : Matched s) {k : Nat}
    {subscriber : Subscriber Handle Func} (found : s.subscribers[k]? = some subscriber)
    (vacant : subscriber.wsi = none) (outcome : ConnectOutcome Handle) (completed : Int) :
    Matched (settle k (keptHandle k outcome s) completed (afterReport outcome s)) ↔
      AttemptKeeps s outcome := by
  have settled := settle_matched_iff matched found vacant
  cases outcome with
  | opened wsi => simp [afterReport, keptHandle, settled, AttemptKeeps]
  | refused => simp [afterReport, keptHandle, settled, AttemptKeeps]
  | failed wsi reported cleared =>
      cases reported with
      | false => cases cleared <;> simp [afterReport, keptHandle, settled, AttemptKeeps]
      | true =>
          simp only [AttemptKeeps, ← reportEnd_matched_iff matched wsi, afterReport]
          apply settle_matched_of_new
          · simpa [reportEnd] using (List.getElem?_eq_some_iff.mp found).1
          · intro other holds
            have before := ((reportEnd_holds wsi s k other).mp holds).2
            exact not_holds_of_vacant found vacant other before
          · intro created isHandle
            have same : created = wsi := by
              simp only [keptHandle] at isHandle
              split at isHandle
              · cases isHandle
              · exact (Option.some.inj isHandle).symm
            subst same
            refine ⟨?_, by simp [reportEnd]⟩
            intro i holds
            obtain ⟨missed, held⟩ := (reportEnd_holds created s i created).mp holds
            exact missed (by simp [resolved, (matched created i).mpr held])

/-! ## One event, and whole runs -/

omit [DecidableEq Handle] in
/-- In a routed world the rest of consistency follows from the match. -/
theorem consistent_iff_matched {g : World Handle Func} (routed : Routed g) :
    Consistent g ↔ Matched g.api := by
  refine ⟨Consistent.matched, fun matched => ?_⟩
  have owns : ∀ wsi session, g.network.sessions wsi = some session →
      Holds g.api session.owner wsi := fun wsi session live =>
    (matched wsi session.owner).mp (routed.mapped wsi session live)
  constructor
  · exact routed.indexed.index_exact
  · exact matched
  · intro wsi session live
    exact ⟨session.owner, owns wsi session live,
      fun i holds => holds_index_unique matched holds (owns wsi session live)⟩
  · intro wsi other session otherSession live otherLive sameOwner
    have second := owns other otherSession otherLive
    rw [← sameOwner] at second
    exact holds_handle_unique (owns wsi session live) second

omit [DecidableEq Handle] in
theorem attempt_keeps_iff {g base : World Handle Func} {event : Event Handle Func} {k : Nat}
    {outcome : ConnectOutcome Handle} {completed : Int}
    (starts : Attempt g event base k outcome completed) :
    AttemptKeeps base.api outcome ↔ StepKeeps g event := by
  cases starts with
  | first path func created outcome completed =>
      exact emplaceBack_keeps path func created g.api outcome
  | @again i met subscriber found due =>
      constructor
      · intro keeps _ _ _
        exact keeps
      · intro keeps
        exact keeps subscriber found due

omit [DecidableEq Handle] in
theorem attempt_base_matched {g base : World Handle Func} {event : Event Handle Func} {k : Nat}
    {outcome : ConnectOutcome Handle} {completed : Int}
    (starts : Attempt g event base k outcome completed) (matched : Matched g.api) :
    Matched base.api := by
  cases starts with
  | first path func created outcome completed =>
      exact emplaceBack_matched matched path func created
  | again found due => exact matched

theorem callback_matched_iff {g : World Handle Func} (routed : Routed g)
    (matched : Matched g.api) {c : Callback Handle} {api : Api Handle Func}
    {effects : List (Effect Handle Func)}
    (permitted : (Event.callback c : Event Handle Func).Allowed g)
    (ran : eventCbImpl c.wsi c.reason c.input g.api = some (api, effects)) :
    Matched api ↔ StepKeeps g (Event.callback c) := by
  rcases callback_cases routed c permitted with ⟨ends, ran'⟩ | ⟨goesOn, _, ran', _⟩
  · cases ran.symm.trans ran'
    rw [reportEnd_matched_iff matched]
    exact ⟨fun lands _ => lands, fun keeps => keeps ends⟩
  · cases ran.symm.trans ran'
    exact iff_of_true matched fun ends => absurd ends goesOn

theorem step_consistent_iff {g next : World Handle Func} {event : Event Handle Func}
    {effects : List (Effect Handle Func)} (routed : Routed g) (consistent : Consistent g)
    (permitted : event.Allowed g) (stepped : g.step event = some (next, effects)) :
    Consistent next ↔ StepKeeps g event := by
  have routedNext := routed_preserved g event next effects routed permitted stepped
  rw [consistent_iff_matched routedNext]
  have matched := consistent.matched
  rcases step_cases routed.indexed stepped with
    ⟨base, k, outcome, completed, subscriber, starts, found, rfl, _⟩ |
      ⟨i, met, subscriber, rfl, found, notDue, rfl, _⟩ | ⟨c, rfl, ran, _⟩
  · obtain ⟨_, other, foundOther, vacant⟩ := attempt_begins routed.indexed starts
    rw [← attempt_keeps_iff starts]
    exact attempt_matched_iff (attempt_base_matched starts matched) foundOther vacant outcome
      completed
  · refine iff_of_true matched ?_
    intro other foundOther due
    cases Option.some.inj (found.symm.trans foundOther)
    rw [notDue] at due
    cases due
  · exact callback_matched_iff routed matched permitted ran

/-- The states of a run are consistent exactly if each of its steps finds the
map entry it needs and takes up no handle that is still stored. -/
theorem stays_consistent_iff {moves : List (Move (World Handle Func) (Event Handle Func)
      (Effect Handle Func))} {g : World Handle Func}
    (run : Path (world Handle Func) World.initial moves g) :
    Consistent (World.initial : World Handle Func) ∧
      ((∀ move ∈ moves, Consistent move.after) ↔
        ∀ move ∈ moves, StepKeeps move.before move.label) := by
  have start : Consistent (World.initial : World Handle Func) := by
    rw [consistent_iff_matched initial_routed]
    intro wsi i
    simp [World.initial, initial, UnorderedMap.find_empty, Holds]
  refine ⟨start, ?_⟩
  apply path_stays_iff routed_preserved _ run initial_routed start
  intro g event next effects routed consistent permitted stepped
  exact step_consistent_iff routed consistent permitted stepped

end Steps

/-! ## A failed second attempt takes the handle of the first subscriber -/

def misdirected : World Nat Nat :=
  (oneSession.registered [48] 6 0).attempted 1 (.failed 2 true true) 0 (connectInfo [48])

theorem misdirected_step : oneSession.step (.connectEndpoint [48] 6 0 (.failed 2 true true) 0) =
    some (misdirected, [.clientConnectViaInfo (connectInfo [48]) 1]) :=
  attempt_step (reachable_routed oneSession_reachable).indexed
    (.first [48] 6 0 (.failed 2 true true) 0) rfl

theorem misdirected_permitted : Event.Allowed oneSession
    (.connectEndpoint [48] 6 0 (.failed 2 true true) 0) := by
  intro wsi created
  cases created
  rfl

def misdirectedRun : List (Move (World Nat Nat) (Event Nat Nat) (Effect Nat Nat)) :=
  [⟨World.initial, .connectEndpoint [47] 5 0 (.opened 1) 0,
      [.clientConnectViaInfo (connectInfo [47]) 0], oneSession⟩,
    ⟨oneSession, .connectEndpoint [48] 6 0 (.failed 2 true true) 0,
      [.clientConnectViaInfo (connectInfo [48]) 1], misdirected⟩]

theorem misdirectedRun_path :
    Path (world Nat Nat) World.initial misdirectedRun misdirected := by
  have first : (world Nat Nat).allowed World.initial
      (.connectEndpoint [47] 5 0 (.opened 1) 0) := by
    intro wsi _
    rfl
  exact Path.cons first rfl (Path.cons misdirected_permitted misdirected_step (Path.nil _))

theorem misdirected_not_consistent :
    Path (world Nat Nat) World.initial misdirectedRun misdirected ∧
      misdirected.network.sessions 1 = some ⟨0, [47]⟩ ∧
      misdirected.api.subscriberCallbacks.find (some 1) = some 0 ∧
      misdirected.api.subscribers.map Subscriber.wsi = [none, none] ∧
      ¬ Consistent misdirected := by
  refine ⟨misdirectedRun_path, rfl, rfl, rfl, ?_⟩
  intro consistent
  obtain ⟨subscriber, found, held⟩ := (consistent.matched 1 0).mp rfl
  cases found
  cases held

theorem stays_consistent_iff_oneSession :
    Consistent oneSession ↔ StepKeeps (World.initial : World Nat Nat)
      (.connectEndpoint [47] 5 0 (.opened 1) 0) := by
  have first : (world Nat Nat).allowed World.initial
      (.connectEndpoint [47] 5 0 (.opened 1) 0) := by
    intro wsi _
    rfl
  have run : Path (world Nat Nat) World.initial
      [⟨World.initial, .connectEndpoint [47] 5 0 (.opened 1) 0,
        [.clientConnectViaInfo (connectInfo [47]) 0], oneSession⟩] oneSession :=
    path_single first rfl
  simpa using (stays_consistent_iff run).2

end BinanceNativeApp.Websocket.Agreement
