import Mathlib.Algebra.Ring.Int.Defs
import BinanceNativeApp.Library.Containers
import BinanceNativeApp.Library.Transition

/-!
# The subscriptions of `binance::api`

`subscribers_` and `subscriber_callbacks_` with the functions that touch them:
both `connect_endpoint` overloads, `event_cb_impl` and `event_loop`.  What
libwebsockets decides is an argument: the outcome of every
`lws_client_connect_via_info` call, every reading of the steady clock (in
nanoseconds) and the callbacks made from `lws_service`.  A function answers
`none` where the source indexes `subscribers_` out of range.

libwebsockets stores the new handle through `pwsi` while its connect call is
still running, and may report a connection error for that handle before the
call returns.  `clientConnectViaInfo` therefore calls back into `eventCbImpl`.
-/

set_option autoImplicit false

namespace BinanceNativeApp.Websocket.Subscriptions

open BinanceNativeApp.Library.Containers
open BinanceNativeApp.Library.Transition

/-- The callback reasons with a `case` of their own, the client-side end of a
session, which has none, and everything else. -/
inductive Reason
  | clientEstablished
  | clientReceive
  | clientWriteable
  | closed
  | clientConnectionError
  | clientClosed
  | other
  deriving DecidableEq

structure Subscriber (Handle Func : Type) where
  index : Nat
  wsi : Option Handle
  path : Bytes
  callbackFunc : Func
  subscribeTs : Int
  deriving DecidableEq

structure Api (Handle Func : Type) where
  subscriberCallbacks : UnorderedMap (Option Handle) Nat
  subscribers : List (Subscriber Handle Func)

/-- What `lws_canonical_hostname` answers for the context. -/
inductive Host
  | canonicalHostname
  deriving DecidableEq

inductive SslConnection
  | useSsl
  | allowSelfsigned
  | skipServerCertHostnameCheck
  deriving DecidableEq

structure ClientConnectInfo where
  address : String
  port : Nat
  path : Bytes
  host : Host
  origin : String
  protocol : String
  sslConnection : List SslConnection
  deriving DecidableEq

/-- What the code asks of libwebsockets and of the registered functions. -/
inductive Effect (Handle Func : Type)
  | callbackOnWritable (wsi : Handle)
  | callbackFunc (func : Func) (message : StringView)
  | clientConnectViaInfo (info : ClientConnectInfo) (pwsi : Nat)
  deriving DecidableEq

/-- How one `lws_client_connect_via_info` call goes.  A failed call has
created a handle; it may have reported the error for it and may have cleared
`*pwsi` again.  A refused call never had a handle. -/
inductive ConnectOutcome (Handle : Type)
  | opened (wsi : Handle)
  | failed (wsi : Handle) (reported cleared : Bool)
  | refused
  deriving DecidableEq

def ConnectOutcome.handle {Handle : Type} : ConnectOutcome Handle → Option Handle
  | .opened wsi => some wsi
  | .failed wsi _ _ => some wsi
  | .refused => none

structure Callback (Handle : Type) where
  wsi : Handle
  reason : Reason
  input : StringView
  deriving DecidableEq

/-- What `event_loop` meets when it reaches one subscriber. -/
structure Visit (Handle : Type) where
  now : Int
  outcome : ConnectOutcome Handle
  completed : Int
  deriving DecidableEq

section Functions
variable {Handle Func : Type}

def initial : Api Handle Func := ⟨UnorderedMap.empty, []⟩

def modifySubscriber (i : Nat) (change : Subscriber Handle Func → Subscriber Handle Func)
    (s : Api Handle Func) : Option (Api Handle Func) :=
  if i < s.subscribers.length then
    some { s with subscribers := s.subscribers.modify i change }
  else none

def setWsi (i : Nat) (wsi : Option Handle) (s : Api Handle Func) : Option (Api Handle Func) :=
  modifySubscriber i (fun subscriber => { subscriber with wsi := wsi }) s

/-- libwebsockets reads the path as a C string. -/
def connectInfo (path : Bytes) : ClientConnectInfo where
  address := "stream.binance.com"
  port := 9443
  path := cString path
  host := .canonicalHostname
  origin := "origin"
  protocol := "example-protocol"
  sslConnection := [.useSsl, .allowSelfsigned, .skipServerCertHostnameCheck]

def emplaceBack (path : Bytes) (func : Func) (created : Int) (s : Api Handle Func) :
    Api Handle Func :=
  { s with subscribers := s.subscribers ++ [⟨s.subscribers.length, none, path, func, created⟩] }

/-- `duration_cast<seconds>` truncates toward zero, and the count becomes a
`uint64_t`. -/
def elapsedSeconds (now since : Int) : Nat :=
  ((now - since).tdiv 1000000000 % 2 ^ 64).toNat

def reconnectDue (subscriber : Subscriber Handle Func) (now : Int) : Bool :=
  subscriber.wsi.isNone && decide (2 < elapsedSeconds now subscriber.subscribeTs)

variable [DecidableEq Handle]

def eventCbImpl (wsi : Handle) (reason : Reason) (input : StringView) (s : Api Handle Func) :
    Option (Api Handle Func × List (Effect Handle Func)) :=
  match reason with
  | .clientEstablished => some (s, [.callbackOnWritable wsi])
  | .clientReceive =>
      let (index, callbacks) := s.subscriberCallbacks.subscript (some wsi) 0
      match s.subscribers[index]? with
      | none => none
      | some subscriber =>
          some ({ s with subscriberCallbacks := callbacks },
            [.callbackFunc subscriber.callbackFunc input])
  | .clientWriteable => some (s, [])
  | .closed | .clientConnectionError =>
      let (index, callbacks) := s.subscriberCallbacks.subscript (some wsi) 0
      match setWsi index none { s with subscriberCallbacks := callbacks } with
      | none => none
      | some s =>
          some ({ s with subscriberCallbacks := s.subscriberCallbacks.erase (some wsi) }, [])
  | .clientClosed | .other => some (s, [])

/-- What becomes of the api while `lws_client_connect_via_info` runs. -/
def clientConnectViaInfo (pwsi : Nat) (outcome : ConnectOutcome Handle) (s : Api Handle Func) :
    Option (Api Handle Func) :=
  match outcome with
  | .refused => some s
  | .opened wsi => setWsi pwsi (some wsi) s
  | .failed wsi reported cleared => do
      let s ← setWsi pwsi (some wsi) s
      let s ← if reported then
          (eventCbImpl wsi .clientConnectionError (StringView.ofString []) s).map Prod.fst
        else some s
      if cleared then setWsi pwsi none s else some s

/-- `connect_endpoint(subscriber&)` for the subscriber at position `k`. -/
def connectEndpointSubscriber (k : Nat) (outcome : ConnectOutcome Handle) (completed : Int)
    (s : Api Handle Func) : Option (Api Handle Func × List (Effect Handle Func)) := do
  let subscriber ← s.subscribers[k]?
  let s ← clientConnectViaInfo k outcome s
  let connected ← s.subscribers[k]?
  let callbacks := s.subscriberCallbacks.assign connected.wsi connected.index
  let s ← modifySubscriber k (fun subscriber => { subscriber with subscribeTs := completed })
    { s with subscriberCallbacks := callbacks }
  some (s, [.clientConnectViaInfo (connectInfo subscriber.path) k])

def connectEndpoint (path : Bytes) (func : Func) (created : Int)
    (outcome : ConnectOutcome Handle) (completed : Int) (s : Api Handle Func) :
    Option (Api Handle Func × List (Effect Handle Func)) :=
  connectEndpointSubscriber s.subscribers.length outcome completed
    (emplaceBack path func created s)

def visit (i : Nat) (met : Visit Handle) (s : Api Handle Func) :
    Option (Api Handle Func × List (Effect Handle Func)) :=
  match s.subscribers[i]? with
  | none => none
  | some subscriber =>
      if reconnectDue subscriber met.now then
        connectEndpointSubscriber i met.outcome met.completed s
      else some (s, [])

def eventLoop (script : Nat → Visit Handle) (callbacks : List (Callback Handle))
    (s : Api Handle Func) : Option (Api Handle Func × List (Effect Handle Func)) := do
  let (s, attempts) ← sequence (fun i => visit i (script i))
    (List.range s.subscribers.length) s
  let (s, served) ← sequence (fun c => eventCbImpl c.wsi c.reason c.input) callbacks s
  some (s, attempts ++ served)

end Functions

/-! ## The net effect of one call -/

section Effects
variable {Handle Func : Type}

/-- The index that `subscriber_callbacks_[wsi]` answers. -/
def resolved (wsi : Handle) (s : Api Handle Func) : Nat :=
  (s.subscriberCallbacks.find (some wsi)).getD 0

variable [DecidableEq Handle]

/-- A reported end: the subscriber found under the handle loses its `wsi`. -/
def reportEnd (wsi : Handle) (s : Api Handle Func) : Api Handle Func where
  subscriberCallbacks := s.subscriberCallbacks.erase (some wsi)
  subscribers := s.subscribers.modify (resolved wsi s) fun subscriber =>
    { subscriber with wsi := none }

/-- The end of `connect_endpoint`: the map entry and the time stamp. -/
def settle (k : Nat) (wsi : Option Handle) (completed : Int) (s : Api Handle Func) :
    Api Handle Func where
  subscriberCallbacks := s.subscriberCallbacks.assign wsi k
  subscribers := s.subscribers.modify k fun subscriber =>
    { subscriber with wsi := wsi, subscribeTs := completed }

def afterReport (outcome : ConnectOutcome Handle) (s : Api Handle Func) : Api Handle Func :=
  match outcome with
  | .failed wsi true _ => reportEnd wsi s
  | _ => s

def keptHandle (k : Nat) (outcome : ConnectOutcome Handle) (s : Api Handle Func) :
    Option Handle :=
  match outcome with
  | .opened wsi => some wsi
  | .failed wsi reported cleared =>
      if cleared || (reported && decide (resolved wsi s = k)) then none else some wsi
  | .refused => none

structure WellIndexed (s : Api Handle Func) : Prop where
  index_exact : ∀ (i : Nat) (subscriber : Subscriber Handle Func),
    s.subscribers[i]? = some subscriber → subscriber.index = i
  entry_inRange : ∀ (key : Option Handle) (i : Nat),
    s.subscriberCallbacks.find key = some i → i < s.subscribers.length

omit [DecidableEq Handle] in
theorem resolved_lt {s : Api Handle Func} (indexed : WellIndexed s)
    (populated : s.subscribers ≠ []) (wsi : Handle) : resolved wsi s < s.subscribers.length := by
  unfold resolved
  cases found : s.subscriberCallbacks.find (some wsi) with
  | none => simpa using List.length_pos_iff.mpr populated
  | some i => exact indexed.entry_inRange (some wsi) i found

omit [DecidableEq Handle] in
theorem modifySubscriber_of_lt {i : Nat} {s : Api Handle Func}
    (change : Subscriber Handle Func → Subscriber Handle Func)
    (inRange : i < s.subscribers.length) :
    modifySubscriber i change s =
      some { s with subscribers := s.subscribers.modify i change } := by
  simp [modifySubscriber, inRange]

/-- The frame of a reported end and of the end of `connect_endpoint`: only the
`wsi` and the time stamp of one subscriber change. -/
theorem reportEnd_getElem? (wsi : Handle) (s : Api Handle Func) (i : Nat) :
    (reportEnd wsi s).subscribers[i]? =
      if resolved wsi s = i then
        s.subscribers[i]?.map fun subscriber => { subscriber with wsi := none }
      else s.subscribers[i]? := by
  by_cases hit : resolved wsi s = i
  · subst hit
    simp [reportEnd]
  · simp [reportEnd, hit]

theorem settle_getElem? (k : Nat) (wsi : Option Handle) (completed : Int)
    (s : Api Handle Func) (i : Nat) :
    (settle k wsi completed s).subscribers[i]? =
      if k = i then
        s.subscribers[i]?.map fun subscriber =>
          { subscriber with wsi := wsi, subscribeTs := completed }
      else s.subscribers[i]? := by
  by_cases here : k = i
  · subst here
    simp [settle]
  · simp [settle, here]

theorem attempt_find_of_ne {k : Nat} {outcome : ConnectOutcome Handle} {s : Api Handle Func}
    {wsi : Handle} (other : ∀ created, outcome.handle = some created → wsi ≠ created)
    (completed : Int) :
    (settle k (keptHandle k outcome s) completed (afterReport outcome s)).subscriberCallbacks.find
        (some wsi) = s.subscriberCallbacks.find (some wsi) := by
  have differs : some wsi ≠ keptHandle k outcome s := by
    cases outcome with
    | opened created => simpa [keptHandle] using other created rfl
    | failed created reported cleared =>
        have := other created rfl
        simp only [keptHandle]
        split <;> simp [this]
    | refused => simp [keptHandle]
  rw [settle, UnorderedMap.find_assign_of_ne _ _ differs]
  unfold afterReport
  split
  · rename_i created _
    have differs : some wsi ≠ some created := by simpa using other created rfl
    rw [reportEnd, UnorderedMap.find_erase_of_ne _ differs]
  · rfl

theorem afterReport_opened (wsi : Handle) (s : Api Handle Func) :
    afterReport (.opened wsi) s = s := rfl

theorem afterReport_length (outcome : ConnectOutcome Handle) (s : Api Handle Func) :
    (afterReport outcome s).subscribers.length = s.subscribers.length := by
  unfold afterReport
  split <;> simp [reportEnd]

/-! ## What was registered stays registered -/

def registration (subscriber : Subscriber Handle Func) : Bytes × Func :=
  (subscriber.path, subscriber.callbackFunc)

omit [DecidableEq Handle] in
theorem map_registration_modify
    {change : Subscriber Handle Func → Subscriber Handle Func}
    (same : ∀ subscriber, registration (change subscriber) = registration subscriber)
    (subscribers : List (Subscriber Handle Func)) (i : Nat) :
    (subscribers.modify i change).map registration = subscribers.map registration := by
  apply List.ext_getElem?
  intro j
  rw [List.getElem?_map, List.getElem?_map, List.getElem?_modify]
  cases subscribers[j]? with
  | none => rfl
  | some subscriber =>
      by_cases here : i = j
      · simp [here, same]
      · simp [here]

theorem attempt_registrations (k : Nat) (outcome : ConnectOutcome Handle) (completed : Int)
    (s : Api Handle Func) :
    (settle k (keptHandle k outcome s) completed (afterReport outcome s)).subscribers.map
        registration = s.subscribers.map registration := by
  rw [settle, map_registration_modify (by intro subscriber; rfl)]
  unfold afterReport
  split
  · exact map_registration_modify (by intro subscriber; rfl) _ _
  · rfl

/-! ## Positions and indices -/

omit [DecidableEq Handle] in
theorem emplaceBack_getElem?_length (path : Bytes) (func : Func) (created : Int)
    (s : Api Handle Func) :
    (emplaceBack path func created s).subscribers[s.subscribers.length]? =
      some ⟨s.subscribers.length, none, path, func, created⟩ := by
  simp [emplaceBack]

omit [DecidableEq Handle] in
theorem emplaceBack_getElem?_of_lt (path : Bytes) (func : Func) (created : Int)
    {s : Api Handle Func} {i : Nat} (earlier : i < s.subscribers.length) :
    (emplaceBack path func created s).subscribers[i]? = s.subscribers[i]? := by
  exact List.getElem?_append_left earlier

omit [DecidableEq Handle] in
theorem initial_wellIndexed : WellIndexed (initial : Api Handle Func) := by
  constructor
  · intro i subscriber found
    simp [initial] at found
  · intro key i found
    simp [initial, UnorderedMap.find_empty] at found

omit [DecidableEq Handle] in
theorem emplaceBack_wellIndexed {s : Api Handle Func} (indexed : WellIndexed s) (path : Bytes)
    (func : Func) (created : Int) : WellIndexed (emplaceBack path func created s) := by
  constructor
  · intro i subscriber found
    rcases Nat.lt_trichotomy i s.subscribers.length with earlier | rfl | beyond
    · rw [emplaceBack_getElem?_of_lt path func created earlier] at found
      exact indexed.index_exact i subscriber found
    · rw [emplaceBack_getElem?_length] at found
      cases found
      rfl
    · have inRange := (List.getElem?_eq_some_iff.mp found).1
      simp only [emplaceBack, List.length_append, List.length_singleton] at inRange
      omega
  · intro key i found
    have inRange := indexed.entry_inRange key i found
    simp only [emplaceBack, List.length_append, List.length_singleton]
    omega

theorem reportEnd_wellIndexed {s : Api Handle Func} (indexed : WellIndexed s) (wsi : Handle) :
    WellIndexed (reportEnd wsi s) := by
  constructor
  · intro i subscriber found
    rw [reportEnd_getElem?] at found
    split at found
    · obtain ⟨before, foundBefore, rfl⟩ := Option.map_eq_some_iff.mp found
      exact indexed.index_exact i before foundBefore
    · exact indexed.index_exact i subscriber found
  · intro key i found
    have inRange : i < s.subscribers.length := by
      by_cases same : key = some wsi
      · subst same
        simp [reportEnd] at found
      · rw [reportEnd, UnorderedMap.find_erase_of_ne _ same] at found
        exact indexed.entry_inRange key i found
    simpa [reportEnd] using inRange

theorem afterReport_wellIndexed {s : Api Handle Func} (indexed : WellIndexed s)
    (outcome : ConnectOutcome Handle) : WellIndexed (afterReport outcome s) := by
  unfold afterReport
  split
  · exact reportEnd_wellIndexed indexed _
  · exact indexed

theorem settle_wellIndexed {s : Api Handle Func} (indexed : WellIndexed s) {k : Nat}
    (inRange : k < s.subscribers.length) (wsi : Option Handle) (completed : Int) :
    WellIndexed (settle k wsi completed s) := by
  constructor
  · intro i subscriber found
    rw [settle_getElem?] at found
    split at found
    · obtain ⟨before, foundBefore, rfl⟩ := Option.map_eq_some_iff.mp found
      exact indexed.index_exact i before foundBefore
    · exact indexed.index_exact i subscriber found
  · intro key i found
    have bound : i < s.subscribers.length := by
      by_cases same : key = wsi
      · subst same
        simp only [settle, UnorderedMap.find_assign_self, Option.some.injEq] at found
        omega
      · rw [settle, UnorderedMap.find_assign_of_ne _ _ same] at found
        exact indexed.entry_inRange key i found
    simpa [settle] using bound

/-! ## Each function is its net effect -/

theorem eventCbImpl_end {reason : Reason}
    (ends : reason = .closed ∨ reason = .clientConnectionError) (input : StringView)
    {wsi : Handle} {s : Api Handle Func}
    (inRange : resolved wsi s < s.subscribers.length) :
    eventCbImpl wsi reason input s = some (reportEnd wsi s, []) := by
  have value : (s.subscriberCallbacks.subscript (some wsi) 0).1 = resolved wsi s :=
    s.subscriberCallbacks.subscript_value (some wsi) 0
  have erased := s.subscriberCallbacks.erase_subscript (some wsi) 0
  have nulled := modifySubscriber_of_lt (s := { s with
    subscriberCallbacks := (s.subscriberCallbacks.subscript (some wsi) 0).2 })
    (fun subscriber => { subscriber with wsi := none }) inRange
  rcases ends with rfl | rfl <;>
    simp only [eventCbImpl, setWsi, value, nulled, erased, reportEnd]

theorem eventCbImpl_receive {wsi : Handle} {i : Nat} {s : Api Handle Func}
    {subscriber : Subscriber Handle Func}
    (mapped : s.subscriberCallbacks.find (some wsi) = some i)
    (found : s.subscribers[i]? = some subscriber) (input : StringView) :
    eventCbImpl wsi .clientReceive input s =
      some (s, [.callbackFunc subscriber.callbackFunc input]) := by
  simp [eventCbImpl, UnorderedMap.subscript_of_find 0 mapped, found]

omit [DecidableEq Handle] in
theorem modify_vacant {k : Nat} {subscribers : List (Subscriber Handle Func)}
    {subscriber : Subscriber Handle Func} (found : subscribers[k]? = some subscriber)
    (vacant : subscriber.wsi = none) :
    subscribers.modify k (fun subscriber => { subscriber with wsi := none }) = subscribers := by
  apply List.ext_getElem?
  intro i
  by_cases here : k = i
  · subst here
    rw [List.getElem?_modify_eq, found]
    cases subscriber
    cases vacant
    rfl
  · rw [List.getElem?_modify_ne _ _ here]

def stored (k : Nat) (wsi : Option Handle) (s : Api Handle Func) : Api Handle Func :=
  { s with subscribers := s.subscribers.modify k fun subscriber => { subscriber with wsi := wsi } }

omit [DecidableEq Handle] in
theorem setWsi_eq_stored {k : Nat} {s : Api Handle Func} (inRange : k < s.subscribers.length)
    (wsi : Option Handle) : setWsi k wsi s = some (stored k wsi s) :=
  modifySubscriber_of_lt _ inRange

omit [DecidableEq Handle] in
theorem stored_stored (k : Nat) (first second : Option Handle) (s : Api Handle Func) :
    stored k second (stored k first s) = stored k second s := by
  simp only [stored, List.modify_modify_eq]
  rfl

/-- The map entry for `wsi` is written only after the call, so a report made
inside it goes wherever the map sends the handle now. -/
theorem reportEnd_stored (k : Nat) (wsi : Handle) (s : Api Handle Func) :
    reportEnd wsi (stored k (some wsi) s) =
      stored k (if resolved wsi s = k then none else some wsi) (reportEnd wsi s) := by
  have same : resolved wsi (stored k (some wsi) s) = resolved wsi s := rfl
  simp only [reportEnd, same]
  by_cases hit : resolved wsi s = k
  · subst hit
    simp only [stored, List.modify_modify_eq, if_true]
    rfl
  · rw [if_neg hit]
    simp only [stored]
    rw [List.modify_modify_ne _ _ _ (Ne.symm hit)]

theorem eventCbImpl_stored (k : Nat) {wsi : Handle} {s : Api Handle Func}
    (inRange : resolved wsi s < s.subscribers.length) :
    eventCbImpl wsi .clientConnectionError (StringView.ofString []) (stored k (some wsi) s) =
      some (stored k (if resolved wsi s = k then none else some wsi) (reportEnd wsi s), []) := by
  have hitInRange : resolved wsi (stored k (some wsi) s) <
      (stored k (some wsi) s).subscribers.length := by
    rw [stored, List.length_modify]
    exact inRange
  rw [eventCbImpl_end (.inr rfl) _ hitInRange, reportEnd_stored]

omit [DecidableEq Handle] in
theorem clear_stored {k : Nat} {s : Api Handle Func} (inRange : k < s.subscribers.length)
    (wsi : Option Handle) (cleared : Bool) :
    (if cleared then setWsi k none (stored k wsi s) else some (stored k wsi s)) =
      some (stored k (if cleared then none else wsi) s) := by
  cases cleared with
  | false => simp
  | true =>
      have stillInRange : k < (stored k wsi s).subscribers.length := by
        rw [stored, List.length_modify]
        exact inRange
      simp only [if_true, setWsi_eq_stored stillInRange, stored_stored]

/-- The connect call leaves subscriber `k` with the kept handle, on top of
whatever a report made inside the call has done. -/
theorem clientConnectViaInfo_eq {k : Nat} {s : Api Handle Func}
    {subscriber : Subscriber Handle Func} (found : s.subscribers[k]? = some subscriber)
    (vacant : subscriber.wsi = none) (outcome : ConnectOutcome Handle)
    (inRange : ∀ wsi, resolved wsi s < s.subscribers.length) :
    clientConnectViaInfo k outcome s =
      some (stored k (keptHandle k outcome s) (afterReport outcome s)) := by
  have kInRange : k < s.subscribers.length := (List.getElem?_eq_some_iff.mp found).1
  cases outcome with
  | opened wsi => exact setWsi_eq_stored kInRange (some wsi)
  | refused =>
      simp only [clientConnectViaInfo, afterReport, keptHandle, stored,
        modify_vacant found vacant]
  | failed wsi reported cleared =>
      cases reported with
      | false =>
          simp only [clientConnectViaInfo, setWsi_eq_stored kInRange, Option.bind_eq_bind,
            Option.bind_some, Bool.false_eq_true, if_false, clear_stored kInRange, afterReport,
            keptHandle, Bool.false_and, Bool.or_false]
      | true =>
          have reportedInRange : k < (reportEnd wsi s).subscribers.length := by
            rw [reportEnd, List.length_modify]
            exact kInRange
          simp only [clientConnectViaInfo, setWsi_eq_stored kInRange, Option.bind_eq_bind,
            Option.bind_some, if_true, eventCbImpl_stored k (inRange wsi), Option.map_some,
            clear_stored reportedInRange, afterReport, keptHandle, Bool.true_and]
          by_cases hit : resolved wsi s = k
          · simp [hit]
          · simp [hit]

/-- Both overloads end in `settle`: the map entry goes under the handle that
is left in `wsi`, which after a failed attempt may be no handle at all. -/
theorem connectEndpointSubscriber_eq {k : Nat} {s : Api Handle Func}
    {subscriber : Subscriber Handle Func} (found : s.subscribers[k]? = some subscriber)
    (vacant : subscriber.wsi = none) (indexed : WellIndexed s)
    (outcome : ConnectOutcome Handle) (completed : Int) :
    connectEndpointSubscriber k outcome completed s =
      some (settle k (keptHandle k outcome s) completed (afterReport outcome s),
        [.clientConnectViaInfo (connectInfo subscriber.path) k]) := by
  have populated : s.subscribers ≠ [] := by
    intro empty
    simp [empty] at found
  have called := clientConnectViaInfo_eq found vacant outcome (resolved_lt indexed populated)
  have inRange : k < (afterReport outcome s).subscribers.length := by
    rw [afterReport_length]
    exact (List.getElem?_eq_some_iff.mp found).1
  obtain ⟨reported, reportedFound⟩ :
      ∃ reported, (afterReport outcome s).subscribers[k]? = some reported :=
    ⟨_, List.getElem?_eq_getElem inRange⟩
  have sameIndex := (afterReport_wellIndexed indexed outcome).index_exact k reported reportedFound
  have connectedFound :
      (stored k (keptHandle k outcome s) (afterReport outcome s)).subscribers[k]? =
        some { reported with wsi := keptHandle k outcome s } := by
    rw [stored, List.getElem?_modify_eq, reportedFound]
    rfl
  simp only [connectEndpointSubscriber, found, called, connectedFound, Option.bind_eq_bind,
    Option.bind_some]
  rw [modifySubscriber_of_lt _ (by simpa [stored] using inRange)]
  simp only [Option.bind_some, stored, List.modify_modify_eq, settle, sameIndex]
  rfl

end Effects

end BinanceNativeApp.Websocket.Subscriptions
