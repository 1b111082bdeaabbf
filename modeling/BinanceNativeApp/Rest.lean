import BinanceNativeApp.Library.Containers

/-!
# The REST requests of `binance::api`

`restful` keeps one curl handle and sets its options anew for every request,
so that the handle points to the strings of whichever call came last.  The
strings are therefore objects of their own, and `curl_cb` appends through a
pointer.  What libcurl does with a request is its `Transfer`: the header and
body chunks it delivers, in order, and the code `curl_easy_perform` returns.
A function answers `none` where it would write through a pointer that is not
set or dangles.
-/

set_option autoImplicit false

namespace BinanceNativeApp.Rest

open BinanceNativeApp.Library.Containers

/-! ## libcurl -/

/-- The options `restful::api` sets; `writeFunction` says that `curl_cb` is
installed. -/
structure EasyHandle where
  url : Option Bytes
  writeFunction : Bool
  writeData : Option Nat
  headerData : Option Nat
  sslVerifyPeer : Bool
  encoding : Option Bytes
  deriving DecidableEq

def easyInit : EasyHandle where
  url := none
  writeFunction := false
  writeData := none
  headerData := none
  sslVerifyPeer := true
  encoding := none

inductive Chunk where
  | header (content : Bytes)
  | body (content : Bytes)
  deriving DecidableEq

def Chunk.content : Chunk → Bytes
  | .header content => content
  | .body content => content

structure Transfer where
  chunks : List Chunk
  code : Nat
  deriving DecidableEq

def curleOk : Nat := 0

def curlCb (content : Bytes) (buffer : Nat) (strings : Objects Bytes) : Option (Objects Bytes) :=
  strings.modify buffer (· ++ content)

/-- Without a header function the write function receives the headers as well,
with the pointer set for them. -/
def EasyHandle.target (curl : EasyHandle) : Chunk → Option Nat
  | .header _ => curl.headerData
  | .body _ => curl.writeData

def deliver (curl : EasyHandle) (strings : Objects Bytes) (chunk : Chunk) :
    Option (Objects Bytes) :=
  if curl.writeFunction then do
    let buffer ← curl.target chunk
    curlCb chunk.content buffer strings
  else
    none

def easyPerform (curl : EasyHandle) (transfer : Transfer) (strings : Objects Bytes) :
    Option (Nat × Objects Bytes) := do
  let strings ← transfer.chunks.foldlM (deliver curl) strings
  some (transfer.code, strings)

/-! ## `restful` and `api::get` -/

/-- What is sent to the log: that `curl_easy_perform` failed and with which
code, or that `api::get` was unable to get that URL. -/
inductive LogLine where
  | performFailed (code : Nat)
  | unableToGet (url : Bytes)
  deriving DecidableEq

/-- The handle of `restful` and the strings its options may point to. -/
structure Client where
  curl : EasyHandle
  strings : Objects Bytes

def Client.initial : Client := ⟨easyInit, Objects.empty⟩

/-- What a call of `api::get` returns, and the views it hands to `func`. -/
structure Response where
  returned : Bool
  invoked : List StringView
  logged : List LogLine
  deriving DecidableEq

/-- The `curl_easy_setopt` calls of `restful::api`, each of which leaves the
other options as they are. -/
def setOptions (url : Bytes) (strResult headerResult : Nat) (curl : EasyHandle) : EasyHandle :=
  let curl := { curl with url := some (cString url) }
  let curl := { curl with writeFunction := true }
  let curl := { curl with writeData := some strResult }
  let curl := { curl with headerData := some headerResult }
  let curl := { curl with sslVerifyPeer := false }
  { curl with encoding := some (literal "gzip") }

def restfulApi (url : Bytes) (strResult headerResult : Nat) (transfer : Transfer)
    (s : Client) : Option (Bool × List LogLine × Client) := do
  let curl := setOptions url strResult headerResult s.curl
  let (res, strings) ← easyPerform curl transfer s.strings
  if res ≠ curleOk then
    some (false, [.performFailed res], ⟨curl, strings⟩)
  else
    some (decide (res = curleOk), [], ⟨curl, strings⟩)

def restfulGet (url : Bytes) (result headerResult : Nat) (transfer : Transfer) (s : Client) :
    Option (Bool × List LogLine × Client) :=
  restfulApi (literal "https://api.binance.com" ++ url) result headerResult transfer s

def get (url : Bytes) (transfer : Transfer) (s : Client) : Option (Response × Client) := do
  let (strResult, strings) := s.strings.create []
  let (headerResult, strings) := strings.create []
  let (fetched, logged, s) ← restfulGet url strResult headerResult transfer ⟨s.curl, strings⟩
  let left := { s with strings := (s.strings.destroy headerResult).destroy strResult }
  if fetched = false then
    some (⟨false, [], logged ++ [.unableToGet url]⟩, left)
  else
    let message ← s.strings.read strResult
    some (⟨true, [StringView.ofString message], logged⟩, left)

def getWithQuery (url queryString : Bytes) (transfer : Transfer) (s : Client) :
    Option (Response × Client) :=
  get (url ++ queryString) transfer s

def getDepth (symbol : Bytes) (transfer : Transfer) (s : Client) : Option (Response × Client) :=
  getWithQuery (literal "/api/v3/depth?")
    (literal "symbol=" ++ symbol ++ literal "&limit=1000") transfer s

/-! ## What a request hands over -/

def Chunk.bodyContent : Chunk → Bytes
  | .header _ => []
  | .body content => content

def Transfer.body (transfer : Transfer) : Bytes := transfer.chunks.flatMap Chunk.bodyContent

theorem deliver_appends {curl : EasyHandle} (chunk : Chunk) {buffer : Nat}
    {strings : Objects Bytes} {text : Bytes} (installed : curl.writeFunction = true)
    (target : curl.target chunk = some buffer) (alive : strings.read buffer = some text) :
    ∃ next, deliver curl strings chunk = some next ∧
      next.read buffer = some (text ++ chunk.content) ∧
      ∀ other, other ≠ buffer → next.read other = strings.read other := by
  obtain ⟨next, appended, changed, kept⟩ :=
    Objects.modify_of_read (· ++ chunk.content) alive
  refine ⟨next, ?_, changed, kept⟩
  rw [deliver, if_pos installed, target]
  exact appended

theorem deliver_all {curl : EasyHandle} {body header : Nat} {chunks : List Chunk}
    {strings : Objects Bytes} {received headers : Bytes} (installed : curl.writeFunction = true)
    (bodyTarget : curl.writeData = some body) (headerTarget : curl.headerData = some header)
    (apart : body ≠ header) (bodyAlive : strings.read body = some received)
    (headerAlive : strings.read header = some headers) :
    ∃ after, chunks.foldlM (deliver curl) strings = some after ∧
      after.read body = some (received ++ chunks.flatMap Chunk.bodyContent) := by
  induction chunks generalizing strings received headers with
  | nil => exact ⟨strings, rfl, by simpa using bodyAlive⟩
  | cons chunk rest ih =>
      rw [List.foldlM_cons]
      cases chunk with
      | header content =>
          obtain ⟨next, delivered, changed, kept⟩ :=
            deliver_appends (.header content) installed headerTarget headerAlive
          have stays : next.read body = some received := by rw [kept body apart, bodyAlive]
          obtain ⟨after, rest, final⟩ := ih stays changed
          exact ⟨after, by rw [delivered]; exact rest, final⟩
      | body content =>
          obtain ⟨next, delivered, changed, kept⟩ :=
            deliver_appends (.body content) installed bodyTarget bodyAlive
          have stays : next.read header = some headers := by
            rw [kept header apart.symm, headerAlive]
          obtain ⟨after, rest, final⟩ := ih changed stays
          refine ⟨after, by rw [delivered]; exact rest, ?_⟩
          simpa [Chunk.bodyContent, Chunk.content] using final

theorem restfulApi_eq (url : Bytes) {strResult headerResult : Nat} (transfer : Transfer)
    {s : Client} (apart : strResult ≠ headerResult)
    (bodyAlive : s.strings.read strResult = some [])
    (headerAlive : s.strings.read headerResult = some []) :
    ∃ next, next.strings.read strResult = some transfer.body ∧
      restfulApi url strResult headerResult transfer s =
        some (if transfer.code = curleOk then (true, [], next)
          else (false, [.performFailed transfer.code], next)) := by
  obtain ⟨strings, delivered, received⟩ :
      ∃ after, transfer.chunks.foldlM (deliver (setOptions url strResult headerResult s.curl))
        s.strings = some after ∧ after.read strResult = some ([] ++ transfer.body) :=
    deliver_all rfl rfl rfl apart bodyAlive headerAlive
  refine ⟨⟨setOptions url strResult headerResult s.curl, strings⟩, received, ?_⟩
  simp only [restfulApi, easyPerform, delivered]
  by_cases ok : transfer.code = curleOk
  · simp [ok]
  · simp [ok]

/-- `api::get` hands the whole body over when `curl_easy_perform` succeeds,
and nothing when it fails, whatever was delivered until then. -/
theorem get_eq (url : Bytes) (transfer : Transfer) (s : Client) :
    ∃ left, get url transfer s =
      some (if transfer.code = curleOk then
          ⟨true, [StringView.ofString transfer.body], []⟩
        else
          ⟨false, [], [.performFailed transfer.code, .unableToGet url]⟩, left) := by
  have apart : s.strings.next ≠ s.strings.next + 1 := by omega
  have headerAlive := Objects.read_create_self (s.strings.create []).2 ([] : Bytes)
  have bodyAlive := (Objects.read_create_of_ne (s.strings.create []).2 ([] : Bytes) apart).trans
    (Objects.read_create_self s.strings [])
  obtain ⟨next, received, fetched⟩ :
      ∃ next, next.strings.read s.strings.next = some transfer.body ∧
        restfulGet url s.strings.next (s.strings.next + 1) transfer
            ⟨s.curl, ((s.strings.create []).2.create []).2⟩ =
          some (if transfer.code = curleOk then (true, [], next)
            else (false, [.performFailed transfer.code], next)) :=
    restfulApi_eq _ transfer apart bodyAlive headerAlive
  refine ⟨⟨next.curl, (next.strings.destroy (s.strings.next + 1)).destroy s.strings.next⟩, ?_⟩
  by_cases ok : transfer.code = curleOk
  · rw [if_pos ok] at fetched ⊢
    simp only [get, Objects.create] at fetched ⊢
    rw [fetched]
    simp [received]
  · rw [if_neg ok] at fetched ⊢
    simp only [get, Objects.create] at fetched ⊢
    rw [fetched]
    simp

theorem getDepth_eq (symbol : Bytes) (transfer : Transfer) (s : Client) :
    let url := literal "/api/v3/depth?" ++
      (literal "symbol=" ++ symbol ++ literal "&limit=1000")
    ∃ left, getDepth symbol transfer s =
      some (if transfer.code = curleOk then
          ⟨true, [StringView.ofString transfer.body], []⟩
        else
          ⟨false, [], [.performFailed transfer.code, .unableToGet url]⟩, left) :=
  get_eq _ transfer s

end BinanceNativeApp.Rest
