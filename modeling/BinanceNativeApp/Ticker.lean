import BinanceNativeApp.Library.Json

/-!
# The callback of `ticker::subscribe`

The callback is handed a view of the received message but parses from the
bare pointer, so that it reads on to the first NUL wherever that stands.  It
stamps the `data` of the message with the time of its arrival (`epoch`, in
milliseconds) and publishes it under a topic made from the stream name.
-/

set_option autoImplicit false

namespace BinanceNativeApp.Ticker

open BinanceNativeApp.Library.Containers
open BinanceNativeApp.Library.Json

/-- The arguments of `MQTTClient_publish` that depend on the call. -/
structure Publication where
  topicName : Bytes
  payload : Bytes
  qos : Nat
  retained : Bool
  deriving DecidableEq

def topicOf (streamName : Bytes) : Bytes :=
  streamName.map fun character => if character = 64 then 47 else character

def stamped (data : List (Bytes × Value)) (epoch : Int64) : Value :=
  .object (data ++ [(literal "event_time", Value.ofInt64 epoch)])

def publication (write : Value → Bytes) (streamName : Bytes) (payload : Value) : Publication where
  topicName := topicOf streamName
  payload := cString (write payload)
  qos := 0
  retained := false

def subscribeCallback (reader : Reader) (write : Value → Bytes) (epoch : Int64)
    (value : StringView) : Checked (List Publication) := do
  let jsonResult := reader.parse value.memory
  let stream ← jsonResult.stringAt (literal "stream")
  -- `std::string` takes the characters up to the first NUL
  let streamName := cString stream
  let data ← jsonResult.subscript (literal "data")
  let payload ← data.addMember (literal "event_time") (Value.ofInt64 epoch)
  return [publication write streamName payload]

/-! ## When the callback passes every check -/

theorem subscribeCallback_eq_ok_iff {reader : Reader} {write : Value → Bytes} {epoch : Int64}
    {value : StringView} {published : List Publication} :
    subscribeCallback reader write epoch value = .ok published ↔
      ∃ stream data,
        (reader.parse value.memory).member (literal "stream") = some (.string stream) ∧
        (reader.parse value.memory).member (literal "data") = some (.object data) ∧
        published = [publication write (cString stream) (stamped data epoch)] := by
  simp only [subscribeCallback, bind_eq_ok_iff, pure_eq_ok_iff, Value.subscript_eq_ok_iff,
    Value.stringAt_eq_ok_iff, Value.addMember_eq_ok_iff]
  constructor
  · intro ran
    obtain ⟨stream, named, _, found, _, ⟨data, rfl, rfl⟩, rfl⟩ := ran
    exact ⟨stream, data, named, found, rfl⟩
  · intro members
    obtain ⟨stream, data, named, found, rfl⟩ := members
    exact ⟨stream, named, _, found, _, ⟨data, rfl, rfl⟩, rfl⟩

/-- A JSON object with a string `stream` and an object `data`. -/
def StreamMessage (reader : Reader) (text : Bytes) : Prop :=
  ∃ document stream data, reader.read text = some document ∧
    document.member (literal "stream") = some (.string stream) ∧
    document.member (literal "data") = some (.object data)

/-- The callback has no branch that publishes nothing. -/
theorem subscribeCallback_publishes_one {reader : Reader} {write : Value → Bytes}
    {epoch : Int64} {value : StringView} {published : List Publication}
    (ran : subscribeCallback reader write epoch value = .ok published) :
    ∃ one, published = [one] := by
  obtain ⟨_, _, _, _, same⟩ := subscribeCallback_eq_ok_iff.mp ran
  exact ⟨_, same⟩

theorem subscribeCallback_passes_iff {reader : Reader} {write : Value → Bytes} {epoch : Int64}
    {value : StringView} :
    Passes (subscribeCallback reader write epoch value) ↔
      StreamMessage reader value.dataString := by
  constructor
  · intro passes
    obtain ⟨published, ran⟩ := passes
    obtain ⟨stream, data, named, found, _⟩ := subscribeCallback_eq_ok_iff.mp ran
    have document : reader.parse value.memory ≠ .null := by
      intro null
      rw [null] at named
      cases named
    exact ⟨_, stream, data, Reader.read_of_parse rfl document, named, found⟩
  · intro message
    obtain ⟨document, stream, data, read, named, found⟩ := message
    have parsed := Reader.parse_of_read read
    rw [← parsed] at named found
    exact ⟨_, subscribeCallback_eq_ok_iff.mpr ⟨stream, data, named, found, rfl⟩⟩

theorem streamMessage_published {reader : Reader} {message : Bytes} (write : Value → Bytes)
    (epoch : Int64) (shaped : StreamMessage reader message) :
    ∃ one, subscribeCallback reader write epoch (StringView.ofString message) = .ok [one] := by
  obtain ⟨document, stream, data, read, members⟩ := shaped
  have text : (StringView.ofString message).dataString = message := by
    rw [StringView.dataString_ofString, Reader.cString_of_read read]
  have passes : Passes (subscribeCallback reader write epoch (StringView.ofString message)) := by
    apply subscribeCallback_passes_iff.mpr
    rw [text]
    exact ⟨document, stream, data, read, members⟩
  obtain ⟨published, ran⟩ := passes
  obtain ⟨one, rfl⟩ := subscribeCallback_publishes_one ran
  exact ⟨one, ran⟩

/-- No precondition is broken; a stream message is published once, anything
else not at all. -/
def PublishesStreams (reader : Reader) (write : Value → Bytes) (epoch : Int64)
    (value : StringView) : Prop :=
  ∃ published, subscribeCallback reader write epoch value = .ok published ∧
    (StreamMessage reader value.bytes → ∃ one, published = [one]) ∧
    (¬ StreamMessage reader value.bytes → published = [])

theorem publishesStreams_iff (reader : Reader) (write : Value → Bytes) (epoch : Int64)
    (value : StringView) :
    PublishesStreams reader write epoch value ↔
      StreamMessage reader value.bytes ∧ StreamMessage reader value.dataString := by
  constructor
  · intro publishes
    obtain ⟨published, ran, _, otherwise⟩ := publishes
    refine ⟨?_, subscribeCallback_passes_iff.mp ⟨published, ran⟩⟩
    obtain ⟨one, rfl⟩ := subscribeCallback_publishes_one ran
    by_contra other
    exact absurd (otherwise other) (List.cons_ne_nil _ _)
  · intro both
    obtain ⟨published, ran⟩ := subscribeCallback_passes_iff.mpr both.2
    have one := subscribeCallback_publishes_one ran
    exact ⟨published, ran, fun _ => one, fun other => absurd both.1 other⟩

/-! ## A message the server sends that is no stream message -/

def acknowledgementText : Bytes := literal "\x7b\"result\":null,\"id\":1\x7d"

def acknowledgement : Value :=
  .object [(literal "result", .null), (literal "id", .number (.unsigned 1))]

/-- `operator[]` does not find `stream` in the acknowledgement of a request. -/
theorem acknowledgement_not_survived :
    ¬ PublishesStreams (Reader.ofTable [(acknowledgementText, acknowledgement)]) (fun _ => []) 0
      (StringView.ofString acknowledgementText) := by
  intro publishes
  obtain ⟨published, ran, _⟩ := publishes
  cases ran

/-! ## What a stream message is published as -/

/-- The `duration_cast` of a reading of the system clock, which counts
nanoseconds. -/
def milliseconds (now : Int64) : Int64 := now / 1000000

theorem read_dataString_of_terminated {reader : Reader} {value : StringView} {document : Value}
    (message : reader.read value.bytes = some document) (terminated : value.Terminated) :
    reader.read value.dataString = reader.read value.bytes := by
  rw [StringView.dataString_of_terminated terminated (reader.clean message)]

/-- If what stands behind the message, up to the first NUL, does not change what
is parsed, the message is published; and what is written out holds no NUL for
`strlen` to stop at. -/
theorem stream_message_published_whole (reader : Reader) (write : Value → Bytes) (now : Int64)
    (value : StringView) {members data : List (Bytes × Value)} {stream : Bytes}
    (behind : reader.read value.dataString = reader.read value.bytes)
    (message : reader.read value.bytes = some (.object members))
    (named : members.lookup (literal "stream") = some (.string stream)) (clean : 0 ∉ stream)
    (found : members.lookup (literal "data") = some (.object data))
    (unstamped : data.lookup (literal "event_time") = none)
    (writtenBack : reader.read (write (stamped data (now / 1000000))) =
      some (stamped data (now / 1000000))) :
    ∃ one document,
      subscribeCallback reader write (milliseconds now) value = .ok [one] ∧
      one.topicName = stream.map (fun character => if character = 64 then 47 else character) ∧
      one.payload = write (stamped data (now / 1000000)) ∧
      reader.read one.payload = some document ∧
      document = .object
        (data ++ [(literal "event_time", Value.ofInt64 (now / 1000000))]) ∧
      document.member (literal "event_time") = some (Value.ofInt64 (now / 1000000)) ∧
      ∀ name, name ≠ literal "event_time" → document.member name = data.lookup name := by
  have parsed : reader.parse value.memory = .object members := by
    apply Reader.parse_of_read
    rw [← StringView.dataString, behind, message]
  have ran : subscribeCallback reader write (milliseconds now) value =
      .ok [publication write (cString stream) (stamped data (milliseconds now))] := by
    apply subscribeCallback_eq_ok_iff.mpr
    rw [parsed]
    exact ⟨stream, data, named, found, rfl⟩
  rw [milliseconds] at ran ⊢
  have whole : (publication write (cString stream) (stamped data (now / 1000000))).payload =
      write (stamped data (now / 1000000)) := Reader.cString_of_read writtenBack
  refine ⟨_, _, ran, ?_, whole, (congrArg reader.read whole).trans writtenBack, rfl,
    Value.member_append_self _ unstamped,
    fun name different => Value.member_append_of_ne data _ different⟩
  rw [cString_eq_self clean]
  rfl

def bookTickerText : Bytes :=
  literal "\x7b\"stream\":\"ethbtc@bookTicker\",\"data\":\x7b\"u\":1\x7d\x7d"

def bookTickerStream : Bytes := literal "ethbtc@bookTicker"

def bookTickerData : List (Bytes × Value) := [(literal "u", .number (.unsigned 1))]

def publishedText : Bytes := literal "\x7b\"u\":1,\"event_time\":5\x7d"

def bookTickerMembers : List (Bytes × Value) :=
  [(literal "stream", .string bookTickerStream), (literal "data", .object bookTickerData)]

def bookTickerReader : Reader :=
  Reader.ofTable
    [(bookTickerText, .object bookTickerMembers), (publishedText, stamped bookTickerData 5)]

theorem stream_message_published_whole_bookTicker :
    ∃ one document,
      subscribeCallback bookTickerReader (fun _ => publishedText) (milliseconds 5000000)
        (StringView.ofString bookTickerText) = .ok [one] ∧
      one.topicName = literal "ethbtc/bookTicker" ∧ one.payload = publishedText ∧
      bookTickerReader.read one.payload = some document ∧
      document.member (literal "u") = some (.number (.unsigned 1)) := by
  have message : bookTickerReader.read (StringView.ofString bookTickerText).bytes =
      some (.object bookTickerMembers) := by
    rw [StringView.bytes_ofString]
    rfl
  have behind := read_dataString_of_terminated message (StringView.terminated_ofString _)
  obtain ⟨one, document, ran, topic, payload, read, _, _, kept⟩ :=
    stream_message_published_whole bookTickerReader (fun _ => publishedText) 5000000 _ behind
      message rfl (by decide) rfl rfl rfl
  exact ⟨one, document, ran, topic, payload, read, kept _ (by decide)⟩

/-! ## A message with no NUL behind it -/

def followedView : StringView :=
  ⟨bookTickerText ++ [120, 0], bookTickerText.length, by simp⟩

/-- `Parse` reads on, finds no document and leaves null. -/
theorem followed_not_published :
    bookTickerReader.read followedView.bytes = some (.object bookTickerMembers) ∧
      bookTickerMembers.lookup (literal "stream") = some (.string bookTickerStream) ∧
      0 ∉ bookTickerStream ∧
      bookTickerMembers.lookup (literal "data") = some (.object bookTickerData) ∧
      bookTickerData.lookup (literal "event_time") = none ∧
      bookTickerReader.read publishedText = some (stamped bookTickerData 5) ∧
      ¬ ∃ one, subscribeCallback bookTickerReader (fun _ => publishedText) (milliseconds 5000000)
        followedView = .ok [one] := by
  have bytes : followedView.bytes = bookTickerText := List.take_left' rfl
  refine ⟨by rw [bytes]; rfl, rfl, by decide, rfl, rfl, rfl, ?_⟩
  intro published
  obtain ⟨one, ran⟩ := published
  cases ran

end BinanceNativeApp.Ticker
