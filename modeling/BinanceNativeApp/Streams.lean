import BinanceNativeApp.Utils
import BinanceNativeApp.Ticker
import BinanceNativeApp.Websocket.Subscriptions

/-!
# The streams of a subscription

`ticker::subscribe` asks for one stream for each symbol, all of them in the
path of a single endpoint and separated by `/`.  The callback turns the `@` of
a stream name into a `/` as well, for the topic.  No stream is lost in either
place: the path can be split again, and the topics of names without a `/`
differ when the names do.
-/

set_option autoImplicit false

namespace BinanceNativeApp.Streams

open BinanceNativeApp.Library.Containers
open BinanceNativeApp.Library.Json
open BinanceNativeApp.Utils
open BinanceNativeApp.Ticker
open BinanceNativeApp.Websocket.Subscriptions

def slash : UInt8 := 47

/-- `fmt::format("{}@{}", ..)`. -/
def streamOf (stream symbol : Bytes) : Bytes := toLower symbol ++ literal "@" ++ stream

def channel (symbols : List Bytes) (stream : Bytes) : Option Bytes := do
  let sub := symbols.map (streamOf stream)
  let channel ← combine sub (literal "/")
  some (literal "/stream?streams=" ++ channel)

def subscribe {Handle Func : Type} [DecidableEq Handle] (symbols : List Bytes) (stream : Bytes)
    (func : Func) (created : Int) (outcome : ConnectOutcome Handle) (completed : Int)
    (s : Api Handle Func) : Option (Api Handle Func × List (Effect Handle Func)) := do
  connectEndpoint (← channel symbols stream) func created outcome completed s

/-- The endpoints `main` subscribes to for the value of `--symbols`. -/
def mainChannels (symbols : Bytes) : Option (List Bytes) :=
  if symbols.length ≠ 0 then do
    let pairs := split symbols 59
    let bookTicker ← channel pairs (literal "bookTicker")
    let aggTrade ← channel pairs (literal "aggTrade")
    some [bookTicker, aggTrade]
  else
    some []

/-! ## Splitting and combining -/

theorem channel_of_ne_nil {symbols : List Bytes} (filled : symbols ≠ []) (stream : Bytes) :
    channel symbols stream =
      some (literal "/stream?streams=" ++ [slash].intercalate (symbols.map (streamOf stream))) := by
  have streams : symbols.map (streamOf stream) ≠ [] := mt List.map_eq_nil_iff.mp filled
  have separator : literal "/" = [slash] := rfl
  have visible : slash ≠ 0 := by decide
  simp only [channel, separator, combine_of_ne_nil streams visible, Option.bind_eq_bind,
    Option.bind_some]

/-- An empty vector never reaches `combine`. -/
theorem mainChannels_defined (symbols : Bytes) :
    ∃ channels, mainChannels symbols = some channels := by
  by_cases given : symbols.length ≠ 0
  · have pairs : split symbols 59 ≠ [] := by
      intro empty
      exact given (List.length_eq_zero_iff.mpr ((split_eq_nil_iff symbols 59).mp empty))
    rw [mainChannels, if_pos given]
    simp only [channel_of_ne_nil pairs]
    exact ⟨_, rfl⟩
  · exact ⟨[], if_neg given⟩

theorem split_combine_inverse {delimiter : UInt8} (visible : delimiter ≠ 0) :
    (∀ s, split s delimiter = [] ↔ s = []) ∧
    (∀ symbols, ∃ channels, mainChannels symbols = some channels) ∧
    (∀ s, ∀ token ∈ split s delimiter, delimiter ∉ token) ∧
    (∀ s, s ≠ [] → ∃ combined, combine (split s delimiter) [delimiter] = some combined ∧
      s = combined ++ lastDelimiter s delimiter) ∧
    (∀ values : List Bytes, values ≠ [] → (∀ value ∈ values, delimiter ∉ value) →
      values.getLast? ≠ some [] → ∃ combined, combine values [delimiter] = some combined ∧
        split combined delimiter = values) := by
  refine ⟨fun s => split_eq_nil_iff s delimiter, mainChannels_defined,
    fun s token member => not_mem_of_mem_split member, ?_, ?_⟩
  · intro s filled
    have tokens : split s delimiter ≠ [] := mt (split_eq_nil_iff s delimiter).mp filled
    exact ⟨_, combine_of_ne_nil tokens visible, intercalate_split filled⟩
  · intro values filled apart last
    exact ⟨_, combine_of_ne_nil filled visible, split_intercalate filled apart last⟩

theorem split_combine_inverse_semicolon :
    ∃ combined, combine (split (literal "ethbtc;ltcbtc;") 59) [59] = some combined ∧
      literal "ethbtc;ltcbtc;" = combined ++ lastDelimiter (literal "ethbtc;ltcbtc;") 59 :=
  (split_combine_inverse (by decide)).2.2.2.1 (literal "ethbtc;ltcbtc;") (by decide)

/-! ## Stream names -/

theorem slash_not_mem_toLower {symbol : Bytes} (plain : slash ∉ symbol) :
    slash ∉ toLower symbol := by
  intro member
  obtain ⟨character, before, lowered⟩ := List.mem_map.mp member
  apply plain
  unfold tolower at lowered
  split at lowered
  · rename_i upper
    obtain ⟨lower, _⟩ := upper
    simp only [slash, UInt8.le_iff_toNat_le, ← UInt8.toNat_inj, UInt8.toNat_add] at *
    simp at *
    omega
  · rwa [← lowered]

theorem slash_not_mem_streamOf {symbol stream : Bytes} (symbolPlain : slash ∉ symbol)
    (streamPlain : slash ∉ stream) : slash ∉ streamOf stream symbol := by
  have lowered := slash_not_mem_toLower symbolPlain
  have at' : slash ∉ literal "@" := by decide
  simp only [streamOf, List.mem_append, not_or]
  exact ⟨⟨lowered, at'⟩, streamPlain⟩

theorem streamOf_ne_nil (symbol stream : Bytes) : streamOf stream symbol ≠ [] := by
  intro empty
  have length := congrArg List.length empty
  simp [streamOf, literal] at length

/-- A `/` in the topic stands for an `@` in the stream name. -/
theorem topicOf_injective {one other : Bytes} (onePlain : slash ∉ one)
    (otherPlain : slash ∉ other) (same : topicOf one = topicOf other) : one = other := by
  induction one generalizing other with
  | nil => exact (List.map_eq_nil_iff.mp same.symm).symm
  | cons first rest ih =>
      cases other with
      | nil => cases same
      | cons first' rest' =>
          simp only [topicOf, List.map_cons, List.cons.injEq] at same
          simp only [List.mem_cons, not_or] at onePlain otherPlain
          have tails := ih onePlain.2 otherPlain.2 same.2
          have heads : first = first' := by
            have head := same.1
            have plain : first ≠ 47 := Ne.symm onePlain.1
            have plain' : first' ≠ 47 := Ne.symm otherPlain.1
            split at head <;> split at head
            · simp_all
            · exact absurd head.symm plain'
            · exact absurd head plain
            · exact head
          rw [heads, tails]

def CarriesStream (reader : Reader) (value : StringView) (streamName : Bytes) : Prop :=
  (reader.parse value.memory).member (literal "stream") = some (.string streamName)

theorem published_topic {reader : Reader} {write : Value → Bytes} {epoch : Int64}
    {value : StringView} {streamName : Bytes} {one : Publication}
    (carried : CarriesStream reader value streamName)
    (ran : subscribeCallback reader write epoch value = .ok [one]) :
    one.topicName = topicOf (cString streamName) := by
  obtain ⟨other, data, found, _, same⟩ := subscribeCallback_eq_ok_iff.mp ran
  rw [carried] at found
  cases found
  cases same
  rfl

theorem not_mem_cString {character : UInt8} {name : Bytes} (absent : character ∉ name) :
    character ∉ cString name :=
  fun member => absent ((List.takeWhile_sublist _).subset member)

structure Published (reader : Reader) (write : Value → Bytes) (names : List Bytes)
    (value : StringView) (streamName : Bytes) (one : Publication) : Prop where
  carried : CarriesStream reader value streamName
  subscribed : streamName ∈ names
  ran : ∃ epoch, subscribeCallback reader write epoch value = .ok [one]

/-- The server is asked for exactly the streams of the symbols, and what it
sends for different ones, as far as the callback reads them, goes to different
topics. -/
theorem subscribe_round_trip {symbols : List Bytes} {stream : Bytes} (filled : symbols ≠ [])
    (symbolsPlain : ∀ symbol ∈ symbols, slash ∉ symbol) (streamPlain : slash ∉ stream) :
    (∃ text, (∀ (Handle Func : Type) [DecidableEq Handle] (func : Func) (created : Int)
          (outcome : ConnectOutcome Handle) (completed : Int) (s : Api Handle Func),
        subscribe symbols stream func created outcome completed s =
          connectEndpoint (literal "/stream?streams=" ++ text) func created outcome completed s) ∧
      split text slash = symbols.map (streamOf stream)) ∧
    (∀ one ∈ symbols.map (streamOf stream), ∀ other ∈ symbols.map (streamOf stream),
      topicOf one = topicOf other → one = other) ∧
    (∀ (reader : Reader) (write : Value → Bytes) (first second : StringView)
        (firstStream secondStream : Bytes) (one other : Publication),
      Published reader write (symbols.map (streamOf stream)) first firstStream one →
      Published reader write (symbols.map (streamOf stream)) second secondStream other →
      one.topicName = other.topicName → cString firstStream = cString secondStream) := by
  have plain : ∀ name ∈ symbols.map (streamOf stream), slash ∉ name := by
    intro name member
    obtain ⟨symbol, known, rfl⟩ := List.mem_map.mp member
    exact slash_not_mem_streamOf (symbolsPlain symbol known) streamPlain
  refine ⟨⟨[slash].intercalate (symbols.map (streamOf stream)), ?_, ?_⟩, ?_, ?_⟩
  · intro Handle Func _ func created outcome completed s
    simp only [subscribe, channel_of_ne_nil filled, Option.bind_eq_bind, Option.bind_some]
  · apply split_intercalate (mt List.map_eq_nil_iff.mp filled) plain
    intro last
    obtain ⟨symbol, _, empty⟩ := List.mem_map.mp (List.mem_of_getLast? last)
    exact streamOf_ne_nil symbol stream empty
  · intro one oneKnown other otherKnown
    exact topicOf_injective (plain one oneKnown) (plain other otherKnown)
  · intro reader write first second firstStream secondStream one other firstOut secondOut same
    obtain ⟨_, firstRan⟩ := firstOut.ran
    obtain ⟨_, secondRan⟩ := secondOut.ran
    rw [published_topic firstOut.carried firstRan,
      published_topic secondOut.carried secondRan] at same
    exact topicOf_injective (not_mem_cString (plain _ firstOut.subscribed))
      (not_mem_cString (plain _ secondOut.subscribed)) same

theorem subscribe_round_trip_ethBtc :
    ∃ text, (∀ (Handle Func : Type) [DecidableEq Handle] (func : Func) (created : Int)
          (outcome : ConnectOutcome Handle) (completed : Int) (s : Api Handle Func),
        subscribe [literal "ETHBTC", [], literal "a@b"] (literal "aggTrade") func created outcome
            completed s =
          connectEndpoint (literal "/stream?streams=" ++ text) func created outcome completed s) ∧
      split text slash =
        [literal "ethbtc@aggTrade", literal "@aggTrade", literal "a@b@aggTrade"] := by
  have streamPlain : slash ∉ literal "aggTrade" := by decide
  exact (subscribe_round_trip (by decide) (by decide) streamPlain).1

/-! ## Names that differ behind a NUL -/

def nulSymbols : List Bytes := [[97, 0, 98], [97, 0, 99]]

def nulText (last : String) : Bytes :=
  literal "\x7b\"stream\":\"a\\u0000" ++ literal last ++
    literal "@aggTrade\",\"data\":\x7b\x7d\x7d"

def nulMessage (last : UInt8) : Value :=
  .object [(literal "stream", .string ([97, 0, last] ++ literal "@aggTrade")),
    (literal "data", .object [])]

def nulReader : Reader :=
  Reader.ofTable [(nulText "b", nulMessage 98), (nulText "c", nulMessage 99)]

theorem nulSymbols_share_topic :
    (∀ symbol ∈ nulSymbols, slash ∉ symbol) ∧
    ∃ firstStream secondStream one other,
      Published nulReader (fun _ => []) (nulSymbols.map (streamOf (literal "aggTrade")))
        (StringView.ofString (nulText "b")) firstStream one ∧
      Published nulReader (fun _ => []) (nulSymbols.map (streamOf (literal "aggTrade")))
        (StringView.ofString (nulText "c")) secondStream other ∧
      one.topicName = other.topicName ∧ firstStream ≠ secondStream := by
  refine ⟨by decide, _, _, _, _, ⟨rfl, by decide, 0, rfl⟩, ⟨rfl, by decide, 0, rfl⟩, rfl,
    by decide⟩

end BinanceNativeApp.Streams
