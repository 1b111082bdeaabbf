import BinanceNativeApp.Library.Transition
import BinanceNativeApp.Exchange.Listing
import BinanceNativeApp.Exchange.Refresh

/-!
# Refresh after refresh

One `api` makes call after call of `get_exchange_info`.  `symbols_` is that of
the last document, whatever the earlier ones listed; `currencies_` is shared
by all of them and only grows.
-/

set_option autoImplicit false

namespace BinanceNativeApp.Exchange.ListingRuns

open BinanceNativeApp.Library.Containers
open BinanceNativeApp.Library.Interning
open BinanceNativeApp.Library.Json
open BinanceNativeApp.Library.Transition
open BinanceNativeApp.Rest
open BinanceNativeApp.Exchange.ExchangeInfo
open BinanceNativeApp.Exchange.Documents
open BinanceNativeApp.Exchange.Listing

/-- A run ends where a precondition is broken. -/
def call (reader : Reader) (s : Api) (transfer : Transfer) : Option (Api × List Response) := do
  let outcome ← getExchangeInfo reader transfer s
  let next ← outcome.toOption
  some (next, [])

def exchange (reader : Reader) : System Api Transfer Response where
  init := Api.initial
  allowed _ _ := True
  step := call reader

/-- The call receives a well-typed document, which lists these symbols. -/
structure Received (reader : Reader) (transfer : Transfer) (symbols : List Value) : Prop where
  code : transfer.code = curleOk
  document : ∃ document, reader.read (cString transfer.body) = some document ∧
    WellTyped document ∧ document.member (literal "symbols") = some (.array symbols)

def AssetsShared (s : Tables) (symbols : List Value) : Prop :=
  ∀ name symbolJson symbol otherName otherJson other,
    firstNamed name symbols = some symbolJson → getSymbol name s = some symbol →
    firstNamed otherName symbols = some otherJson → getSymbol otherName s = some other →
      ∀ side otherSide, asset symbolJson side = asset otherJson otherSide ↔
        reference symbol side = reference other otherSide

structure Refreshed (before after : Tables) (symbols : List Value) : Prop where
  listed : Listed after symbols
  interned : CurrenciesInterned after
  shared : AssetsShared after symbols
  kept : CurrenciesExtend before after

theorem assetsShared_of_listed {s : Tables} {symbols : List Value}
    (interned : CurrenciesInterned s) (listed : Listed s symbols) : AssetsShared s symbols := by
  intro name symbolJson symbol otherName otherJson other found bound otherFound otherBound
    side otherSide
  have described : ∀ name symbolJson symbol, firstNamed name symbols = some symbolJson →
      getSymbol name s = some symbol → Describes s symbolJson symbol := by
    intro name symbolJson symbol found bound
    obtain ⟨first, firstBound, describes⟩ := listed.first name symbolJson found
    rw [bound] at firstBound
    rw [Option.some.inj firstBound]
    exact describes
  have injective : Function.Injective Currency.mk := fun _ _ same => Currency.mk.inj same
  exact Pool.pointer_eq_iff injective interned
    ((described name symbolJson symbol found bound).currency side)
    ((described otherName otherJson other otherFound otherBound).currency otherSide)

theorem readExchangeInfo_typed {reader : Reader} {transfer : Transfer} {symbols : List Value}
    (received : Received reader transfer symbols) (s : Tables) :
    readExchangeInfo reader s (StringView.ofString transfer.body) =
      .ok (symbols.foldl listSymbol s) := by
  obtain ⟨document, read, typed, listed⟩ := received.document
  obtain ⟨timezone, hasTimezone⟩ := typed.timezone
  obtain ⟨time, hasTime⟩ := typed.serverTime
  obtain ⟨elements, hasElements, elementsTyped⟩ := typed.symbols
  have same : elements = symbols := by
    rw [listed] at hasElements
    exact (Value.array.inj (Option.some.inj hasElements)).symm
  subst same
  have rounds : elements.foldlM readSymbol s = .ok (elements.foldl listSymbol s) :=
    foldlM_eq_ok (fun s symbolJson member =>
      readSymbol_typed (elementsTyped symbolJson member) s) s
  simp only [readExchangeInfo, Reader.parse_ofString, Reader.parse_of_read read,
    bind_eq_ok_iff, Value.stringAt_eq_ok_iff, Value.uint64At_eq_ok_iff, Value.arrayAt_eq_ok_iff]
  exact ⟨timezone, hasTimezone, time, hasTime, elements, listed, rounds⟩

theorem call_refreshes {reader : Reader} {transfer : Transfer} {symbols : List Value} {s : Api}
    (received : Received reader transfer symbols) (interned : CurrenciesInterned s.tables) :
    ∃ next, call reader s transfer = some (next, []) ∧
      Refreshed s.tables next.tables symbols := by
  obtain ⟨rest, returned⟩ := getExchangeInfo_eq reader transfer s
  rw [if_pos received.code, readExchangeInfo_typed received] at returned
  refine ⟨⟨rest, _⟩, by rw [call, returned]; rfl, ?_⟩
  obtain ⟨internedLast, extended, listed⟩ :=
    listSymbols_spec (s := { s.tables with symbols := UnorderedMap.empty }) interned
      (listed_cleared s.tables) symbols
  exact ⟨listed, internedLast, assetsShared_of_listed internedLast listed, extended⟩

theorem calls_refresh {reader : Reader} {s : Api} {transfers : List Transfer}
    (interned : CurrenciesInterned s.tables)
    (received : ∀ transfer ∈ transfers, ∃ symbols, Received reader transfer symbols) :
    ∃ moves final, Path (exchange reader) s moves final ∧ moves.map Move.label = transfers ∧
      ∀ move ∈ moves, ∃ symbols, Received reader move.label symbols ∧
        Refreshed move.before.tables move.after.tables symbols := by
  induction transfers generalizing s with
  | nil => exact ⟨[], s, Path.nil s, rfl, by simp⟩
  | cons transfer rest ih =>
      obtain ⟨⟨symbols, receivedHere⟩, receivedLater⟩ := List.forall_mem_cons.mp received
      obtain ⟨next, stepped, refreshed⟩ := call_refreshes receivedHere interned
      obtain ⟨moves, final, run, labels, later⟩ := ih refreshed.interned receivedLater
      refine ⟨⟨s, transfer, [], next⟩ :: moves, final, Path.cons trivial stepped run, ?_, ?_⟩
      · rw [List.map_cons, labels]
      · rw [List.forall_mem_cons]
        exact ⟨⟨symbols, receivedHere, refreshed⟩, later⟩

/-- Every call of a sequence leaves the tables of its own document behind. -/
theorem tables_follow_documents (reader : Reader) (transfers : List Transfer)
    (received : ∀ transfer ∈ transfers, ∃ symbols, Received reader transfer symbols) :
    ∃ moves final, Path (exchange reader) Api.initial moves final ∧
      moves.map Move.label = transfers ∧
      ∀ move ∈ moves, ∃ symbols, Received reader move.label symbols ∧
        Refreshed move.before.tables move.after.tables symbols :=
  calls_refresh (Pool.empty_interned Currency.mk) received

def oneSymbolTransfer : Transfer := ⟨[.body oneSymbolText], curleOk⟩

theorem oneSymbol_received :
    Received Refresh.oneSymbolReader oneSymbolTransfer [ethBtc] := by
  have read := Reader.read_ofTable_self oneSymbol [] oneSymbolText_clean
  exact ⟨rfl, oneSymbol,
    by simpa [oneSymbolTransfer, Refresh.oneSymbolReader, Transfer.body, Chunk.bodyContent]
      using read,
    oneSymbol_typed, rfl⟩

theorem tables_follow_documents_twice :
    ∃ moves final, Path (exchange Refresh.oneSymbolReader) Api.initial moves final ∧
      moves.map Move.label = [oneSymbolTransfer, oneSymbolTransfer] ∧
      ∀ move ∈ moves, ∃ symbols, Received Refresh.oneSymbolReader move.label symbols ∧
        Refreshed move.before.tables move.after.tables symbols :=
  tables_follow_documents Refresh.oneSymbolReader [oneSymbolTransfer, oneSymbolTransfer]
    (by
      intro transfer member
      have same : transfer = oneSymbolTransfer := by simpa using member
      rw [same]
      exact ⟨[ethBtc], oneSymbol_received⟩)

/-! ## A name with an escaped NUL -/

def escapedNulText : Bytes :=
  literal "\x7b\"timezone\":\"UTC\",\"serverTime\":1,\"symbols\":[" ++
    literal "\x7b\"symbol\":\"ETH\\u0000BTC\",\"status\":\"TRADING\"," ++
    literal "\"baseAsset\":\"ETH\",\"baseAssetPrecision\":8," ++
    literal "\"quoteAsset\":\"BTC\",\"quoteAssetPrecision\":8," ++
    literal "\"orderTypes\":[],\"filters\":[]\x7d]\x7d"

def escapedNul : Value :=
  .object [(literal "symbol", .string (literal "ETH" ++ 0 :: literal "BTC")),
    (literal "status", .string (literal "TRADING")),
    (literal "baseAsset", .string (literal "ETH")),
    (literal "baseAssetPrecision", .number (.unsigned 8)),
    (literal "quoteAsset", .string (literal "BTC")),
    (literal "quoteAssetPrecision", .number (.unsigned 8)),
    (literal "orderTypes", .array []), (literal "filters", .array [])]

def escapedNulDocument : Value :=
  .object [(literal "timezone", .string (literal "UTC")),
    (literal "serverTime", .number (.unsigned 1)), (literal "symbols", .array [escapedNul])]

def escapedNulReader : Reader := Reader.ofTable [(escapedNulText, escapedNulDocument)]

theorem escapedNul_received :
    Received escapedNulReader ⟨[.body escapedNulText], curleOk⟩ [escapedNul] := by
  have clean : 0 ∉ escapedNulText := by decide +kernel
  have read := Reader.read_ofTable_self escapedNulDocument [] clean
  have typed : WellTypedSymbol escapedNul :=
    ⟨⟨_, rfl⟩, ⟨_, rfl⟩, ⟨_, rfl⟩, ⟨_, rfl⟩, ⟨_, rfl⟩, ⟨_, rfl⟩, ⟨_, rfl, by simp⟩,
      ⟨_, rfl, by simp⟩⟩
  refine ⟨rfl, escapedNulDocument,
    by simpa [escapedNulReader, Transfer.body, Chunk.bodyContent] using read,
    ⟨⟨_, rfl⟩, ⟨_, rfl⟩, [escapedNul], rfl, ?_⟩, rfl⟩
  intro symbolJson member
  rwa [List.mem_singleton.mp member]

/-- `GetString` is taken as a C string, so that the symbol is filed under the
part of its name in front of the NUL. -/
theorem escapedNul_cut :
    Received escapedNulReader ⟨[.body escapedNulText], curleOk⟩ [escapedNul] ∧
      ∃ next, call escapedNulReader Api.initial ⟨[.body escapedNulText], curleOk⟩ =
          some (next, []) ∧
        ¬ ∀ name, (∃ symbol, getSymbol name next.tables = some symbol) ↔
          ∃ symbolJson ∈ [escapedNul],
            symbolJson.member (literal "symbol") = some (.string name) := by
  obtain ⟨next, returned, refreshed⟩ := call_refreshes (s := Api.initial) escapedNul_received
    (Pool.empty_interned Currency.mk)
  refine ⟨escapedNul_received, next, returned, ?_⟩
  intro keys
  have bound := (keys (literal "ETH" ++ 0 :: literal "BTC")).mpr ⟨escapedNul, by simp, rfl⟩
  have filed := (refreshed.listed.keys _).mp bound
  revert filed
  decide +kernel

end BinanceNativeApp.Exchange.ListingRuns
