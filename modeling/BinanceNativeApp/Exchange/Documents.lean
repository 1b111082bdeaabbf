import BinanceNativeApp.Exchange.ExchangeInfo

/-!
# The documents `get_exchange_info` gets through

Every member is fetched and read without a look at whether it is there and of
the kind that is read.  `WellTyped` says of a document that all of them are; a
response body survives exactly when what `Parse` reads of it is such a
document.
-/

set_option autoImplicit false

namespace BinanceNativeApp.Exchange.Documents

open BinanceNativeApp.Library.Containers
open BinanceNativeApp.Library.Json
open BinanceNativeApp.Rest
open BinanceNativeApp.Exchange.ExchangeInfo

structure WellTypedSymbol (symbolJson : Value) : Prop where
  symbol : ∃ text, symbolJson.member (literal "symbol") = some (.string text)
  status : ∃ text, symbolJson.member (literal "status") = some (.string text)
  baseAsset : ∃ text, symbolJson.member (literal "baseAsset") = some (.string text)
  baseAssetPrecision : ∃ precision,
    symbolJson.member (literal "baseAssetPrecision") = some (.number (.unsigned precision))
  quoteAsset : ∃ text, symbolJson.member (literal "quoteAsset") = some (.string text)
  quoteAssetPrecision : ∃ precision,
    symbolJson.member (literal "quoteAssetPrecision") = some (.number (.unsigned precision))
  orderTypes : ∃ types, symbolJson.member (literal "orderTypes") = some (.array types) ∧
    ∀ orderType ∈ types, ∃ text, orderType = .string text
  filters : ∃ filters, symbolJson.member (literal "filters") = some (.array filters) ∧
    ∀ filter ∈ filters, ∃ text, filter.member (literal "filterType") = some (.string text)

structure WellTyped (document : Value) : Prop where
  timezone : ∃ text, document.member (literal "timezone") = some (.string text)
  serverTime : ∃ time, document.member (literal "serverTime") = some (.number (.unsigned time))
  symbols : ∃ symbols, document.member (literal "symbols") = some (.array symbols) ∧
    ∀ symbolJson ∈ symbols, WellTypedSymbol symbolJson

theorem readOrderType_passes_iff {orderTypes : OrderTypes} {orderType : Value} :
    Passes (readOrderType orderTypes orderType) ↔ ∃ text, orderType = .string text := by
  simp only [readOrderType, passes_bind, Value.getString_eq_ok_iff, passes_pure, and_true]

theorem readFilter_passes_iff {filter : Value} :
    Passes (readFilter () filter) ↔
      ∃ text, filter.member (literal "filterType") = some (.string text) := by
  simp only [readFilter, passes_bind, Value.stringAt_eq_ok_iff, passes_pure, and_true]

theorem orderTypes_pass_iff {types : List Value} {orderTypes : OrderTypes} :
    Passes (types.foldlM readOrderType orderTypes) ↔
      ∀ orderType ∈ types, ∃ text, orderType = .string text :=
  passes_foldlM types orderTypes fun _ _ _ => readOrderType_passes_iff

theorem filters_pass_iff {filters : List Value} :
    Passes (filters.foldlM readFilter ()) ↔
      ∀ filter ∈ filters, ∃ text,
        filter.member (literal "filterType") = some (.string text) :=
  passes_foldlM filters () fun _ _ _ => readFilter_passes_iff

theorem readSymbol_passes_iff {s : Tables} {symbolJson : Value} :
    Passes (readSymbol s symbolJson) ↔ WellTypedSymbol symbolJson := by
  simp only [readSymbol, passes_bind, Value.stringAt_eq_ok_iff, Value.uint64At_eq_ok_iff,
    Value.arrayAt_eq_ok_iff, passes_pure, and_true]
  constructor
  · intro passes
    obtain ⟨symbol, hasSymbol, status, hasStatus, base, hasBase, basePrecision,
        hasBasePrecision, quote, hasQuote, quotePrecision, hasQuotePrecision, types, hasTypes,
        orderTypes, typesRead, filters, hasFilters, _, filtersRead⟩ := passes
    have typed := orderTypes_pass_iff.mp ⟨_, typesRead⟩
    have filtered := filters_pass_iff.mp ⟨_, filtersRead⟩
    exact ⟨⟨_, hasSymbol⟩, ⟨_, hasStatus⟩, ⟨_, hasBase⟩, ⟨_, hasBasePrecision⟩, ⟨_, hasQuote⟩,
      ⟨_, hasQuotePrecision⟩, ⟨types, hasTypes, typed⟩, ⟨filters, hasFilters, filtered⟩⟩
  · intro typed
    obtain ⟨⟨_, hasSymbol⟩, ⟨_, hasStatus⟩, ⟨_, hasBase⟩, ⟨_, hasBasePrecision⟩,
        ⟨_, hasQuote⟩, ⟨_, hasQuotePrecision⟩, ⟨types, hasTypes, typed⟩,
        ⟨filters, hasFilters, filtered⟩⟩ := typed
    obtain ⟨orderTypes, typesRead⟩ := orderTypes_pass_iff.mpr typed
    obtain ⟨done, filtersRead⟩ := filters_pass_iff.mpr filtered
    exact ⟨_, hasSymbol, _, hasStatus, _, hasBase, _, hasBasePrecision, _, hasQuote, _,
      hasQuotePrecision, types, hasTypes, orderTypes, typesRead, filters, hasFilters, done,
      filtersRead⟩

theorem readExchangeInfo_passes_iff {reader : Reader} {s : Tables} {value : StringView} :
    Passes (readExchangeInfo reader s value) ↔ WellTyped (reader.parse value.memory) := by
  simp only [readExchangeInfo, passes_bind, Value.stringAt_eq_ok_iff, Value.uint64At_eq_ok_iff,
    Value.arrayAt_eq_ok_iff]
  have symbolsPass : ∀ symbols : List Value, Passes (symbols.foldlM readSymbol s) ↔
      ∀ symbolJson ∈ symbols, WellTypedSymbol symbolJson :=
    fun symbols => passes_foldlM symbols s fun _ _ _ => readSymbol_passes_iff
  constructor
  · intro passes
    obtain ⟨timezone, hasTimezone, time, hasTime, symbols, hasSymbols, passes⟩ := passes
    exact ⟨⟨_, hasTimezone⟩, ⟨_, hasTime⟩, symbols, hasSymbols, (symbolsPass symbols).mp passes⟩
  · intro typed
    obtain ⟨⟨_, hasTimezone⟩, ⟨_, hasTime⟩, symbols, hasSymbols, typed⟩ := typed
    exact ⟨_, hasTimezone, _, hasTime, symbols, hasSymbols, (symbolsPass symbols).mpr typed⟩

/-- The text up to its first NUL is a well typed `exchangeInfo` document. -/
def ExchangeInfoText (reader : Reader) (body : Bytes) : Prop :=
  ∃ document, reader.read (cString body) = some document ∧ WellTyped document

theorem wellTyped_parse_iff {reader : Reader} {body : Bytes} :
    WellTyped (reader.parse (StringView.ofString body).memory) ↔
      ExchangeInfoText reader body := by
  rw [Reader.parse_ofString]
  constructor
  · intro typed
    have proper : reader.parse body ≠ .null := by
      intro null
      obtain ⟨_, hasTimezone⟩ := typed.timezone
      rw [null] at hasTimezone
      cases hasTimezone
    exact ⟨_, Reader.read_of_parse rfl proper, typed⟩
  · intro text
    obtain ⟨document, read, typed⟩ := text
    rwa [Reader.parse_of_read read]

/-! ## Responses that survive -/

def Survives (reader : Reader) (transfer : Transfer) (s : Api) : Prop :=
  ∃ outcome, getExchangeInfo reader transfer s = some outcome ∧ Passes outcome

theorem response_survived_iff (reader : Reader) {transfer : Transfer} (s : Api)
    (received : transfer.code = curleOk) :
    Survives reader transfer s ↔ ExchangeInfoText reader transfer.body := by
  obtain ⟨rest, returned⟩ := getExchangeInfo_eq reader transfer s
  rw [if_pos received] at returned
  rw [← wellTyped_parse_iff, ← readExchangeInfo_passes_iff]
  constructor
  · intro survives
    obtain ⟨outcome, same, passes⟩ := survives
    rw [returned] at same
    rw [← Option.some.inj same, passes_bind] at passes
    obtain ⟨tables, read, _⟩ := passes
    exact ⟨tables, read⟩
  · intro read
    obtain ⟨tables, read⟩ := read
    exact ⟨_, returned, passes_bind.mpr ⟨tables, read, passes_pure _⟩⟩

/-! ## A response that is an error object -/

def tooManyRequestsText : Bytes :=
  literal "\x7b\"code\":-1003,\"msg\":\"Too many requests.\"\x7d"

def tooManyRequests : Value :=
  .object [(literal "code", .number (.negative (-1003))),
    (literal "msg", .string (literal "Too many requests."))]

/-- `json_result["timezone"]` is not there. -/
theorem tooManyRequests_not_survived :
    ¬ Survives (Reader.ofTable [(tooManyRequestsText, tooManyRequests)])
      ⟨[.header (literal "HTTP/1.1 429"), .body tooManyRequestsText], 0⟩ Api.initial := by
  intro survives
  obtain ⟨outcome, returned, tables, passed⟩ := survives
  cases returned
  cases passed

def oneSymbolText : Bytes :=
  literal "\x7b\"timezone\":\"UTC\",\"serverTime\":1,\"symbols\":[" ++
    literal "\x7b\"symbol\":\"ETHBTC\",\"status\":\"TRADING\"," ++
    literal "\"baseAsset\":\"ETH\",\"baseAssetPrecision\":8," ++
    literal "\"quoteAsset\":\"BTC\",\"quoteAssetPrecision\":8," ++
    literal "\"orderTypes\":[\"LIMIT\"]," ++
    literal "\"filters\":[\x7b\"filterType\":\"LOT_SIZE\"\x7d]\x7d]\x7d"

def ethBtc : Value :=
  .object [(literal "symbol", .string (literal "ETHBTC")),
    (literal "status", .string (literal "TRADING")),
    (literal "baseAsset", .string (literal "ETH")),
    (literal "baseAssetPrecision", .number (.unsigned 8)),
    (literal "quoteAsset", .string (literal "BTC")),
    (literal "quoteAssetPrecision", .number (.unsigned 8)),
    (literal "orderTypes", .array [.string (literal "LIMIT")]),
    (literal "filters", .array [.object [(literal "filterType", .string (literal "LOT_SIZE"))]])]

def oneSymbol : Value :=
  .object [(literal "timezone", .string (literal "UTC")),
    (literal "serverTime", .number (.unsigned 1)), (literal "symbols", .array [ethBtc])]

theorem oneSymbolText_clean : 0 ∉ oneSymbolText := by decide +kernel

theorem ethBtc_typed : WellTypedSymbol ethBtc :=
  ⟨⟨_, rfl⟩, ⟨_, rfl⟩, ⟨_, rfl⟩, ⟨_, rfl⟩, ⟨_, rfl⟩, ⟨_, rfl⟩,
    ⟨_, rfl, by simp⟩, ⟨_, rfl, by simp [Value.member]⟩⟩

theorem oneSymbol_typed : WellTyped oneSymbol := by
  refine ⟨⟨_, rfl⟩, ⟨_, rfl⟩, [ethBtc], rfl, ?_⟩
  intro symbolJson member
  rw [List.mem_singleton.mp member]
  exact ethBtc_typed

theorem response_survived_iff_oneSymbol :
    Survives (Reader.ofTable [(oneSymbolText, oneSymbol)])
      ⟨[.header (literal "HTTP/1.1 200"), .body oneSymbolText], 0⟩ Api.initial := by
  apply (response_survived_iff _ Api.initial rfl).mpr
  have read := Reader.read_ofTable_self oneSymbol [] oneSymbolText_clean
  exact ⟨oneSymbol, by simpa [Transfer.body, Chunk.bodyContent] using read, oneSymbol_typed⟩

end BinanceNativeApp.Exchange.Documents
