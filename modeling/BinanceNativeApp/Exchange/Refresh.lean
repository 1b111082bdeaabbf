import BinanceNativeApp.Exchange.Documents

/-!
# A refresh that fails

`symbols_` is cleared before the request is made.  When the request fails,
before the first byte of the response or after any part of it, no symbol is
left, and the currencies are as they were.
-/

set_option autoImplicit false

namespace BinanceNativeApp.Exchange.Refresh

open BinanceNativeApp.Library.Containers
open BinanceNativeApp.Library.Json
open BinanceNativeApp.Rest
open BinanceNativeApp.Exchange.ExchangeInfo
open BinanceNativeApp.Exchange.Documents

structure CurrenciesKept (s next : Api) : Prop where
  currencies : next.tables.currencies = s.tables.currencies
  objects : next.tables.currencyObjects = s.tables.currencyObjects

structure TablesKept (s next : Api) : Prop extends CurrenciesKept s next where
  symbols : ∀ name, getSymbol name next.tables = getSymbol name s.tables

theorem failed_refresh_clears (reader : Reader) {transfer : Transfer} (s : Api)
    (failed : transfer.code ≠ curleOk) :
    ∃ next, getExchangeInfo reader transfer s = some (.ok next) ∧
      (∀ name, getSymbol name next.tables = none) ∧ CurrenciesKept s next ∧
      (TablesKept s next ↔ ∀ name, getSymbol name s.tables = none) := by
  obtain ⟨rest, returned⟩ := getExchangeInfo_eq reader transfer s
  rw [if_neg failed] at returned
  have cleared : ∀ name,
      getSymbol name { s.tables with symbols := UnorderedMap.empty } = none :=
    fun name => UnorderedMap.find_empty name
  refine ⟨_, returned, cleared, ⟨rfl, rfl⟩, ?_⟩
  constructor
  · intro kept name
    rw [← kept.symbols name]
    exact cleared name
  · intro nothing
    exact ⟨⟨rfl, rfl⟩, fun name => (cleared name).trans (nothing name).symm⟩

/-! ## A table that is lost -/

def oneSymbolReader : Reader := Reader.ofTable [(oneSymbolText, oneSymbol)]

def ethBtcSymbol : Symbol := ⟨literal "ETHBTC", 0, 1, OrderTypes.limit, 8, 8⟩

theorem oneSymbol_listed :
    ∃ listed, getExchangeInfo oneSymbolReader ⟨[.body oneSymbolText], curleOk⟩ Api.initial =
        some (.ok listed) ∧
      getSymbol (literal "ETHBTC") listed.tables = some ethBtcSymbol := by
  obtain ⟨rest, returned⟩ := getExchangeInfo_eq oneSymbolReader
    ⟨[.body oneSymbolText], curleOk⟩ Api.initial
  have parsed : oneSymbolReader.parse (StringView.ofString oneSymbolText).memory = oneSymbol := by
    rw [Reader.parse_ofString]
    exact Reader.parse_of_read (Reader.read_ofTable_self oneSymbol [] oneSymbolText_clean)
  have body : Transfer.body ⟨[.body oneSymbolText], curleOk⟩ = oneSymbolText := by
    simp [Transfer.body, Chunk.bodyContent]
  rw [if_pos rfl, body, readExchangeInfo, parsed] at returned
  exact ⟨_, returned, rfl⟩

theorem lostConnection_not_kept :
    ∃ listed, getExchangeInfo oneSymbolReader ⟨[.body oneSymbolText], curleOk⟩ Api.initial =
        some (.ok listed) ∧
      ¬ ∃ next, getExchangeInfo oneSymbolReader ⟨[], 7⟩ listed = some (.ok next) ∧
        TablesKept listed next := by
  obtain ⟨listed, returned, found⟩ := oneSymbol_listed
  refine ⟨listed, returned, ?_⟩
  intro unharmed
  obtain ⟨next, refreshed, kept⟩ := unharmed
  obtain ⟨rest, cleared⟩ := getExchangeInfo_eq oneSymbolReader ⟨[], 7⟩ listed
  rw [refreshed, if_neg (by decide)] at cleared
  have empty := kept.symbols (literal "ETHBTC")
  rw [found, Except.ok.inj (Option.some.inj cleared)] at empty
  cases empty

theorem failed_refresh_clears_cutOff :
    ∃ next, getExchangeInfo oneSymbolReader
        ⟨[.header (literal "HTTP/1.1 200"), .body (literal "\x7b\"timezone\"")], 56⟩
        Api.initial = some (.ok next) ∧
      (∀ name, getSymbol name next.tables = none) ∧ CurrenciesKept Api.initial next ∧
      (TablesKept Api.initial next ↔ ∀ name, getSymbol name Api.initial.tables = none) :=
  failed_refresh_clears oneSymbolReader Api.initial (by decide)

end BinanceNativeApp.Exchange.Refresh
