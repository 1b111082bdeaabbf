import BinanceNativeApp.Exchange.ListingRuns

/-!
# References that outlive refreshes

A transfer may fail, and a document may come in between that does not list
what the one before it did.  `symbols_` forgets each time; the elements of
`currencies_` that a `symbol` refers to are never erased, so that a copy of it
can be used for as long as there is the api.
-/

set_option autoImplicit false

namespace BinanceNativeApp.Exchange.References

open BinanceNativeApp.Library.Containers
open BinanceNativeApp.Library.Interning
open BinanceNativeApp.Library.Json
open BinanceNativeApp.Library.Transition
open BinanceNativeApp.Rest
open BinanceNativeApp.Exchange.ExchangeInfo
open BinanceNativeApp.Exchange.Documents
open BinanceNativeApp.Exchange.Listing
open BinanceNativeApp.Exchange.ListingRuns

/-- The transfer has failed: no symbol is left, and no currency is touched. -/
structure Cleared (transfer : Transfer) (before after : Tables) : Prop where
  failed : transfer.code ≠ curleOk
  nothing : ∀ name, getSymbol name after = none
  kept : pool after = pool before

theorem received_of_text {reader : Reader} {transfer : Transfer} (code : transfer.code = curleOk)
    (text : ExchangeInfoText reader transfer.body) :
    ∃ symbols, Received reader transfer symbols := by
  obtain ⟨document, read, typed⟩ := text
  obtain ⟨symbols, listed, _⟩ := typed.symbols
  exact ⟨symbols, code, document, read, typed, listed⟩

theorem received_unique {reader : Reader} {transfer : Transfer} {symbols others : List Value}
    (received : Received reader transfer symbols) (again : Received reader transfer others) :
    symbols = others := by
  obtain ⟨document, read, _, listed⟩ := received.document
  obtain ⟨other, readOther, _, listedOther⟩ := again.document
  rw [read] at readOther
  rw [← Option.some.inj readOther, listed] at listedOther
  exact Value.array.inj (Option.some.inj listedOther)

theorem call_cases {reader : Reader} {transfer : Transfer} {s next : Api}
    {emitted : List Response} (interned : CurrenciesInterned s.tables)
    (called : call reader s transfer = some (next, emitted)) :
    (∃ symbols, Received reader transfer symbols ∧ Refreshed s.tables next.tables symbols) ∨
      Cleared transfer s.tables next.tables := by
  obtain ⟨rest, returned⟩ := getExchangeInfo_eq reader transfer s
  by_cases code : transfer.code = curleOk
  · rw [if_pos code] at returned
    have text : ExchangeInfoText reader transfer.body := by
      rw [← wellTyped_parse_iff, ← @readExchangeInfo_passes_iff reader
        { s.tables with symbols := UnorderedMap.empty }]
      cases read : readExchangeInfo reader { s.tables with symbols := UnorderedMap.empty }
          (StringView.ofString transfer.body) with
      | ok tables => exact ⟨tables, rfl⟩
      | error violation =>
          rw [call, returned, read] at called
          cases called
    obtain ⟨symbols, received⟩ := received_of_text code text
    obtain ⟨after, calledAgain, refreshed⟩ := call_refreshes received interned
    rw [calledAgain] at called
    obtain ⟨rfl, _⟩ := Prod.mk.inj (Option.some.inj called)
    exact .inl ⟨symbols, received, refreshed⟩
  · rw [if_neg code] at returned
    rw [call, returned] at called
    obtain ⟨rfl, _⟩ := Prod.mk.inj (Option.some.inj called)
    exact .inr ⟨code, fun name => UnorderedMap.find_empty name, rfl⟩

theorem call_undefined_iff {reader : Reader} {transfer : Transfer} {s : Api}
    (interned : CurrenciesInterned s.tables) :
    call reader s transfer = none ↔
      transfer.code = curleOk ∧ ¬ ∃ symbols, Received reader transfer symbols := by
  obtain ⟨rest, returned⟩ := getExchangeInfo_eq reader transfer s
  by_cases code : transfer.code = curleOk
  · by_cases received : ∃ symbols, Received reader transfer symbols
    · obtain ⟨symbols, here⟩ := received
      obtain ⟨next, called, _⟩ := call_refreshes here interned
      rw [called]
      exact iff_of_false (Option.some_ne_none _) fun both => both.2 ⟨symbols, here⟩
    · refine iff_of_true ?_ ⟨code, received⟩
      cases called : call reader s transfer with
      | none => rfl
      | some result =>
          obtain ⟨symbols, here, _⟩ | cleared := call_cases interned called
          · exact absurd ⟨symbols, here⟩ received
          · exact absurd code cleared.failed
  · rw [if_neg code] at returned
    rw [call, returned]
    exact iff_of_false (Option.some_ne_none _) fun both => code both.1

/-! ## Runs -/

section Runs
variable {reader : Reader}

theorem call_extends {transfer : Transfer} {s next : Api} {emitted : List Response}
    (interned : CurrenciesInterned s.tables)
    (called : call reader s transfer = some (next, emitted)) :
    CurrenciesInterned next.tables ∧ CurrenciesExtend s.tables next.tables := by
  obtain ⟨symbols, _, refreshed⟩ | cleared := call_cases interned called
  · exact ⟨refreshed.interned, refreshed.kept⟩
  · rw [CurrenciesInterned, CurrenciesExtend, cleared.kept]
    exact ⟨interned, Pool.extends_refl _⟩

theorem run_extends {s final : Api} {moves : List (Move Api Transfer Response)}
    (run : Path (exchange reader) s moves final) (interned : CurrenciesInterned s.tables) :
    CurrenciesInterned final.tables ∧ CurrenciesExtend s.tables final.tables := by
  induction run with
  | nil state => exact ⟨interned, Pool.extends_refl _⟩
  | cons permitted stepped rest ih =>
      obtain ⟨internedNext, extended⟩ := call_extends interned stepped
      obtain ⟨internedFinal, extendedLater⟩ := ih internedNext
      exact ⟨internedFinal, Pool.extends_trans extended extendedLater⟩

theorem referred {s : Tables} {symbols : List Value} {name : Bytes} {symbol : Symbol}
    (listed : Listed s symbols) (bound : getSymbol name s = some symbol) (side : Side) :
    ∃ symbolJson, firstNamed name symbols = some symbolJson ∧
      s.currencies.find (asset symbolJson side) = some (reference symbol side) := by
  have inside := (listed.keys name).mp ⟨symbol, bound⟩
  cases found : firstNamed name symbols with
  | none => exact absurd inside (firstNamed_none_iff.mp found)
  | some symbolJson =>
      obtain ⟨first, firstBound, describes⟩ := listed.first name symbolJson found
      rw [bound] at firstBound
      rw [Option.some.inj firstBound]
      exact ⟨symbolJson, rfl, describes.currency side⟩

/-- Over every run of calls, whatever each of them meets: the tables are those
of its document, or cleared when the transfer has failed; every reference of
every symbol that was ever listed leads to the currency of that name for the
rest of the run; and the run goes on unless a document of another shape comes. -/
theorem references_outlive_refreshes {moves : List (Move Api Transfer Response)} {final : Api}
    (run : Path (exchange reader) (exchange reader).init moves final) :
    (∀ move ∈ moves,
      (∃ symbols, Received reader move.label symbols ∧
        Refreshed move.before.tables move.after.tables symbols ∧
        ∀ name symbol side, getSymbol name move.after.tables = some symbol →
          ∃ symbolJson, firstNamed name symbols = some symbolJson ∧
            final.tables.currencies.find (asset symbolJson side) = some (reference symbol side) ∧
            final.tables.currencyObjects.read (reference symbol side) =
              some ⟨asset symbolJson side⟩) ∨
      Cleared move.label move.before.tables move.after.tables) ∧
    ∀ transfer, call reader final transfer = none ↔
      transfer.code = curleOk ∧ ¬ ∃ symbols, Received reader transfer symbols := by
  have initial : CurrenciesInterned (exchange reader).init.tables :=
    Pool.empty_interned Currency.mk
  obtain ⟨internedFinal, _⟩ := run_extends run initial
  refine ⟨?_, fun transfer => call_undefined_iff internedFinal⟩
  intro move member
  obtain ⟨earlier, later, rfl⟩ := List.append_of_mem member
  obtain ⟨before, _, called, after⟩ := path_at run
  obtain ⟨interned, _⟩ := run_extends before initial
  obtain ⟨internedAfter, _⟩ := call_extends interned called
  obtain ⟨_, extended⟩ := run_extends after internedAfter
  obtain ⟨symbols, received, refreshed⟩ | cleared := call_cases interned called
  · refine .inl ⟨symbols, received, refreshed, ?_⟩
    intro name symbol side bound
    obtain ⟨symbolJson, first, found⟩ := referred refreshed.listed bound side
    obtain ⟨still, same⟩ := extended _ _ found
    refine ⟨symbolJson, first, still, ?_⟩
    rw [← internedFinal.object _ _ still]
    rfl
  · exact .inr cleared

end Runs

theorem references_outlive_refreshes_lost :
    ∃ (listed final : Api) (symbol : Symbol),
      call Refresh.oneSymbolReader Api.initial oneSymbolTransfer = some (listed, []) ∧
      call Refresh.oneSymbolReader listed ⟨[], 7⟩ = some (final, []) ∧
      getSymbol (literal "ETHBTC") listed.tables = some symbol ∧
      final.tables.currencyObjects.read symbol.base = some ⟨literal "ETH"⟩ := by
  obtain ⟨listed, called, refreshed⟩ := call_refreshes (s := Api.initial) oneSymbol_received
    (Pool.empty_interned Currency.mk)
  obtain ⟨rest, returned⟩ := getExchangeInfo_eq Refresh.oneSymbolReader ⟨[], 7⟩ listed
  rw [if_neg (by decide)] at returned
  have lost : call Refresh.oneSymbolReader listed ⟨[], 7⟩ =
      some (⟨rest, { listed.tables with symbols := UnorderedMap.empty }⟩, []) := by
    rw [call, returned]
    rfl
  have run : Path (exchange Refresh.oneSymbolReader) Api.initial
      [⟨Api.initial, oneSymbolTransfer, [], listed⟩, ⟨listed, ⟨[], 7⟩, [], _⟩] _ :=
    Path.cons trivial called (path_single trivial lost)
  obtain ⟨symbol, bound⟩ := (refreshed.listed.keys (literal "ETHBTC")).mpr (by decide +kernel)
  refine ⟨listed, _, symbol, called, lost, bound, ?_⟩
  obtain ⟨symbols, received, _, references⟩ | cleared :=
    (references_outlive_refreshes run).1 _ List.mem_cons_self
  · obtain rfl := received_unique received oneSymbol_received
    obtain ⟨symbolJson, first, _, read⟩ := references _ symbol .base bound
    have named : nameOf ethBtc = literal "ETHBTC" := by decide +kernel
    have same : firstNamed (literal "ETHBTC") [ethBtc] = some ethBtc := by
      simp [firstNamed, named]
    rw [same] at first
    rw [← Option.some.inj first] at read
    exact read
  · exact absurd rfl cleared.failed

end BinanceNativeApp.Exchange.References
