import BinanceNativeApp.Library.Interning
import BinanceNativeApp.Exchange.Documents

/-!
# What a document lists

What the symbols of a well-typed document make of the tables, one after the
other: the currencies are interned, the order types are collected bit by bit,
and of several symbols with one name the first stays.  A string of the
document is what `GetString` gives, which ends at the first NUL.
-/

set_option autoImplicit false

namespace BinanceNativeApp.Exchange.Listing

open BinanceNativeApp.Library.Containers
open BinanceNativeApp.Library.Interning
open BinanceNativeApp.Library.Json
open BinanceNativeApp.Exchange.ExchangeInfo
open BinanceNativeApp.Exchange.Documents

/-! ## Reading a well-typed symbol -/

def textOf : Value → Bytes
  | .string text => cString text
  | _ => []

def textAt (value : Value) (name : Bytes) : Bytes :=
  match value.member name with
  | some found => textOf found
  | none => []

def textsAt (value : Value) (name : Bytes) : List Bytes :=
  match value.member name with
  | some (.array elements) => elements.map textOf
  | _ => []

def precisionAt (value : Value) (name : Bytes) : UInt64 :=
  match value.member name with
  | some (.number (.unsigned precision)) => precision
  | _ => 0

def nameOf (symbolJson : Value) : Bytes := textAt symbolJson (literal "symbol")

def orderTypesOf (symbolJson : Value) : List Bytes := textsAt symbolJson (literal "orderTypes")

inductive Side where
  | base
  | quote
  deriving DecidableEq

def asset (symbolJson : Value) : Side → Bytes
  | .base => textAt symbolJson (literal "baseAsset")
  | .quote => textAt symbolJson (literal "quoteAsset")

def precision (symbolJson : Value) : Side → UInt64
  | .base => precisionAt symbolJson (literal "baseAssetPrecision")
  | .quote => precisionAt symbolJson (literal "quoteAssetPrecision")

/-- The reference and the precision that a symbol has for an asset. -/
def reference (symbol : Symbol) : Side → Nat
  | .base => symbol.base
  | .quote => symbol.quote

def assetPrecision (symbol : Symbol) : Side → UInt64
  | .base => symbol.baseAssetPrecision
  | .quote => symbol.quoteAssetPrecision

def symbolFor (s : Tables) (symbolJson : Value) : Symbol :=
  ⟨nameOf symbolJson, (getCurrency (asset symbolJson .base) s).1,
    (getCurrency (asset symbolJson .quote) (getCurrency (asset symbolJson .base) s).2).1,
    (orderTypesOf symbolJson).foldl addOrderType OrderTypes.noTypes,
    precision symbolJson .base, precision symbolJson .quote⟩

def listSymbol (s : Tables) (symbolJson : Value) : Tables :=
  let (_, withBase) := getCurrency (asset symbolJson .base) s
  let (_, withAssets) := getCurrency (asset symbolJson .quote) withBase
  { withAssets with
    symbols := withAssets.symbols.emplace (nameOf symbolJson) (symbolFor s symbolJson) }

theorem readOrderTypes_typed {types : List Value} (orderTypes : OrderTypes)
    (typed : ∀ orderType ∈ types, ∃ text, orderType = .string text) :
    types.foldlM readOrderType orderTypes =
      .ok (types.foldl (fun orderTypes type => addOrderType orderTypes (textOf type))
        orderTypes) := by
  apply foldlM_eq_ok
  intro orderTypes orderType member
  obtain ⟨text, rfl⟩ := typed orderType member
  rfl

theorem readSymbol_typed {symbolJson : Value} (typed : WellTypedSymbol symbolJson) (s : Tables) :
    readSymbol s symbolJson = .ok (listSymbol s symbolJson) := by
  obtain ⟨⟨symbol, hasSymbol⟩, ⟨status, hasStatus⟩, ⟨base, hasBase⟩,
    ⟨basePrecision, hasBasePrecision⟩, ⟨quote, hasQuote⟩,
    ⟨quotePrecision, hasQuotePrecision⟩, ⟨types, hasTypes, typed⟩,
    ⟨filters, hasFilters, filtered⟩⟩ := typed
  obtain ⟨_, filtersRead⟩ := filters_pass_iff.mpr filtered
  simp only [readSymbol, bind_eq_ok_iff, pure_eq_ok_iff, Value.stringAt_eq_ok_iff,
    Value.uint64At_eq_ok_iff, Value.arrayAt_eq_ok_iff]
  refine ⟨symbol, hasSymbol, status, hasStatus, base, hasBase, basePrecision, hasBasePrecision,
    quote, hasQuote, quotePrecision, hasQuotePrecision, types, hasTypes, _,
    readOrderTypes_typed _ typed, filters, hasFilters, _, filtersRead, ?_⟩
  simp only [listSymbol, symbolFor, asset, nameOf, orderTypesOf, precision, textAt, textsAt,
    precisionAt, hasSymbol, hasBase, hasBasePrecision, hasQuote, hasQuotePrecision, hasTypes,
    textOf, List.foldl_map]

/-! ## Order types -/

def knownOrderTypes : List (Bytes × OrderTypes) :=
  [(literal "LIMIT", OrderTypes.limit), (literal "LIMIT_MAKER", OrderTypes.limitMaker),
    (literal "MARKET", OrderTypes.market), (literal "STOP_LOSS", OrderTypes.stopLoss),
    (literal "STOP_LOSS_LIMIT", OrderTypes.stopLossLimit),
    (literal "TAKE_PROFIT", OrderTypes.takeProfit),
    (literal "TAKE_PROFIT_LIMIT", OrderTypes.takeProfitLimit)]

def HasBit (orderTypes bit : OrderTypes) : Prop := orderTypes &&& bit ≠ 0

def bitOf (type : Bytes) : OrderTypes := (knownOrderTypes.lookup type).getD 0

theorem addOrderType_eq (orderTypes : OrderTypes) (type : Bytes) :
    addOrderType orderTypes type = orderTypes ||| bitOf type := by
  unfold addOrderType bitOf knownOrderTypes
  simp only [List.lookup_cons, List.lookup_nil]
  repeat' split
  all_goals simp_all

theorem hasBit_or (orderTypes added bit : OrderTypes) :
    HasBit (orderTypes ||| added) bit ↔ HasBit orderTypes bit ∨ HasBit added bit := by
  have spread : (orderTypes ||| added) &&& bit = orderTypes &&& bit ||| added &&& bit := by
    apply UInt32.toBitVec_inj.mp
    ext i
    simp [Bool.and_or_distrib_right]
  rw [HasBit, spread, ne_eq, UInt32.or_eq_zero_iff, not_and_or]
  rfl

theorem bits_distinct :
    ∀ one ∈ knownOrderTypes, ∀ other ∈ knownOrderTypes,
      one.2 &&& other.2 ≠ 0 ↔ one.1 = other.1 := by
  decide

theorem hasBit_bitOf {known : Bytes × OrderTypes} (member : known ∈ knownOrderTypes)
    (type : Bytes) : HasBit (bitOf type) known.2 ↔ known.1 = type := by
  cases found : knownOrderTypes.lookup type with
  | none =>
      have other : known.1 ≠ type := by
        intro same
        have differs := List.lookup_eq_none_iff.mp found known member
        rw [same] at differs
        simp at differs
      simp [HasBit, bitOf, found, other]
  | some bit =>
      obtain ⟨before, after, whole, _⟩ := List.lookup_eq_some_iff.mp found
      have listed : (type, bit) ∈ knownOrderTypes := by
        rw [whole]
        simp
      have distinct := bits_distinct (type, bit) listed known member
      rw [HasBit, bitOf, found, Option.getD_some, distinct]
      exact eq_comm

/-- The order in which the types are listed and how often does not matter, nor
do types that are not known. -/
theorem hasBit_foldl {known : Bytes × OrderTypes} (member : known ∈ knownOrderTypes)
    (types : List Bytes) (orderTypes : OrderTypes) :
    HasBit (types.foldl addOrderType orderTypes) known.2 ↔
      HasBit orderTypes known.2 ∨ known.1 ∈ types := by
  induction types generalizing orderTypes with
  | nil => simp
  | cons type rest ih =>
      rw [List.foldl_cons, ih, addOrderType_eq, hasBit_or, hasBit_bitOf member, List.mem_cons,
        or_assoc]

/-! ## The tables after a symbol -/

def pool (s : Tables) : Pool Bytes Currency := ⟨s.currencies, s.currencyObjects⟩

abbrev CurrenciesInterned (s : Tables) : Prop := Pool.Interned Currency.mk (pool s)

abbrev CurrenciesExtend (s later : Tables) : Prop := Pool.Extends (pool s) (pool later)

theorem getCurrency_spec {s : Tables} (interned : CurrenciesInterned s) (name : Bytes) :
    (getCurrency name s).2.currencies.find name = some (getCurrency name s).1 ∧
      CurrenciesInterned (getCurrency name s).2 ∧ CurrenciesExtend s (getCurrency name s).2 ∧
      (getCurrency name s).2.symbols = s.symbols := by
  have spec := Pool.intern_spec interned name
  have same : (getCurrency name s).1 = (Pool.intern Currency.mk name (pool s)).1 ∧
      pool (getCurrency name s).2 = (Pool.intern Currency.mk name (pool s)).2 ∧
      (getCurrency name s).2.symbols = s.symbols := by
    cases found : s.currencies.find name with
    | some pointer => simp [getCurrency, Pool.intern, pool, found]
    | none => simp [getCurrency, Pool.intern, pool, found]
  obtain ⟨samePointer, samePool, symbols⟩ := same
  rw [← samePointer, ← samePool] at spec
  obtain ⟨found, interned, extended⟩ := spec
  exact ⟨found, interned, extended, symbols⟩

/-- The symbol is what the element of the document says. -/
structure Describes (s : Tables) (symbolJson : Value) (symbol : Symbol) : Prop where
  name : symbol.name = nameOf symbolJson
  currency : ∀ side, s.currencies.find (asset symbolJson side) = some (reference symbol side)
  precision : ∀ side, assetPrecision symbol side = precision symbolJson side
  orderTypes : ∀ known ∈ knownOrderTypes,
    HasBit symbol.orderTypes known.2 ↔ known.1 ∈ orderTypesOf symbolJson

theorem describes_of_extends {s later : Tables} {symbolJson : Value} {symbol : Symbol}
    (describes : Describes s symbolJson symbol) (extended : CurrenciesExtend s later) :
    Describes later symbolJson symbol where
  name := describes.name
  currency := fun side => (extended _ _ (describes.currency side)).1
  precision := describes.precision
  orderTypes := describes.orderTypes

theorem listSymbol_spec {s : Tables} (interned : CurrenciesInterned s) (symbolJson : Value) :
    CurrenciesInterned (listSymbol s symbolJson) ∧
      CurrenciesExtend s (listSymbol s symbolJson) ∧
      Describes (listSymbol s symbolJson) symbolJson (symbolFor s symbolJson) ∧
      (listSymbol s symbolJson).symbols =
        s.symbols.emplace (nameOf symbolJson) (symbolFor s symbolJson) := by
  obtain ⟨baseFound, baseInterned, baseExtended, baseSymbols⟩ :=
    getCurrency_spec interned (asset symbolJson .base)
  obtain ⟨quoteFound, quoteInterned, quoteExtended, quoteSymbols⟩ :=
    getCurrency_spec baseInterned (asset symbolJson .quote)
  refine ⟨quoteInterned, Pool.extends_trans baseExtended quoteExtended,
    ⟨rfl, ?_, ?_, ?_⟩, ?_⟩
  · intro side
    cases side with
    | base => exact (quoteExtended _ _ baseFound).1
    | quote => exact quoteFound
  · intro side
    cases side with
    | base => rfl
    | quote => rfl
  · intro known member
    have none : ¬ HasBit OrderTypes.noTypes known.2 := fun bit => bit UInt32.zero_and
    exact (hasBit_foldl member (orderTypesOf symbolJson) OrderTypes.noTypes).trans
      (or_iff_right none)
  · rw [← baseSymbols, ← quoteSymbols]
    rfl

/-! ## The tables after all symbols -/

def firstNamed (name : Bytes) (symbols : List Value) : Option Value :=
  symbols.find? fun symbolJson => nameOf symbolJson = name

theorem firstNamed_none_iff {name : Bytes} {symbols : List Value} :
    firstNamed name symbols = none ↔ name ∉ symbols.map nameOf := by
  simp [firstNamed]

theorem firstNamed_snoc (name : Bytes) (symbols : List Value) (symbolJson : Value) :
    firstNamed name (symbols ++ [symbolJson]) =
      (firstNamed name symbols).or
        (if nameOf symbolJson = name then some symbolJson else none) := by
  by_cases named : nameOf symbolJson = name
  · simp [firstNamed, List.find?_append, named]
  · simp [firstNamed, List.find?_append, named]

/-- The names of the elements are the keys, each bound to what the first
element with that name says. -/
structure Listed (s : Tables) (symbols : List Value) : Prop where
  keys : ∀ name, (∃ symbol, getSymbol name s = some symbol) ↔ name ∈ symbols.map nameOf
  first : ∀ name symbolJson, firstNamed name symbols = some symbolJson →
    ∃ symbol, getSymbol name s = some symbol ∧ Describes s symbolJson symbol

theorem listed_cleared (s : Tables) : Listed { s with symbols := UnorderedMap.empty } [] := by
  constructor
  · intro name
    simp [getSymbol, UnorderedMap.find_empty]
  · intro name symbolJson found
    cases found

theorem getSymbol_listSymbol {s : Tables} (interned : CurrenciesInterned s) (symbolJson : Value)
    (name : Bytes) :
    getSymbol name (listSymbol s symbolJson) =
      (getSymbol name s).or
        (if nameOf symbolJson = name then some (symbolFor s symbolJson) else none) := by
  obtain ⟨_, _, _, emplaced⟩ := listSymbol_spec interned symbolJson
  rw [getSymbol, emplaced]
  exact UnorderedMap.find_emplace s.symbols _ _ name

/-- A later element with a name that is taken changes neither the entry nor
the currencies it refers to. -/
theorem listed_step {s : Tables} {symbols : List Value} (interned : CurrenciesInterned s)
    (listed : Listed s symbols) (symbolJson : Value) :
    Listed (listSymbol s symbolJson) (symbols ++ [symbolJson]) := by
  obtain ⟨_, extended, describes, _⟩ := listSymbol_spec interned symbolJson
  constructor
  · intro name
    rw [getSymbol_listSymbol interned, List.map_append, List.mem_append, ← listed.keys name,
      List.map_singleton, List.mem_singleton]
    by_cases named : nameOf symbolJson = name
    · cases getSymbol name s <;> simp [named]
    · simp [named, Ne.symm named]
  · intro name element firstFound
    rw [firstNamed_snoc] at firstFound
    rw [getSymbol_listSymbol interned]
    cases earlier : firstNamed name symbols with
    | some first =>
        rw [earlier, Option.some_or] at firstFound
        obtain ⟨symbol, bound, describedFirst⟩ := listed.first name first earlier
        rw [← Option.some.inj firstFound, bound, Option.some_or]
        exact ⟨symbol, rfl, describes_of_extends describedFirst extended⟩
    | none =>
        have unbound : getSymbol name s = none := by
          apply Option.eq_none_iff_forall_ne_some.mpr
          intro symbol bound
          exact firstNamed_none_iff.mp earlier ((listed.keys name).mp ⟨symbol, bound⟩)
        rw [earlier, Option.none_or] at firstFound
        rw [unbound, Option.none_or]
        by_cases named : nameOf symbolJson = name
        · rw [if_pos named] at firstFound ⊢
          rw [← Option.some.inj firstFound]
          exact ⟨_, rfl, describes⟩
        · rw [if_neg named] at firstFound
          cases firstFound

theorem listSymbols_spec {s : Tables} {done : List Value} (interned : CurrenciesInterned s)
    (listed : Listed s done) (symbols : List Value) :
    CurrenciesInterned (symbols.foldl listSymbol s) ∧
      CurrenciesExtend s (symbols.foldl listSymbol s) ∧
      Listed (symbols.foldl listSymbol s) (done ++ symbols) := by
  induction symbols generalizing s done with
  | nil =>
      rw [List.append_nil]
      exact ⟨interned, Pool.extends_refl (pool s), listed⟩
  | cons symbolJson rest ih =>
      obtain ⟨internedNext, extendedNext, _⟩ := listSymbol_spec interned symbolJson
      obtain ⟨internedLast, extendedLast, listedLast⟩ :=
        ih internedNext (listed_step interned listed symbolJson)
      rw [List.append_assoc] at listedLast
      exact ⟨internedLast, Pool.extends_trans extendedNext extendedLast, listedLast⟩

end BinanceNativeApp.Exchange.Listing
