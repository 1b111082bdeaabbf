import BinanceNativeApp.Library.Json
import BinanceNativeApp.Rest

/-!
# `api::get_exchange_info` and the tables it fills

An entry of `currencies_` is an object of its own: symbols refer to it by
reference, and neither a later entry nor a rehash moves it.  `currencies_`
therefore binds a name to the pointer of its element.  A computation that
breaks a precondition of the JSON library ends the process, so that no table is
left to speak of.
-/

set_option autoImplicit false

namespace BinanceNativeApp.Exchange.ExchangeInfo

open BinanceNativeApp.Library.Containers
open BinanceNativeApp.Library.Json
open BinanceNativeApp.Rest

/-! ## Tables -/

/-- `enum order_types : uint32_t`. -/
abbrev OrderTypes : Type := UInt32

namespace OrderTypes

def noTypes : OrderTypes := 0
def limit : OrderTypes := (1 : UInt32) <<< 0
def limitMaker : OrderTypes := (1 : UInt32) <<< 1
def market : OrderTypes := (1 : UInt32) <<< 2
def stopLoss : OrderTypes := (1 : UInt32) <<< 3
def stopLossLimit : OrderTypes := (1 : UInt32) <<< 4
def takeProfit : OrderTypes := (1 : UInt32) <<< 5
def takeProfitLimit : OrderTypes := (1 : UInt32) <<< 6

end OrderTypes

structure Currency where
  name : Bytes
  deriving DecidableEq

/-- `base` and `quote` are references to elements of `currencies_`. -/
structure Symbol where
  name : Bytes
  base : Nat
  quote : Nat
  orderTypes : OrderTypes
  baseAssetPrecision : UInt64
  quoteAssetPrecision : UInt64
  deriving DecidableEq

structure Tables where
  currencies : UnorderedMap Bytes Nat
  currencyObjects : Objects Currency
  symbols : UnorderedMap Bytes Symbol

def getCurrency (name : Bytes) (s : Tables) : Nat × Tables :=
  match s.currencies.find name with
  | some found => (found, s)
  | none =>
      let (element, currencyObjects) := s.currencyObjects.create ⟨name⟩
      (element, { s with
        currencies := s.currencies.assign name element
        currencyObjects := currencyObjects })

def getSymbol (name : Bytes) (s : Tables) : Option Symbol := s.symbols.find name

/-! ## Filling the tables -/

/-- A type that is not known leaves the set as it is. -/
def addOrderType (orderTypes : OrderTypes) (type : Bytes) : OrderTypes :=
  if type = literal "LIMIT" then
    orderTypes ||| OrderTypes.limit
  else if type = literal "LIMIT_MAKER" then
    orderTypes ||| OrderTypes.limitMaker
  else if type = literal "MARKET" then
    orderTypes ||| OrderTypes.market
  else if type = literal "STOP_LOSS" then
    orderTypes ||| OrderTypes.stopLoss
  else if type = literal "STOP_LOSS_LIMIT" then
    orderTypes ||| OrderTypes.stopLossLimit
  else if type = literal "TAKE_PROFIT" then
    orderTypes ||| OrderTypes.takeProfit
  else if type = literal "TAKE_PROFIT_LIMIT" then
    orderTypes ||| OrderTypes.takeProfitLimit
  else
    orderTypes

def readOrderType (orderTypes : OrderTypes) (orderType : Value) : Checked OrderTypes := do
  let type ← orderType.getString
  return addOrderType orderTypes (cString type)

/-- The type of a filter selects among branches that are all empty. -/
def readFilter (_ : Unit) (filter : Value) : Checked Unit := do
  let _type ← filter.stringAt (literal "filterType")
  return ()

def readSymbol (s : Tables) (symbolJson : Value) : Checked Tables := do
  let symbolString ← symbolJson.stringAt (literal "symbol")
  let _status ← symbolJson.stringAt (literal "status")
  let baseAsset ← symbolJson.stringAt (literal "baseAsset")
  let baseAssetPrecision ← symbolJson.uint64At (literal "baseAssetPrecision")
  let quoteAsset ← symbolJson.stringAt (literal "quoteAsset")
  let quoteAssetPrecision ← symbolJson.uint64At (literal "quoteAssetPrecision")
  let (base, s) := getCurrency (cString baseAsset) s
  let (quote, s) := getCurrency (cString quoteAsset) s
  let orderTypes ← (← symbolJson.arrayAt (literal "orderTypes")).foldlM readOrderType
    OrderTypes.noTypes
  (← symbolJson.arrayAt (literal "filters")).foldlM readFilter ()
  -- `emplace` keeps the entry of an earlier symbol of the same name
  let symbol : Symbol := ⟨cString symbolString, base, quote, orderTypes, baseAssetPrecision,
    quoteAssetPrecision⟩
  return { s with symbols := s.symbols.emplace (cString symbolString) symbol }

def readExchangeInfo (reader : Reader) (s : Tables) (value : StringView) : Checked Tables := do
  let jsonResult := reader.parse value.memory
  let _name ← jsonResult.stringAt (literal "timezone")
  let _serverTime ← jsonResult.uint64At (literal "serverTime")
  (← jsonResult.arrayAt (literal "symbols")).foldlM readSymbol s

structure Api where
  rest : Client
  tables : Tables

def Api.initial : Api := ⟨Client.initial, ⟨UnorderedMap.empty, Objects.empty, UnorderedMap.empty⟩⟩

/-- What `get` returns is not looked at. -/
def getExchangeInfo (reader : Reader) (transfer : Transfer) (s : Api) :
    Option (Checked Api) := do
  let tables := { s.tables with symbols := UnorderedMap.empty }
  let (response, rest) ← get (literal "/api/v3/exchangeInfo") transfer s.rest
  some do
    let tables ← response.invoked.foldlM (readExchangeInfo reader) tables
    return ⟨rest, tables⟩

/-- The tables stay behind cleared when the transfer fails. -/
theorem getExchangeInfo_eq (reader : Reader) (transfer : Transfer) (s : Api) :
    ∃ rest, getExchangeInfo reader transfer s =
      some (if transfer.code = curleOk then do
          let tables ← readExchangeInfo reader { s.tables with symbols := UnorderedMap.empty }
            (StringView.ofString transfer.body)
          return ⟨rest, tables⟩
        else
          return ⟨rest, { s.tables with symbols := UnorderedMap.empty }⟩) := by
  obtain ⟨rest, answered⟩ := get_eq (literal "/api/v3/exchangeInfo") transfer s.rest
  refine ⟨rest, ?_⟩
  rw [getExchangeInfo, answered]
  by_cases ok : transfer.code = curleOk
  · simp [ok]
  · simp [ok]

end BinanceNativeApp.Exchange.ExchangeInfo
