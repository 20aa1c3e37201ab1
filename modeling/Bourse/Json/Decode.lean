import Bourse.Json.Number
import Bourse.Json.Reader
import Bourse.Message
import Bourse.Params
import Bourse.Delist
import Bourse.Trade.Basic

/-!
Reading the records of the market from JSON. A record is an object with its fields, or an array of
them in order; amounts must be in the range of their words.
-/

namespace Bourse

def Address.ofJson? (j : Json) : Option Address := j.string?.map Address.mk

def PairId.ofJson? (j : Json) : Option PairId := j.string?.map PairId.mk

def OrderId.ofJson? (j : Json) : Option OrderId := j.string?.map OrderId.mk

/-- The sixteen bytes as numbers. -/
def TradeId.ofJson? (j : Json) : Option TradeId := do
  let items ← j.list?
  if items.length ≠ 16 then none
  return ⟨← items.mapM fun item => (item.unsigned? 8).map UInt8.ofNat⟩

def Rounding.ofJson? (j : Json) : Option Rounding :=
  match j.choice? with
  | some "HalfEven" => some .halfEven
  | some "HalfUp" => some .halfUp
  | _ => none

def Side.ofJson? (j : Json) : Option Side :=
  match j.choice? with
  | some "Buy" => some .buy
  | some "Sell" => some .sell
  | _ => none

def OrderKind.ofJson? (j : Json) : Option OrderKind :=
  match j.choice? with
  | some "Limit" => some .limit
  | _ => none

def TimeInForce.ofJson? (j : Json) : Option TimeInForce :=
  match j.choice? with
  | some "GoodTillExpire" => some .goodTillExpire
  | some "ImmediateOrCancel" => some .immediateOrCancel
  | _ => none

def OrderStatus.ofJson? (j : Json) : Option OrderStatus :=
  match j.choice? with
  | some "Open" => some .opened
  | some "PartiallyFilled" => some .partiallyFilled
  | some "Filled" => some .filled
  | some "Cancelled" => some .cancelled
  | some "Expired" => some .expired
  | _ => none

def Coin.ofJson? (j : Json) : Option Coin := do
  match ← j.fields? ["denom", "amount"] with
  | [denom, amount] => return { denom := ← denom.string?, amount := ← amount.word? }
  | _ => none

def Holding.ofJson? (j : Json) : Option Holding := do
  match ← j.fields? ["available", "frozen"] with
  | [available, frozen] => return { available := ← available.word?, frozen := ← frozen.word? }
  | _ => none

def DelistRequest.ofJson? (j : Json) : Option DelistRequest := do
  match ← j.fields? ["effective_time", "pair"] with
  | [time, pair] => return { effectiveTime := ← time.signed?, pair := ← PairId.ofJson? pair }
  | _ => none

def Pair.ofJson? (j : Json) : Option Pair := do
  match ← j.fields? ["stock", "money", "creator", "price_precision", "last_executed_price",
      "match_interval", "creation_height"] with
  | [stock, money, creator, precision, lastPrice, interval, height] =>
      return {
        stock := ← stock.string?
        money := ← money.string?
        creator := ← Address.ofJson? creator
        precision := ← precision.unsigned? 8
        lastPrice := ← Decimal.ofJson? lastPrice
        matchInterval := ← interval.word?
        creationHeight := ← height.word? }
  | _ => none

def Order.ofJson? (j : Json) : Option Order := do
  match ← j.fields? ["id", "sender", "sequence", "pair", "side", "kind", "time_in_force", "price",
      "price_precision", "quantity", "remaining_qty", "frozen_fee", "frozen_principal",
      "deal_stock", "deal_money", "height", "status"] with
  | [id, sender, sequence, pair, side, kind, timeInForce, price, precision, quantity, remaining,
      frozenFee, frozenPrincipal, dealStock, dealMoney, height, status] =>
      return {
        id := ← OrderId.ofJson? id
        sender := ← Address.ofJson? sender
        sequence := ← sequence.word?
        pair := ← PairId.ofJson? pair
        side := ← Side.ofJson? side
        kind := ← OrderKind.ofJson? kind
        timeInForce := ← TimeInForce.ofJson? timeInForce
        price := ← price.word?
        precision := ← precision.unsigned? 8
        quantity := ← quantity.word?
        remaining := ← remaining.word?
        frozenFee := ← frozenFee.word?
        frozenPrincipal := ← frozenPrincipal.word?
        dealStock := ← dealStock.word?
        dealMoney := ← dealMoney.word?
        height := ← height.word?
        status := ← OrderStatus.ofJson? status }
  | _ => none

def Trade.ofJson? (j : Json) : Option Trade := do
  match ← j.fields? ["id", "height", "fill_seq", "pair", "maker_order_id", "maker",
      "taker_order_id", "taker", "taker_side", "price", "quantity", "money_amount", "maker_fee",
      "taker_fee"] with
  | [id, height, fillSeq, pair, makerOrder, maker, takerOrder, taker, takerSide, price, quantity,
      money, makerFee, takerFee] =>
      return {
        id := ← TradeId.ofJson? id
        height := ← height.word?
        fillSeq := ← fillSeq.word?
        pair := ← PairId.ofJson? pair
        makerOrder := ← OrderId.ofJson? makerOrder
        maker := ← Address.ofJson? maker
        takerOrder := ← OrderId.ofJson? takerOrder
        taker := ← Address.ofJson? taker
        takerSide := ← Side.ofJson? takerSide
        price := ← Decimal.ofJson? price
        quantity := ← quantity.word?
        money := ← money.word?
        makerFee := ← makerFee.word?
        takerFee := ← takerFee.word? }
  | _ => none

def Effect.ofJson? (j : Json) : Option Effect := do
  match ← j.tagged? with
  | ("Transfer", data) =>
      match ← data.fields? ["from", "to", "coin"] with
      | [source, target, coin] =>
          return .transfer (← Address.ofJson? source) (← Address.ofJson? target)
            (← Coin.ofJson? coin)
      | _ => none
  | ("Unfreeze", data) =>
      match ← data.fields? ["owner", "coin"] with
      | [owner, coin] => return .unfreeze (← Address.ofJson? owner) (← Coin.ofJson? coin)
      | _ => none
  | _ => none

def CreatePair.ofJson? (j : Json) : Option CreatePair := do
  match ← j.fields? ["stock", "money", "creator", "price_precision"] with
  | [stock, money, creator, precision] =>
      return {
        stock := ← stock.string?
        money := ← money.string?
        creator := ← Address.ofJson? creator
        precision := ← precision.unsigned? 8 }
  | _ => none

def DelistPair.ofJson? (j : Json) : Option DelistPair := do
  match ← j.fields? ["sender", "trading_pair", "effective_time"] with
  | [sender, symbol, time] =>
      return {
        sender := ← Address.ofJson? sender
        symbol := ← symbol.string?
        effectiveTime := ← time.signed? }
  | _ => none

def RaisePrecision.ofJson? (j : Json) : Option RaisePrecision := do
  match ← j.fields? ["sender", "trading_pair", "price_precision"] with
  | [sender, symbol, precision] =>
      return {
        sender := ← Address.ofJson? sender
        symbol := ← symbol.string?
        precision := ← precision.unsigned? 8 }
  | _ => none

def PlaceOrder.ofJson? (j : Json) : Option PlaceOrder := do
  match ← j.fields? ["sender", "sequence", "trading_pair", "order_kind", "price_precision",
      "price", "quantity", "side", "time_in_force"] with
  | [sender, sequence, symbol, kind, precision, price, quantity, side, timeInForce] =>
      return {
        sender := ← Address.ofJson? sender
        sequence := ← sequence.word?
        symbol := ← symbol.string?
        kind := ← OrderKind.ofJson? kind
        precision := ← precision.unsigned? 8
        price := ← price.word?
        quantity := ← quantity.word?
        side := ← Side.ofJson? side
        timeInForce := ← TimeInForce.ofJson? timeInForce }
  | _ => none

def CancelOrder.ofJson? (j : Json) : Option CancelOrder := do
  match ← j.fields? ["sender", "order_id"] with
  | [sender, order] =>
      return { sender := ← Address.ofJson? sender, order := ← OrderId.ofJson? order }
  | _ => none

def Message.ofJson? (j : Json) : Option Message := do
  match ← j.tagged? with
  | ("CreateTradingPair", data) => (CreatePair.ofJson? data).map createPair
  | ("CancelTradingPair", data) => (DelistPair.ofJson? data).map delistPair
  | ("ModifyPricePrecision", data) => (RaisePrecision.ofJson? data).map raisePrecision
  | ("CreateOrder", data) => (PlaceOrder.ofJson? data).map placeOrder
  | ("CancelOrder", data) => (CancelOrder.ofJson? data).map cancelOrder
  | _ => none

def Receipt.ofJson? (j : Json) : Option Receipt := do
  match ← j.fields? ["success", "code", "log"] with
  | [success, code, log] =>
      return { success := ← success.bool?, code := ← code.unsigned? 32, log := ← log.string? }
  | _ => none

namespace Params

def ofJson? (j : Json) : Option Params := do
  match ← j.fields? ["create_market_fee", "fixed_trade_fee", "market_fee_rate",
      "market_fee_rate_precision", "fee_rounding", "min_price_precision", "max_price_precision",
      "market_min_expired_time", "chain_id_version", "default_match_interval", "base_currency",
      "fee_collector"] with
  | [createMarketFee, fixedTradeFee, rate, ratePrecision, rounding, minPrecision, maxPrecision,
      delay, version, interval, baseCurrency, feeCollector] =>
      return {
        createMarketFee := ← createMarketFee.word?
        fixedTradeFee := ← fixedTradeFee.word?
        feeRateNumerator := ← rate.word?
        feeRatePrecision := ← ratePrecision.unsigned? 32
        rounding := ← Rounding.ofJson? rounding
        minPrecision := ← minPrecision.unsigned? 8
        maxPrecision := ← maxPrecision.unsigned? 8
        minDelistDelay := ← delay.signed?
        chainIdVersion := ← version.signed?
        matchInterval := ← interval.word?
        baseCurrency := ← baseCurrency.string?
        feeCollector := ← Address.ofJson? feeCollector }
  | _ => none

/-- The parameter set that a JSON text spells, if it is valid. -/
def ofText (s : String) : Except Fault Params :=
  match (Json.read? s).bind ofJson? with
  | some p => p.check
  | none => .error (.unreadable "no parameter set")

end Params

end Bourse
