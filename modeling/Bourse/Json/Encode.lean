import Bourse.Delist
import Bourse.Json.Value
import Bourse.Message
import Bourse.Params
import Bourse.Trade.Basic

/-! Writing the records of the market as JSON objects. -/

namespace Bourse

open Json (object ofNat ofString)

def Decimal.toJson (x : Decimal) : Json := ofString x.text

def Rounding.toJson : Rounding → Json
  | halfEven => ofString "HalfEven"
  | halfUp => ofString "HalfUp"

def Side.toJson : Side → Json
  | buy => ofString "Buy"
  | sell => ofString "Sell"

def OrderKind.toJson : OrderKind → Json
  | limit => ofString "Limit"

def TimeInForce.toJson : TimeInForce → Json
  | goodTillExpire => ofString "GoodTillExpire"
  | immediateOrCancel => ofString "ImmediateOrCancel"

def OrderStatus.toJson : OrderStatus → Json
  | opened => ofString "Open"
  | partiallyFilled => ofString "PartiallyFilled"
  | filled => ofString "Filled"
  | cancelled => ofString "Cancelled"
  | expired => ofString "Expired"

def Coin.toJson (c : Coin) : Json :=
  object [("denom", ofString c.denom), ("amount", ofNat c.amount)]

def Holding.toJson (h : Holding) : Json :=
  object [("available", ofNat h.available), ("frozen", ofNat h.frozen)]

def DelistRequest.toJson (r : DelistRequest) : Json :=
  object [("effective_time", .integer r.effectiveTime), ("pair", ofString r.pair.text)]

def Pair.toJson (p : Pair) : Json :=
  object [
    ("stock", ofString p.stock),
    ("money", ofString p.money),
    ("creator", ofString p.creator.text),
    ("price_precision", ofNat p.precision),
    ("last_executed_price", p.lastPrice.toJson),
    ("match_interval", ofNat p.matchInterval),
    ("creation_height", ofNat p.creationHeight)]

def Order.toJson (o : Order) : Json :=
  object [
    ("id", ofString o.id.text),
    ("sender", ofString o.sender.text),
    ("sequence", ofNat o.sequence),
    ("pair", ofString o.pair.text),
    ("side", o.side.toJson),
    ("kind", o.kind.toJson),
    ("time_in_force", o.timeInForce.toJson),
    ("price", ofNat o.price),
    ("price_precision", ofNat o.precision),
    ("quantity", ofNat o.quantity),
    ("remaining_qty", ofNat o.remaining),
    ("frozen_fee", ofNat o.frozenFee),
    ("frozen_principal", ofNat o.frozenPrincipal),
    ("deal_stock", ofNat o.dealStock),
    ("deal_money", ofNat o.dealMoney),
    ("height", ofNat o.height),
    ("status", o.status.toJson)]

/-- The bytes as numbers. -/
def TradeId.toJson (id : TradeId) : Json := .list (id.bytes.map fun b => ofNat b.toNat)

/-- A trade, with its name written as `id`. -/
def Trade.toJsonWith (id : Json) (t : Trade) : Json :=
  object [
    ("id", id),
    ("height", ofNat t.height),
    ("fill_seq", ofNat t.fillSeq),
    ("pair", ofString t.pair.text),
    ("maker_order_id", ofString t.makerOrder.text),
    ("maker", ofString t.maker.text),
    ("taker_order_id", ofString t.takerOrder.text),
    ("taker", ofString t.taker.text),
    ("taker_side", t.takerSide.toJson),
    ("price", t.price.toJson),
    ("quantity", ofNat t.quantity),
    ("money_amount", ofNat t.money),
    ("maker_fee", ofNat t.makerFee),
    ("taker_fee", ofNat t.takerFee)]

def Trade.toJson (t : Trade) : Json := t.toJsonWith t.id.toJson

def Effect.toJson : Effect → Json
  | transfer source target coin =>
      object [("Transfer", object [
        ("from", ofString source.text), ("to", ofString target.text), ("coin", coin.toJson)])]
  | unfreeze owner coin =>
      object [("Unfreeze", object [("owner", ofString owner.text), ("coin", coin.toJson)])]

def CreatePair.toJson (m : CreatePair) : Json :=
  object [
    ("stock", ofString m.stock),
    ("money", ofString m.money),
    ("creator", ofString m.creator.text),
    ("price_precision", ofNat m.precision)]

def DelistPair.toJson (m : DelistPair) : Json :=
  object [
    ("sender", ofString m.sender.text),
    ("trading_pair", ofString m.symbol),
    ("effective_time", .integer m.effectiveTime)]

def RaisePrecision.toJson (m : RaisePrecision) : Json :=
  object [
    ("sender", ofString m.sender.text),
    ("trading_pair", ofString m.symbol),
    ("price_precision", ofNat m.precision)]

def PlaceOrder.toJson (m : PlaceOrder) : Json :=
  object [
    ("sender", ofString m.sender.text),
    ("sequence", ofNat m.sequence),
    ("trading_pair", ofString m.symbol),
    ("order_kind", m.kind.toJson),
    ("price_precision", ofNat m.precision),
    ("price", ofNat m.price),
    ("quantity", ofNat m.quantity),
    ("side", m.side.toJson),
    ("time_in_force", m.timeInForce.toJson)]

def CancelOrder.toJson (m : CancelOrder) : Json :=
  object [("sender", ofString m.sender.text), ("order_id", ofString m.order.text)]

def Message.toJson : Message → Json
  | createPair m => object [("CreateTradingPair", m.toJson)]
  | delistPair m => object [("CancelTradingPair", m.toJson)]
  | raisePrecision m => object [("ModifyPricePrecision", m.toJson)]
  | placeOrder m => object [("CreateOrder", m.toJson)]
  | cancelOrder m => object [("CancelOrder", m.toJson)]

def Receipt.toJson (r : Receipt) : Json :=
  object [("success", .bool r.success), ("code", ofNat r.code), ("log", ofString r.log)]

def Params.toJson (p : Params) : Json :=
  object [
    ("create_market_fee", ofNat p.createMarketFee),
    ("fixed_trade_fee", ofNat p.fixedTradeFee),
    ("market_fee_rate", ofNat p.feeRateNumerator),
    ("market_fee_rate_precision", ofNat p.feeRatePrecision),
    ("fee_rounding", p.rounding.toJson),
    ("min_price_precision", ofNat p.minPrecision),
    ("max_price_precision", ofNat p.maxPrecision),
    ("market_min_expired_time", .integer p.minDelistDelay),
    ("chain_id_version", .integer p.chainIdVersion),
    ("default_match_interval", ofNat p.matchInterval),
    ("base_currency", ofString p.baseCurrency),
    ("fee_collector", ofString p.feeCollector.text)]

end Bourse
