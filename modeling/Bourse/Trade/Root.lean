import Bourse.Trade.Basic

/-!
The root of a list of trades: a digest that is equal for equal lists. Texts but the price go in
behind their length; the price goes in as a number, without trailing zeros.
-/

namespace Bourse.Trade

def lengthAndBytes (s : String) : List UInt8 :=
  Digest.wordBytes (Digest.textBytes s).length ++ Digest.textBytes s

def encode (t : Trade) : List UInt8 :=
  t.id.bytes ++ Digest.wordBytes t.height ++ Digest.wordBytes t.fillSeq
    ++ lengthAndBytes t.pair.text
    ++ lengthAndBytes t.makerOrder.text ++ lengthAndBytes t.takerOrder.text
    ++ lengthAndBytes t.maker.text ++ lengthAndBytes t.taker.text
    ++ Digest.textBytes t.price.normalize.text
    ++ Digest.wordBytes t.quantity ++ Digest.wordBytes t.money
    ++ Digest.wordBytes t.makerFee ++ Digest.wordBytes t.takerFee

/-- The bytes that the root of `trades` is the digest of. -/
def rootMessage (trades : List Trade) : List UInt8 :=
  let tag := Digest.textBytes "spotx:trade_root:v1:"
  tag ++ Digest.wordBytes trades.length ++ trades.flatMap encode

def root (trades : List Trade) : List UInt8 := Digest.Sha256.digest (rootMessage trades)

end Bourse.Trade
