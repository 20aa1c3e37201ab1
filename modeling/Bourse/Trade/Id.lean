import Bourse.Digest.Sha256

namespace Bourse

/-- The name of a fill: sixteen bytes. -/
structure TradeId where
  bytes : List UInt8
  deriving DecidableEq, Repr

namespace TradeId

/-- The name of the fill with number `seq` at `height`, the same for everyone who computes it. -/
def ofFill (height seq : Nat) : TradeId :=
  let tag := Digest.textBytes "spotx:trade_id:v1:"
  ⟨(Digest.Sha256.digest (tag ++ Digest.wordBytes height ++ Digest.wordBytes seq)).take 16⟩

def text (id : TradeId) : String := Digest.hex id.bytes

end TradeId

end Bourse
