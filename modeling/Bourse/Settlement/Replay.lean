import Bourse.Fault
import Bourse.Trade.Basic

/-!
The guard against settling a fill twice. Fills are numbered within their height, so the keys of all
fills ascend; the guard keeps the last one settled and refuses whatever is not above it.
-/

namespace Bourse

/-- The place of a fill among all fills. -/
structure FillKey where
  height : Nat
  seq : Nat
  deriving DecidableEq, Repr

namespace FillKey

instance : LT FillKey :=
  ⟨fun k l => k.height < l.height ∨ (k.height = l.height ∧ k.seq < l.seq)⟩

instance : LE FillKey := ⟨fun k l => ¬l < k⟩

instance (k l : FillKey) : Decidable (k < l) :=
  inferInstanceAs (Decidable (k.height < l.height ∨ (k.height = l.height ∧ k.seq < l.seq)))

instance (k l : FillKey) : Decidable (k ≤ l) := inferInstanceAs (Decidable (¬l < k))

end FillKey

def Trade.key (t : Trade) : FillKey := ⟨t.height, t.fillSeq⟩

namespace Replay

/-- A fill at or below the watermark was settled. -/
def isSettled (watermark : Option FillKey) (key : FillKey) : Bool :=
  watermark.any fun last => decide (key ≤ last)

/-- The watermark after the trades. Each must bear the name of its fill and lie above the one
before. -/
def check (watermark : Option FillKey) : List Trade → Except Fault (Option FillKey)
  | [] => .ok watermark
  | t :: rest =>
      if t.id ≠ TradeId.ofFill t.height t.fillSeq then
        .error (.corruption s!"trade {t.id.text} does not match fill {t.height}:{t.fillSeq}")
      else if isSettled watermark t.key then
        .error (.corruption s!"trade {t.id.text} at fill {t.height}:{t.fillSeq} already settled")
      else check (some t.key) rest

/-- The higher of two watermarks; none is below all. -/
def advance (watermark next : Option FillKey) : Option FillKey :=
  match watermark, next with
  | some last, some key => if last < key then next else watermark
  | none, _ => next
  | some _, none => watermark

end Replay

end Bourse
