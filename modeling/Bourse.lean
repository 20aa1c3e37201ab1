import Bourse.Book.Indexed
import Bourse.Json.Decode
import Bourse.Json.Encode
import Bourse.Json.Writer
import Bourse.Market.Basic
import Bourse.Proofs.Accounting
import Bourse.Proofs.Arrival
import Bourse.Proofs.Atomicity
import Bourse.Proofs.Backing
import Bourse.Proofs.BlockEnd
import Bourse.Proofs.Collateral
import Bourse.Proofs.Commutation
import Bourse.Proofs.Completeness
import Bourse.Proofs.Conservation
import Bourse.Proofs.Evolution
import Bourse.Proofs.Holds
import Bourse.Proofs.Identity
import Bourse.Proofs.Index
import Bourse.Proofs.Integrity
import Bourse.Proofs.LifeCycle
import Bourse.Proofs.Lifetime
import Bourse.Proofs.Limits
import Bourse.Proofs.Listing
import Bourse.Proofs.Operations
import Bourse.Proofs.Placement
import Bourse.Proofs.Principal
import Bourse.Proofs.ProRata
import Bourse.Proofs.Refund
import Bourse.Proofs.Rehearsal
import Bourse.Proofs.Requests
import Bourse.Proofs.Standing
import Bourse.Proofs.Sufficiency
import Bourse.Proofs.Sweep
import Bourse.Proofs.Taking
import Bourse.Proofs.TradeRoot
import Bourse.Proofs.Turns
import Bourse.Proofs.Watermark
import Bourse.Proofs.WriteBack
