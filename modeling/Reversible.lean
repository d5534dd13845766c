import Reversible.Assembly.Listing
import Reversible.Encoding.Word
import Reversible.Machine.View
import Reversible.Proofs.Assembly.RoundTrip
import Reversible.Proofs.Encoding.Image
import Reversible.Proofs.Flattening
import Reversible.Proofs.History
import Reversible.Proofs.Reversal
import Reversible.Puzzle.Json
import Reversible.Proofs.Distinct
import Reversible.Proofs.Encoding.Numbering
import Reversible.Proofs.Renaming
import Reversible.Proofs.Encoding.Totality
import Reversible.Proofs.Encoding.Structure
import Reversible.Proofs.Json.Nesting
import Reversible.Proofs.Json.Quoted
import Reversible.Proofs.Json.Number
import Reversible.Proofs.Json.Container
import Reversible.Proofs.Json.State
import Reversible.Proofs.Json.Step
import Reversible.Proofs.Json.Puzzle
import Reversible.Proofs.Footprint
import Reversible.Proofs.Parallel
import Reversible.Proofs.Locality
import Reversible.Proofs.BitBlind
import Reversible.Proofs.Admission
import Reversible.Proofs.Equality
import Reversible.Proofs.Opaque
import Reversible.Proofs.Mirror
import Reversible.Proofs.Typing
import Reversible.Proofs.Encoding.Interning
import Reversible.Proofs.Superposition
import Reversible.Proofs.Commuting
import Reversible.Proofs.Assembly.Concatenation
import Reversible.Proofs.Encoding.Stream
import Reversible.Proofs.Encoding.Bijection
