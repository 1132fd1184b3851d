import Invoicing.Document.Json
import Invoicing.Json.Printer
import Invoicing.Json.Reader
import Invoicing.Proofs.Document.Agreement
import Invoicing.Proofs.Formula.Parsing
import Invoicing.Proofs.Formula.Substitution
import Invoicing.Proofs.Template.Locality
import Invoicing.Proofs.Template.Reordering
import Invoicing.Service.Routes
import Invoicing.Proofs.Template.Stability
import Invoicing.Proofs.Document.Range
import Invoicing.Proofs.Decimal.HalfAway
import Invoicing.Proofs.Money.HalfCents
import Invoicing.Proofs.Line.ByHand
import Invoicing.Proofs.Decimal.Text
import Invoicing.Proofs.Json.Reading
import Invoicing.Proofs.Json.Record
import Invoicing.Proofs.Json.Text
import Invoicing.Proofs.Line.Json
import Invoicing.Proofs.Document.Json
import Invoicing.Proofs.Document.Parts
import Invoicing.Proofs.Formula.Occurrences
import Invoicing.Proofs.Formula.References
import Invoicing.Proofs.Formula.Words
import Invoicing.Proofs.Template.Repetition
import Invoicing.Proofs.Formula.MissingValue
import Invoicing.Proofs.Formula.Renaming
import Invoicing.Proofs.Precedence.Renaming
import Invoicing.Proofs.Template.Renaming
import Invoicing.Proofs.Formula.Coverage
import Invoicing.Proofs.Formula.Vocabulary
import Invoicing.Proofs.Precedence.Restriction
import Invoicing.Proofs.Precedence.Sequence
import Invoicing.Proofs.Template.Sequence
import Invoicing.Proofs.Precedence.Rounds
import Invoicing.Proofs.Template.Cycle
import Invoicing.Proofs.Decimal.Normal
import Invoicing.Proofs.Formula.Numeral
import Invoicing.Proofs.Money.Written
import Invoicing.Proofs.Line.Accounts
import Invoicing.Proofs.Line.Supply
import Invoicing.Proofs.Decimal.Lossless
import Invoicing.Proofs.Decimal.Sign
import Invoicing.Proofs.Document.RoundOff
import Invoicing.Proofs.Line.Signs
import Invoicing.Proofs.Document.LineOrder
import Invoicing.Proofs.Template.Frame
import Invoicing.Proofs.Formula.Continuation
import Invoicing.Proofs.Formula.Omission
import Invoicing.Proofs.Precedence.Extension
import Invoicing.Proofs.Template.Extension
import Invoicing.Proofs.Line.Refusal
import Invoicing.Proofs.Document.Refusal
import Invoicing.Proofs.Service.RateLimit
import Invoicing.Proofs.Formula.Spacing
