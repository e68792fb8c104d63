import FuncType.Group.Encoded
import FuncType.Mode
import FuncType.Signature
import FuncType.Json.Codec
import FuncType.Proofs.Nesting
import FuncType.Proofs.Splitting
import FuncType.Proofs.Declarations
import FuncType.Proofs.AcceptedLists
import FuncType.Proofs.AcceptedSignatures
import FuncType.Proofs.NameCuts
import FuncType.Proofs.Rendering
import FuncType.Proofs.RoundTrip
import FuncType.Proofs.FirstReturn
import FuncType.Proofs.Factoring
import FuncType.Proofs.Refusals
import FuncType.Proofs.Attainable
import FuncType.Proofs.TornParameters
import FuncType.Proofs.Rereading
import FuncType.Proofs.LeftOver
import FuncType.Proofs.Modes
import FuncType.Proofs.ListEvents
import FuncType.Proofs.ResultItems
import FuncType.Proofs.SignatureEvents
import FuncType.Proofs.LosslessSplit
import FuncType.Proofs.CheckedScans
import FuncType.Proofs.CheckedReading
import FuncType.Proofs.CleanResults
import FuncType.Proofs.Respacing
import FuncType.Proofs.JoinedLists
import FuncType.Proofs.SharedTypes
import FuncType.Proofs.JsonSpellings
import FuncType.Proofs.JsonConformance
import FuncType.Proofs.JsonFaults
import FuncType.Proofs.ClosingOffset
import FuncType.Proofs.Positions
import FuncType.Proofs.Settings
