import Collate.FileTree
import Collate.Main
import Collate.Sink
import Collate.Proofs.FieldRuns
import Collate.Proofs.Lines
import Collate.Proofs.ParsedEntries
import Collate.Proofs.TableRows
import Collate.Proofs.LimitedRoom
import Collate.Proofs.ShownTexts
import Collate.Proofs.Runs
import Collate.Proofs.TextCuts
import Collate.Proofs.KeyOrder
import Collate.Proofs.ColumnSelection
import Collate.Proofs.Rereading
import Collate.Proofs.ArgumentScan
import Collate.Proofs.LogSeparation
import Collate.Proofs.LineBoundaries
import Collate.Proofs.Respacing
import Collate.Proofs.LinewiseText
import Collate.Proofs.ArgumentVerdicts
import Collate.Proofs.LogCounts
import Collate.Proofs.ToldErrors
import Collate.Proofs.EffectiveDirectives
import Collate.Proofs.VerboseRuns
import Collate.Proofs.CharacterFields
import Collate.Proofs.CodePointOrder
