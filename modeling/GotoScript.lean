import GotoScript.Main
import GotoScript.Proofs.Parsing.Programs
import GotoScript.Proofs.Scanning.Tiling
import GotoScript.Proofs.Service.History
import GotoScript.Proofs.Documents.FieldOrder
import GotoScript.Proofs.Language.Routes
import GotoScript.Proofs.Running.ParsedPrograms
import GotoScript.Proofs.Running.Labels
import GotoScript.Proofs.Running.Simulation
import GotoScript.Proofs.Running.DeadLabels
import GotoScript.Proofs.Running.Printing
import GotoScript.Proofs.Running.Sessions
import GotoScript.Proofs.Service.Latest
import GotoScript.Proofs.Language.Errors
import GotoScript.Proofs.Language.TextLiterals
import GotoScript.Proofs.Scanning.Failures
import GotoScript.Proofs.Scanning.Coordinates
import GotoScript.Proofs.Scanning.Readers
import GotoScript.Proofs.Scanning.Conventions
import GotoScript.Proofs.Scanning.Spacing
import GotoScript.Proofs.Language.Spacing
import GotoScript.Proofs.Running.Nesting
import GotoScript.Proofs.Running.ShortCircuit
import GotoScript.Proofs.Running.LooseChains
import GotoScript.Proofs.Language.StatementPlaces
import GotoScript.Proofs.Running.Integers
import GotoScript.Proofs.Language.IntegerLiterals
import GotoScript.Proofs.Service.NumericVersions
import GotoScript.Proofs.Running.Operators
import GotoScript.Proofs.Language.Escapes
import GotoScript.Proofs.Parsing.Steps
import GotoScript.Proofs.Language.Dumps
