import Combinatory.Main
import Combinatory.Proofs.Allowance
import Combinatory.Proofs.Composition
import Combinatory.Proofs.Confluence
import Combinatory.Proofs.ExitStatus
import Combinatory.Proofs.Grammar
import Combinatory.Proofs.Lexing
import Combinatory.Proofs.Nesting
import Combinatory.Proofs.SettingsTable
import Combinatory.Proofs.Termination
import Combinatory.Proofs.Trace
import Combinatory.Proofs.TreeMeasures
import Combinatory.Proofs.Unvalidated
import Combinatory.Settings.FileTree
import Combinatory.Tree.Parse
import Combinatory.Value.SelfCheck
