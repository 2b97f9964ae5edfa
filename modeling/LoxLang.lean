import LoxLang.Main
import LoxLang.Proofs.Budgets.Sessions
import LoxLang.Proofs.Calls.Progress
import LoxLang.Proofs.Decimals.Texts
import LoxLang.Proofs.Frames.HostFunctions
import LoxLang.Proofs.Frames.Initializers
import LoxLang.Proofs.Layout.Sessions
import LoxLang.Proofs.Lookups.Sessions
import LoxLang.Proofs.Loops.Sessions
import LoxLang.Proofs.Numbers.Sessions
import LoxLang.Proofs.Output.Truncation
import LoxLang.Proofs.Recovery.Endings
import LoxLang.Proofs.Recovery.Words
import LoxLang.Proofs.Renaming.Programs
import LoxLang.Proofs.Safety.Sessions
import LoxLang.Proofs.Scanning.Lines
import LoxLang.Proofs.Scanning.LongestMatch
import LoxLang.Proofs.Scanning.Rescanning
import LoxLang.Proofs.Scopes.Sessions
import LoxLang.Proofs.Scoping.Balance
import LoxLang.Proofs.Scoping.Distances
import LoxLang.Proofs.Sessions.Pruning
import LoxLang.Proofs.Splitting.Sessions
import LoxLang.Proofs.Written.Sources
