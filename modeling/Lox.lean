import Lox.Main
import Lox.Scope.Forest
import Lox.Proofs.Grammar.BreakingPoint
import Lox.Proofs.Grammar.Blame
import Lox.Proofs.Grammar.MissingSemicolon
import Lox.Proofs.Grammar.Layout
import Lox.Proofs.Token.LongestMatch
import Lox.Proofs.Session.History
import Lox.Proofs.Session.Pieces
import Lox.Proofs.Session.Conversation
import Lox.Proofs.Session.Instrumentation
import Lox.Proofs.Session.Reported
import Lox.Proofs.Evaluation.ForLoop
import Lox.Proofs.Evaluation.Renaming
import Lox.Proofs.Evaluation.Agreement
import Lox.Proofs.Evaluation.ErrorKinds
import Lox.Proofs.Evaluation.LoopControl
import Lox.Proofs.Grammar.Appended
import Lox.Proofs.Grammar.Braces
import Lox.Proofs.Scoping.Forest
import Lox.Proofs.Session.ExpressionText
import Lox.Proofs.Session.PrintedNumber
import Lox.Proofs.Tree.OneLine
import Lox.Proofs.Tree.Outline
import Lox.Proofs.Tree.Walk
