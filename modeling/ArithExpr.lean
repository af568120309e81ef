import ArithExpr.Files.FileTree
import ArithExpr.Main
import ArithExpr.Proofs.Conservation
import ArithExpr.Proofs.Locality
import ArithExpr.Proofs.Recovery
import ArithExpr.Proofs.MissingTree
import ArithExpr.Proofs.Wording
import ArithExpr.Proofs.Arguments
import ArithExpr.Proofs.ErrorStream
import ArithExpr.Proofs.InputPaths
import ArithExpr.Proofs.TokenLines
import ArithExpr.Proofs.StrictRun
import ArithExpr.Proofs.FirstOperand
import ArithExpr.Proofs.LeftPart
import ArithExpr.Proofs.PartDepth
import ArithExpr.Proofs.UniqueText
import ArithExpr.Proofs.OutlineDecoding
import ArithExpr.Proofs.IntegerReading
import ArithExpr.Proofs.EventLog
