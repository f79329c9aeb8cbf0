import PascalTokens.Catalog
import PascalTokens.Main
import PascalTokens.Proofs.Command.Input
import PascalTokens.Proofs.Command.Status
import PascalTokens.Proofs.Report
import PascalTokens.Proofs.Report.Fault
import PascalTokens.Proofs.Scan.Append
import PascalTokens.Proofs.Scan.Case
import PascalTokens.Proofs.Scan.Comment
import PascalTokens.Proofs.Scan.CommentLines
import PascalTokens.Proofs.Scan.Direct
import PascalTokens.Proofs.Scan.Fate
import PascalTokens.Proofs.Scan.Layout
import PascalTokens.Proofs.Scan.LineBreak
import PascalTokens.Proofs.Scan.Moments
import PascalTokens.Proofs.Scan.Opening
import PascalTokens.Proofs.Scan.Places
import PascalTokens.Proofs.Scan.Printing
import PascalTokens.Proofs.Scan.QuotedText
import PascalTokens.Proofs.Scan.Reader
import PascalTokens.Proofs.Scan.Shape
import PascalTokens.Proofs.Scan.Stored
import PascalTokens.Proofs.Session.Blocks
import PascalTokens.Proofs.Session.Postings
import PascalTokens.Proofs.Spacing.Insertion
import PascalTokens.Proofs.Table
