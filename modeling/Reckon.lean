import Reckon.Calculate
import Reckon.Calculator
import Reckon.CommandLine.Options
import Reckon.CommandLine.Run
import Reckon.Diagnostic
import Reckon.Document.Json
import Reckon.Document.Token
import Reckon.Dump
import Reckon.Failure
import Reckon.Journal.Basic
import Reckon.Journal.Fields
import Reckon.Main
import Reckon.Rpn
import Reckon.Scanner.Basic
import Reckon.Scanner.Machine
import Reckon.Source.Basic
import Reckon.Source.Lines
import Reckon.Stream
import Reckon.Text.Blank
import Reckon.Text.Bytes
import Reckon.Text.Numeral
import Reckon.Text.Quoted
import Reckon.Text.Showable
import Reckon.Token.Basic
import Reckon.Token.Render
import Reckon.Word
import Reckon.Yard
import Reckon.Proofs.Calculator
import Reckon.Proofs.Grammar
import Reckon.Proofs.Lexing
import Reckon.Proofs.Lexemes
import Reckon.Proofs.Value
import Reckon.Proofs.Nesting
import Reckon.Proofs.Release
import Reckon.Proofs.Ledger
import Reckon.Proofs.Order
import Reckon.Proofs.Breakdown
import Reckon.Proofs.Count
import Reckon.Proofs.Infix
import Reckon.Proofs.Shape
import Reckon.Proofs.Conservation
import Reckon.Proofs.Eager
import Reckon.Proofs.Printing
import Reckon.Proofs.Blame
import Reckon.Proofs.Substitution
import Reckon.Proofs.Lines
import Reckon.Proofs.Pointing
import Reckon.Proofs.Batch
import Reckon.Proofs.Covering
import Reckon.Proofs.Journal
import Reckon.Proofs.Validity
import Reckon.Proofs.Legibility
import Reckon.Proofs.Unbounded
import Reckon.Proofs.Prefix
import Reckon.Proofs.Concatenation
import Reckon.Proofs.Locations
import Reckon.Proofs.LineTable
import Reckon.Proofs.Excerpt
import Reckon.Proofs.Fused
import Reckon.Proofs.Entry
import Reckon.Proofs.Alignment
import Reckon.Proofs.Stack
