import Reckon.Failure
import Reckon.Text.Quoted

/-! Values written out in full, for whoever looks for a mistake: a constructor with its fields. -/

namespace Reckon

namespace Dump

/-- A constructor whose fields have names. -/
def named (name : String) (fields : List (String × String)) : String :=
  name ++ " \x7b " ++ ", ".intercalate (fields.map fun f => f.1 ++ ": " ++ f.2) ++ " \x7d"

/-- A constructor whose fields have no names. -/
def plain (name : String) (fields : List String) : String :=
  name ++ "(" ++ ", ".intercalate fields ++ ")"

def list (items : List String) : String := "[" ++ ", ".intercalate items ++ "]"

def bool (b : Bool) : String := if b then "true" else "false"

def except {ε α : Type} (dumpError : ε → String) (dumpValue : α → String) :
    Except ε α → String
  | .ok v => plain "Ok" [dumpValue v]
  | .error e => plain "Err" [dumpError e]

end Dump

open Text (writeNatural writeWord quoteString quoteChar)

def Extent.dump (e : Extent) : String := writeNatural e.start ++ ".." ++ writeNatural e.stop

/-- The content is left out: its lines say enough. -/
def Source.dump (s : Source) : String :=
  Dump.named "SourceFile"
    [("identifier", quoteString s.name), ("lines", Dump.list (s.lines.map Extent.dump))]

/-- A span is shown with its text in place of its source. -/
def Span.dump (s : Span) : String :=
  Dump.named "Span"
    [("start", writeNatural s.start), ("end", writeNatural s.stop), ("content", quoteString s.text)]

/-- The name of an operator in a dump or a document. -/
def OperatorKind.name : OperatorKind → String
  | plus => "Plus"
  | minus => "Minus"
  | multiply => "Multiply"
  | divide => "Divide"

def Number.dump (n : Number) : String :=
  Dump.named "Number" [("span", n.span.dump), ("value", writeWord n.value)]

def Operator.dump (o : Operator) : String :=
  Dump.named "Operator" [("span", o.span.dump), ("kind", o.kind.name)]

def Parenthesis.dump (p : Parenthesis) : String :=
  Dump.named "Parenthesis" [("span", p.span.dump), ("is_open", Dump.bool p.isOpen)]

def Fault.dump (f : Fault) : String :=
  Dump.named "ErrorToken" [("span", f.span.dump), ("message", quoteString f.message)]

def Token.dump : Token → String
  | number n => Dump.plain "Number" [n.dump]
  | operator o => Dump.plain "Operator" [o.dump]
  | parenthesis p => Dump.plain "Parenthesis" [p.dump]
  | fault f => Dump.plain "Error" [f.dump]
  | endOfInput => "EndOfInput"

def Failure.dump : Failure → String
  | malformed f => Dump.plain "InvalidExpression" [f.dump]
  | missingOperand o => Dump.plain "ArityError" [o.dump]
  | divisionByZero o => Dump.plain "DivisionByZero" [o.dump]
  | overflow o => Dump.plain "Overflow" [o.dump]
  | unexpectedParenthesis p =>
    Dump.plain "MalformedInput" [Dump.plain "UnexpectedToken" [p.dump]]
  | expectedOperator => Dump.plain "MalformedInput" ["ExpectedOperator"]
  | emptyExpression => Dump.plain "MalformedInput" ["EmptyExpression"]

def Scanner.UsageError.dump : Scanner.UsageError → String
  | terminated => "TerminatedTokenizer"

def Error.dump : Error → String
  | evaluation f => Dump.plain "Evaluation" [f.dump]
  | usage e => Dump.plain "Usage" [e.dump]

def Scanner.State.dump : Scanner.State → String
  | start => "Start"
  | inNumber first stop =>
    Dump.named "InNumber" [("start", writeNatural first), ("end", writeNatural stop)]
  | ended => "End"

def Scanner.Input.dump : Scanner.Input → String
  | char i c => Dump.plain "Char" [writeNatural i, quoteChar c]
  | endOfInput => "EndOfInput"

end Reckon
