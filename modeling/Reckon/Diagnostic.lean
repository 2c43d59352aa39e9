import Reckon.Failure

/-! Diagnostics for a terminal: a message, and the source line it is about with the place marked. -/

namespace Reckon

inductive Style where
  | alert
  | frame
  | strong
  deriving DecidableEq, Repr

/-- The attributes that a terminal is told to turn on. -/
def Style.attributes : Style → String
  | alert => "1;31"
  | frame => "1;34"
  | strong => "1"

/-- The sequence that turns every attribute off. -/
def resetSequence : List Char := "\x1b[0m".toList

/-- Repeats `opening` after every reset in a text, so that the text keeps its style to its end. -/
def reopenAfterReset (opening : List Char) : List Char → List Char
  | '\x1b' :: '[' :: '0' :: 'm' :: cs => resetSequence ++ opening ++ reopenAfterReset opening cs
  | c :: cs => c :: reopenAfterReset opening cs
  | [] => []

def paint (colored : Bool) (style : Style) (text : String) : String :=
  if colored then
    let opening := "\x1b[".toList ++ style.attributes.toList ++ ['m']
    String.ofList (opening ++ reopenAfterReset opening text.toList ++ resetSequence)
  else text

def spaces (n : Nat) : String := String.ofList (List.replicate n ' ')

def errorMessage (colored : Bool) (message : String) : String :=
  paint colored .alert "[error]:" ++ " " ++ paint colored .strong message

/-- A line without the break that ends it. -/
def withoutBreak (line : String) : String :=
  String.ofList (line.toList.reverse.dropWhile fun c => c = '\n' ∨ c = '\r').reverse

/-- The line a span starts on, under the place it is found at and above a mark as wide as the span.
A span at the very end of its source is on no line, and is shown as it stands. -/
def excerpt (colored : Bool) (span : Span) (help? : Option String) : String :=
  match span.location? with
  | none => span.text
  | some place =>
    let number := Text.writeNatural place.line
    let gutter := spaces number.length
    let bar := paint colored .frame "|"
    let line := withoutBreak ((span.source.line? place.line).getD "")
    let marker := String.ofList (List.replicate (max 1 span.text.length) '^')
    gutter ++ paint colored .frame "-->" ++ " " ++ span.source.name ++ ":" ++ number ++ ":"
        ++ Text.writeNatural place.column ++ "\n"
      ++ gutter ++ " " ++ bar ++ "\n"
      ++ paint colored .frame number ++ " " ++ bar ++ " " ++ line ++ "\n"
      ++ gutter ++ " " ++ bar ++ " " ++ spaces (place.column - 1) ++ paint colored .alert marker
      ++ help?.elim "" (" " ++ ·)

/-- What is printed for an error: its message, and an excerpt if it is about a part of a source. -/
def Error.report (colored : Bool) (e : Error) : String :=
  errorMessage colored e.message ++ "\n"
    ++ e.span?.elim "" fun span => excerpt colored span e.help? ++ "\n"

end Reckon
