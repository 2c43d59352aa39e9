import Reckon.Source.Lines
import Reckon.Text.Bytes

/-! Source texts, their spans, and the places a reader finds them at. -/

namespace Reckon

/-- A text with a name to show in diagnostics. Two sources are the same only if their serial numbers
agree too, so that equal texts can be told apart. -/
structure Source where
  name : String
  content : String
  lines : List Extent
  serial : Nat := 0
  deriving DecidableEq, Repr, Hashable

/-- A line and a column, both counted from 1. The order is that of reading. -/
structure Location where
  line : Nat
  column : Nat
  deriving DecidableEq, Repr, Ord

namespace Source

def ofText (name content : String) : Source :=
  { name, content, lines := Lines.ofText content.toList }

def chars (s : Source) : List Char := s.content.toList

def byteLength (s : Source) : Nat := Text.byteLength s.chars

/-- The character that starts at byte `i`. -/
def charAt? (s : Source) (i : Nat) : Option Char := Text.charAt? s.chars i

/-- The line with the given number, counted from 1, with its line break. -/
def line? (s : Source) : Nat → Option String
  | 0 => none
  | k + 1 => do
    let e ← s.lines[k]?
    let cs ← Text.slice? s.chars e.start e.stop
    return String.ofList cs

/-- How many of the characters start before byte `n`. -/
def charsBefore : Nat → List Char → Nat
  | _, [] => 0
  | 0, _ :: _ => 0
  | n + 1, c :: cs => charsBefore (n + 1 - c.utf8Size) cs + 1

/-- Where a character starting at byte `i` is found. The end of the text has no location. -/
def location? (s : Source) (i : Nat) : Option Location :=
  if Text.isBoundary s.chars i then do
    let k ← Lines.index? s.lines i
    let e ← s.lines[k]?
    let line ← s.line? (k + 1)
    return { line := k + 1, column := charsBefore (i - e.start) line.toList + 1 }
  else none

/-- Whether the line listed for byte `i`, if there is one, is a part of the text. -/
def isReadableAt (s : Source) (i : Nat) : Bool :=
  match Lines.index? s.lines i with
  | some k => (s.line? (k + 1)).isSome
  | none => true

end Source

/-- A stretch of a source. Equality includes the source, not only its text. -/
structure Span where
  source : Source
  start : Nat
  stop : Nat
  deriving DecidableEq, Repr, Hashable

namespace Span

/-- The span between two bytes, unless they are out of order, past the end or inside a character. -/
def new? (source : Source) (start stop : Nat) : Option Span :=
  if (Text.slice? source.chars start stop).isSome then some { source, start, stop } else none

/-- The span of the character `c` at byte `i`. -/
def ofChar (source : Source) (i : Nat) (c : Char) : Span :=
  { source, start := i, stop := i + c.utf8Size }

def text? (s : Span) : Option String :=
  (Text.slice? s.source.chars s.start s.stop).map String.ofList

/-- The text under the span, empty if the span is not a part of its source. -/
def text (s : Span) : String := s.text?.getD ""

def location? (s : Span) : Option Location := s.source.location? s.start

/-- Whether both the span and the line it starts on are parts of the source. Every span made by
`new?` on a source made by `Source.ofText` is legible; one read from a document need not be. -/
def isLegible (s : Span) : Bool := s.text?.isSome && s.source.isReadableAt s.start

end Span

end Reckon
