import Reckon.Source.Basic

/-! The tokens of an arithmetic expression. -/

namespace Reckon

inductive OperatorKind where
  | plus
  | minus
  | multiply
  | divide
  deriving DecidableEq, Repr, Ord

namespace OperatorKind

def all : List OperatorKind := [plus, minus, multiply, divide]

def char : OperatorKind → Char
  | plus => '+'
  | minus => '-'
  | multiply => '*'
  | divide => '/'

def ofChar? (c : Char) : Option OperatorKind := all.find? (·.char = c)

/-- The operator with the higher precedence binds tighter. -/
def precedence : OperatorKind → Int
  | plus | minus => 0
  | multiply | divide => 1

end OperatorKind

/-- A run of digits and the value it stands for. -/
structure Number where
  span : Span
  value : Int32
  deriving DecidableEq

structure Operator where
  span : Span
  kind : OperatorKind
  deriving DecidableEq

def Operator.precedence (o : Operator) : Int := o.kind.precedence

structure Parenthesis where
  span : Span
  isOpen : Bool
  deriving DecidableEq

/-- A parenthesis binds looser than every operator. -/
def Parenthesis.precedence (_ : Parenthesis) : Int := -1

/-- A part of an expression that makes it malformed, and why. -/
structure Fault where
  span : Span
  message : String
  deriving DecidableEq

namespace Fault

def unexpectedChar (span : Span) (c : Char) : Fault := ⟨span, "Unexpected char " ++ c.toString⟩

def outOfRange (span : Span) : Fault := ⟨span, "Number is out of range"⟩

/-- Blames a closing parenthesis that nothing opens. -/
def unopened (p : Parenthesis) : Fault := ⟨p.span, "Expected ( for"⟩

/-- Blames an opening parenthesis that nothing closes. -/
def unclosed (p : Parenthesis) : Fault := ⟨p.span, "Expected ) for"⟩

end Fault

/-- A fault travels among the other tokens, so that it is met in the order of the text. -/
inductive Token where
  | number (n : Number)
  | operator (o : Operator)
  | parenthesis (p : Parenthesis)
  | fault (f : Fault)
  | endOfInput
  deriving DecidableEq

namespace Token

/-- The end of input is no part of the text. -/
def span? : Token → Option Span
  | number n => some n.span
  | operator o => some o.span
  | parenthesis p => some p.span
  | fault f => some f.span
  | endOfInput => none

def text (t : Token) : String :=
  match t.span? with
  | some s => s.text
  | none => "#eof"

/-- The token that the single character `c` is on its own. -/
def ofChar? (span : Span) (c : Char) : Option Token :=
  if c = '(' then some (.parenthesis ⟨span, true⟩)
  else if c = ')' then some (.parenthesis ⟨span, false⟩)
  else (OperatorKind.ofChar? c).map fun kind => .operator ⟨span, kind⟩

def isFault : Token → Bool
  | fault _ => true
  | _ => false

def isLegible (t : Token) : Bool := t.span?.all Span.isLegible

end Token

end Reckon
