import Reckon.Failure
import Reckon.Scanner.Basic

/-! The journal of a calculation: which scopes it went through and what happened there. -/

namespace Reckon

/-- How much a journal is meant to tell, from least to most. -/
inductive Level where
  | error
  | warn
  | info
  | debug
  | trace
  deriving DecidableEq, Repr

namespace Level

def rank : Level → Nat
  | error => 0
  | warn => 1
  | info => 2
  | debug => 3
  | trace => 4

/-- Whether a journal kept at level `limit` tells what is recorded at level `l`. -/
def Admits (limit l : Level) : Prop := l.rank ≤ limit.rank

instance (limit l : Level) : Decidable (limit.Admits l) := inferInstanceAs (Decidable (_ ≤ _))

end Level

/-- A part of the work, with what it was given to work on. -/
inductive Scope where
  | calculate (text : String)
  | evaluate
  /-- The reordering of one token. -/
  | accept (token : String)
  deriving DecidableEq

def Scope.level : Scope → Level
  | calculate _ | evaluate => .debug
  | accept _ => .trace

inductive Event where
  | transition (m : Scanner.Move)
  | emitting (token : String)
  /-- A fault found by the scanner is handed on. -/
  | passingOn
  | unbalanced (place complaint : String)
  | finished (result : Except Failure Int32)

def Event.level : Event → Level
  | transition _ | emitting _ => .trace
  | passingOn | unbalanced .. | finished _ => .debug

def Event.message : Event → String
  | transition _ => "tokenizer transition"
  | emitting _ => "emitting"
  | passingOn => "Passing on error token from the tokenizer"
  | unbalanced _ complaint => complaint
  | finished _ => "Finished evaluation"

/-- A scope is opened once, then entered and left. -/
inductive Record where
  | opened (s : Scope)
  | entered (s : Scope)
  | left (s : Scope)
  | event (e : Event)

def Record.level : Record → Level
  | opened s | entered s | left s => s.level
  | event e => e.level

abbrev Journal := List Record

/-- What a journal kept at level `limit` tells. -/
def Journal.upTo (limit : Level) (j : Journal) : Journal :=
  j.filter fun r => limit.Admits r.level

end Reckon
