import Reckon.Calculator
import Reckon.Diagnostic

/-! Calculating a text from end to end. -/

namespace Reckon

/-- What becomes of an error that is handed in. -/
inductive Reporter.Policy where
  | print (colored : Bool)
  | remember
  | discard
  deriving DecidableEq, Repr

/-- `written` is what a printing reporter has printed so far. -/
structure Reporter where
  policy : Reporter.Policy
  hasReceived : Bool := false
  written : String := ""
  deriving DecidableEq

/-- A reporter that discards errors has never received one. -/
def Reporter.receive (r : Reporter) (e : Error) : Reporter :=
  match r.policy with
  | .print colored => { r with hasReceived := true, written := r.written ++ e.report colored }
  | .remember => { r with hasReceived := true }
  | .discard => r

def Reporter.receiveFrom {α : Type} (r : Reporter) : Except Error α → Reporter
  | .ok _ => r
  | .error e => r.receive e

/-- Evaluates the infix tokens of `s`, which are those of `text`, and leaves the stream as far as it
was needed. -/
def calculateFrom {σ : Type} [FiniteTokenStream σ] (text : String) (s : σ) :
    Except Error Int32 × σ :=
  let s := TokenStream.note [.opened (.calculate text), .entered (.calculate text)] s
  let (value, p) := evaluate (Rpn.ofStream s)
  (value.mapError .evaluation, TokenStream.note [.left (.calculate text)] p.supply)

/-- The value of an expression. An error goes to the reporter too. -/
def calculate (text : String) (r : Reporter) : Except Error Int32 × Reporter :=
  let value := (calculateFrom text (Scanner.ofText text)).1
  (value, r.receiveFrom value)

/-- The full journal of the calculation of a text. -/
def journal (text : String) : Journal :=
  (calculateFrom text { scanner := Scanner.ofText text, journal := [] : Logged }).2.journal

end Reckon
