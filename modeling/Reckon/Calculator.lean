import Reckon.Rpn

/-! A stack machine that evaluates reverse Polish notation one token at a time. -/

namespace Reckon

/-- The exact result of an operator, division truncating toward zero. -/
def OperatorKind.exact : OperatorKind → Int → Int → Int
  | plus, a, b => a + b
  | minus, a, b => a - b
  | multiply, a, b => a * b
  | divide, a, b => a.tdiv b

/-- The value of an operator on its operands, left then right. A zero divisor is found before the
result is looked at. -/
def Operator.apply (o : Operator) (a b : Int32) : Except Failure Int32 :=
  if o.kind = .divide ∧ b = 0 then .error (.divisionByZero o)
  else
    match narrow? (o.kind.exact a.toInt b.toInt) with
    | some v => .ok v
    | none => .error (.overflow o)

/-- The value pushed last is the first of `stack`. -/
structure Calculator where
  stack : List Int32 := []
  deriving DecidableEq

namespace Calculator

/-- Applies one token. A token that fails leaves no calculator behind, so the one before it can be
used on. -/
def accept (c : Calculator) : Token → Except Failure Calculator
  | .number n => .ok { stack := n.value :: c.stack }
  | .operator o =>
    match c.stack with
    | b :: a :: rest => (o.apply a b).map fun v => { stack := v :: rest }
    | _ => .error (.missingOperand o)
  | .parenthesis p => .error (.unexpectedParenthesis p)
  | .fault f => .error (.malformed f)
  | .endOfInput =>
    match c.stack with
    | [_] => .ok c
    | [] => .error .emptyExpression
    | _ => .error .expectedOperator

/-- The value pushed last. -/
def result (c : Calculator) : Except Failure Int32 :=
  match c.stack with
  | v :: _ => .ok v
  | [] => .error .emptyExpression

/-- A calculator at work in place. What was done to it before a token fails stays done. -/
abbrev InPlace (α : Type) := ExceptT Failure (StateM Calculator) α

def push (v : Int32) : InPlace Unit := modify fun c => { stack := v :: c.stack }

/-- Takes the topmost `n` values off. -/
def drop (n : Nat) : InPlace Unit := modify fun c => { stack := c.stack.drop n }

/-- Enters one token. The operands of an operator stay in their place until it has a value. -/
def enter : Token → InPlace Unit
  | .number n => push n.value
  | .operator o => do
    match (← get).stack with
    | b :: a :: _ =>
      let v ← o.apply a b
      drop 2
      push v
    | _ => throw (.missingOperand o)
  | .parenthesis p => throw (.unexpectedParenthesis p)
  | .fault f => throw (.malformed f)
  | .endOfInput => do
    match (← get).stack with
    | [_] => return
    | [] => throw .emptyExpression
    | _ => throw .expectedOperator

/-- What a calculator answers to a token, and what it is afterwards. -/
def entered (c : Calculator) (t : Token) : Except Failure Unit × Calculator := (enter t).run.run c

/-- In place, a token does what it does to a calculator that is given up for the next. -/
theorem entered_eq (c : Calculator) (t : Token) :
    c.entered t =
      match c.accept t with
      | .ok c' => (.ok (), c')
      | .error f => (.error f, c) := by
  cases t with
  | number n => rfl
  | operator o =>
    rcases c with ⟨_ | ⟨b, _ | ⟨a, rest⟩⟩⟩
    · rfl
    · rfl
    · change ((liftM (o.apply a b) : InPlace Int32) >>= fun v => do drop 2; push v).run.run _ = _
      simp only [accept]
      cases o.apply a b <;> rfl
  | parenthesis p => rfl
  | fault f => rfl
  | endOfInput => rcases c with ⟨_ | ⟨v, _ | ⟨a, rest⟩⟩⟩ <;> rfl

variable {σ : Type} [FiniteTokenStream σ]

/-- Applies the tokens of a stream up to the first that fails. The rest stay in the stream. -/
def run (c : Calculator) (s : σ) : Except Failure Calculator × σ :=
  match h : TokenStream.next s with
  | (none, s') => (.ok c, s')
  | (some t, s') =>
    have := FiniteTokenStream.remaining_next_lt h
    match c.accept t with
    | .ok c' => run c' s'
    | .error e => (.error e, s')
termination_by FiniteTokenStream.remaining s

variable {c c' : Calculator} {s s' : σ} {t : Token}

theorem run_of_none (h : TokenStream.next s = (none, s')) : c.run s = (.ok c, s') := by
  rw [run]
  split <;> simp_all

theorem run_of_ok (h : TokenStream.next s = (some t, s')) (hc : c.accept t = .ok c') :
    c.run s = c'.run s' := by
  rw [run]
  split <;> simp_all

theorem run_of_error {e : Failure} (h : TokenStream.next s = (some t, s'))
    (hc : c.accept t = .error e) : c.run s = (.error e, s') := by
  rw [run]
  split <;> simp_all

/-- What an evaluation makes of the end of its run, and what it notes. It counts as finished, with
or without a value, only if no token failed. -/
def conclude : Except Failure Calculator → Except Failure Int32 × Journal
  | .ok c => (c.result, [.event (.finished c.result), .left .evaluate])
  | .error e => (.error e, [.left .evaluate])

end Calculator

/-- The value of a stream in reverse Polish notation, and what is left of the stream. -/
def evaluate {σ : Type} [FiniteTokenStream σ] (s : σ) : Except Failure Int32 × σ :=
  let (r, s) := Calculator.run {} (TokenStream.note [.opened .evaluate, .entered .evaluate] s)
  let (value, j) := Calculator.conclude r
  (value, TokenStream.note j s)

end Reckon
