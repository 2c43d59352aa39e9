import Reckon.Token.Basic

/-! A shunting yard: operators wait on a stack until both their operands have passed. -/

namespace Reckon

inductive Pending where
  | operator (o : Operator)
  | opening (p : Parenthesis)
  deriving DecidableEq

/-- The innermost pending entry is the first of `stack`. A fault makes the yard incorrect for
good. -/
structure Yard where
  stack : List Pending := []
  isCorrect : Bool := true
  deriving DecidableEq

namespace Yard

/-- Releases operators from the top while they bind at least as tight as `level`. An opening
parenthesis stops them. -/
def releaseFrom (level : Int) : List Pending → List Token × List Pending
  | .operator o :: stack =>
    if o.precedence < level then ([], .operator o :: stack)
    else
      let rest := releaseFrom level stack
      (.operator o :: rest.1, rest.2)
  | stack => ([], stack)

/-- Releases the operators above the innermost opening parenthesis, and gives that parenthesis with
what lies below it. -/
def releaseToOpening : List Pending → List Token × Option (Parenthesis × List Pending)
  | [] => ([], none)
  | .opening p :: stack => ([], some (p, stack))
  | .operator o :: stack =>
    let rest := releaseToOpening stack
    (.operator o :: rest.1, rest.2)

/-- What a token releases, in order, and the yard it leaves. -/
def accept (y : Yard) : Token → List Token × Yard
  | .number n => ([.number n], y)
  | .operator o =>
    let (released, stack) := releaseFrom o.precedence y.stack
    (released, { y with stack := .operator o :: stack })
  | .parenthesis p =>
    if p.isOpen then ([], { y with stack := .opening p :: y.stack })
    else
      match releaseToOpening y.stack with
      | (released, some (_, stack)) => (released, { y with stack })
      | (released, none) =>
        (released ++ [.fault (.unopened p)], { stack := [], isCorrect := false })
  | .fault f => ([.fault f], { y with isCorrect := false })
  | .endOfInput =>
    match releaseToOpening y.stack with
    | (released, none) => (released ++ [.endOfInput], { y with stack := [] })
    | (released, some (p, _)) =>
      (released ++ [.fault (.unclosed p)], { stack := [], isCorrect := false })

theorem length_releaseFrom (level : Int) (stack : List Pending) :
    (releaseFrom level stack).1.length + (releaseFrom level stack).2.length = stack.length := by
  fun_induction releaseFrom level stack with
  | case1 => simp
  | case2 o stack h rest ih => simp only [List.length_cons, rest]; omega
  | case3 => simp

theorem length_releaseToOpening (stack : List Pending) :
    (releaseToOpening stack).1.length +
      (releaseToOpening stack).2.elim 0 (fun r => r.2.length + 1) = stack.length := by
  fun_induction releaseToOpening stack with
  | case1 => rfl
  | case2 => simp
  | case3 o stack rest ih => simp only [List.length_cons, rest]; omega

/-- A token brings in at most itself. -/
theorem length_accept_le (y : Yard) (t : Token) :
    (y.accept t).1.length + (y.accept t).2.stack.length ≤ y.stack.length + 1 := by
  cases t with
  | number n => simp [accept]; omega
  | operator o =>
    have := length_releaseFrom o.precedence y.stack
    simp only [accept, List.length_cons]
    omega
  | parenthesis p =>
    have := length_releaseToOpening y.stack
    simp only [accept]
    split
    · simp
    · split
      · simp_all; omega
      · simp_all
  | fault f => simp [accept]; omega
  | endOfInput =>
    have := length_releaseToOpening y.stack
    simp only [accept]
    split
    · simp_all
    · simp_all; omega

end Yard

end Reckon
