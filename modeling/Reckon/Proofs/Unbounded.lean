import Reckon.Proofs.Alike

/-! Calculating with words beside calculating with integers of any size. Both go the same way, token
by token, up to the first token that fails, and the integers alone decide which token that is. -/

namespace Reckon

/-- The exact result of an operator on its operands, left then right. A quotient is cut off toward
zero: what remains is smaller than the divisor and does not have the other sign than the
dividend. -/
inductive OperatorKind.Gives : OperatorKind → Int → Int → Int → Prop where
  | plus (a b : Int) : Gives .plus a b (a + b)
  | minus (a b : Int) : Gives .minus a b (a - b)
  | multiply (a b : Int) : Gives .multiply a b (a * b)
  | divide {a b q r : Int} (h : a = b * q + r) (hr : r.natAbs < b.natAbs)
      (hs : 0 ≤ a ∧ 0 ≤ r ∨ a ≤ 0 ∧ r ≤ 0) : Gives .divide a b q

namespace Unbounded

/-- What a token makes of a stack of integers, the value pushed last in front. No result is too
large. -/
inductive Step (stack : List Int) : Token → List Int → Prop where
  | number (n : Number) : Step stack (.number n) (n.value.toInt :: stack)
  | operator {o : Operator} {a b x : Int} {rest : List Int} (hs : stack = b :: a :: rest)
      (hx : o.kind.Gives a b x) : Step stack (.operator o) (x :: rest)
  | endOfInput {x : Int} (hs : stack = [x]) : Step stack .endOfInput stack

/-- Why a token fails on a stack of integers. A result is held against the range of a word only
here. -/
inductive Fails (stack : List Int) : Token → Failure → Prop where
  | missingOperand {o : Operator} (hs : stack.length < 2) :
      Fails stack (.operator o) (.missingOperand o)
  | divisionByZero {o : Operator} {a : Int} {rest : List Int} (hs : stack = 0 :: a :: rest)
      (ho : o.kind = .divide) : Fails stack (.operator o) (.divisionByZero o)
  | overflow {o : Operator} {a b x : Int} {rest : List Int} (hs : stack = b :: a :: rest)
      (hx : o.kind.Gives a b x) (hr : x < -2147483648 ∨ 2147483647 < x) :
      Fails stack (.operator o) (.overflow o)
  | parenthesis (p : Parenthesis) : Fails stack (.parenthesis p) (.unexpectedParenthesis p)
  | fault (e : Fault) : Fails stack (.fault e) (.malformed e)
  | emptyExpression (hs : stack = []) : Fails stack .endOfInput .emptyExpression
  | expectedOperator (hs : 2 ≤ stack.length) : Fails stack .endOfInput .expectedOperator

/-- Tokens that do not fail, one after the other. -/
inductive Runs : List Int → List Token → List Int → Prop where
  | nil {stack : List Int} : Runs stack [] stack
  | cons {stack stack' stack'' : List Int} {t : Token} {ts : List Token}
      (hf : ∀ f, ¬ Fails stack t f) (h : Step stack t stack') :
      Runs stack' ts stack'' → Runs stack (t :: ts) stack''

end Unbounded

/-- The values of a calculator as integers. -/
def Calculator.integers (c : Calculator) : List Int := c.stack.map Int32.toInt

open Unbounded

variable {k : OperatorKind} {o : Operator} {a b v : Int32} {x y z : Int} {c c' : Calculator}
  {t : Token} {ts : List Token} {f : Failure} {stack stack' : List Int} {n : Nat}

theorem gives_divide_iff : OperatorKind.Gives .divide x y z ↔ y ≠ 0 ∧ x.tdiv y = z := by
  constructor
  · intro h
    cases h with
    | divide h hr hs =>
      have hy : y ≠ 0 := by omega
      refine ⟨hy, ?_⟩
      rcases hs with ⟨hx, hpos⟩ | ⟨hx, hneg⟩
      · exact ((Int.tdiv_tmod_unique hx hy).2 ⟨by omega, hpos, by omega⟩).1
      · exact ((Int.tdiv_tmod_unique' hx hy).2 ⟨by omega, by omega, hneg⟩).1
  · rintro ⟨hy, rfl⟩
    have h := Int.tmod_add_mul_tdiv x y
    rcases Int.le_total 0 x with hx | hx
    · obtain ⟨-, hr, hlt⟩ := (Int.tdiv_tmod_unique hx hy).1 ⟨rfl, rfl⟩
      exact .divide (r := x.tmod y) (by omega) (by omega) (Or.inl ⟨hx, hr⟩)
    · obtain ⟨-, hlt, hr⟩ := (Int.tdiv_tmod_unique' hx hy).1 ⟨rfl, rfl⟩
      exact .divide (r := x.tmod y) (by omega) (by omega) (Or.inr ⟨hx, hr⟩)

theorem gives_iff : k.Gives x y z ↔ ¬ (k = .divide ∧ y = 0) ∧ k.exact x y = z := by
  cases k with
  | divide => simpa [OperatorKind.exact] using gives_divide_iff
  | _ =>
    constructor
    · rintro ⟨⟩
      exact ⟨nofun, rfl⟩
    · rintro ⟨-, rfl⟩
      constructor

theorem Operator.apply_eq_ok_iff :
    o.apply a b = .ok v ↔ o.kind.Gives a.toInt b.toInt v.toInt := by
  rw [gives_iff, toInt_eq_zero_iff, eq_comm (b := v.toInt), ← narrow?_eq_some_iff]
  unfold apply
  split
  · next h => simp [h]
  · next h => cases hv : narrow? (o.kind.exact a.toInt b.toInt) <;> simp [h]

/-- An operator with both its operands fails on a zero divisor, and else if its result is out of
range. -/
theorem Operator.apply_eq_error_iff :
    o.apply a b = .error f ↔
      f = .divisionByZero o ∧ o.kind = .divide ∧ b.toInt = 0 ∨
        f = .overflow o ∧
          ∃ x, o.kind.Gives a.toInt b.toInt x ∧ (x < -2147483648 ∨ 2147483647 < x) := by
  simp only [gives_iff, toInt_eq_zero_iff, and_assoc, exists_and_left, exists_eq_left',
    ← narrow?_eq_none_iff]
  unfold apply
  split
  · next h => simp [h, eq_comm (b := f)]
  · next h =>
    cases hv : narrow? (o.kind.exact a.toInt b.toInt) with
    | none => simp [h, eq_comm (b := f)]
    | some v => simp [h]

/-- The one quotient of words that is too large. -/
example :
    let o : Operator := ⟨⟨Source.ofText "<input>" "/", 0, 1⟩, .divide⟩
    o.apply (-2147483648) (-1) = .error (.overflow o) := by
  rfl

namespace Calculator

theorem exists_stack_of_integers {rest : List Int} (h : c.integers = y :: x :: rest) :
    ∃ a b vs, c = ⟨b :: a :: vs⟩ ∧ b.toInt = y ∧ a.toInt = x := by
  rcases c with ⟨_ | ⟨b, _ | ⟨a, vs⟩⟩⟩
  · cases h
  · cases h
  · cases h
    exact ⟨a, b, vs, rfl, rfl, rfl⟩

theorem accept_operator_eq_error_iff {vs : List Int32} :
    accept ⟨b :: a :: vs⟩ (.operator o) = .error f ↔ o.apply a b = .error f := by
  rcases ho : o.apply a b with g | v <;> simp [accept, ho, Except.map]

theorem accept_operator_eq_ok_iff {vs : List Int32} :
    accept ⟨b :: a :: vs⟩ (.operator o) = .ok c ↔ ∃ v, o.apply a b = .ok v ∧ c = ⟨v :: vs⟩ := by
  rcases ho : o.apply a b with g | v <;> simp [accept, ho, Except.map, eq_comm]

/-- A token that does not fail does the same to words and to integers. -/
theorem step_of_accept (h : c.accept t = .ok c') : Step c.integers t c'.integers := by
  cases applies_of_accept h with
  | number n => exact .number n
  | @operator o a b v rest hs hv =>
    have hstack : c.integers = b.toInt :: a.toInt :: rest.map Int32.toInt := by
      simp [integers, hs]
    exact .operator hstack (Operator.apply_eq_ok_iff.1 hv)
  | @endOfInput v hs =>
    have hstack : c.integers = [v.toInt] := by simp [integers, hs]
    exact .endOfInput hstack

theorem accept_eq_error_iff : c.accept t = .error f ↔ Fails c.integers t f := by
  constructor
  · intro h
    cases t with
    | number n => cases h
    | operator o =>
      rcases c with ⟨_ | ⟨b, _ | ⟨a, vs⟩⟩⟩
      · cases h
        exact .missingOperand (by simp [integers])
      · cases h
        exact .missingOperand (by simp [integers])
      · have ho := accept_operator_eq_error_iff.1 h
        rcases Operator.apply_eq_error_iff.1 ho with ⟨rfl, hk, hz⟩ | ⟨rfl, x, hx, hr⟩
        · have hstack : integers ⟨b :: a :: vs⟩ = 0 :: a.toInt :: vs.map Int32.toInt := by
            simp [integers, hz]
          exact .divisionByZero hstack hk
        · exact .overflow rfl hx hr
    | parenthesis p =>
      cases h
      exact .parenthesis p
    | fault e =>
      cases h
      exact .fault e
    | endOfInput =>
      rcases c with ⟨_ | ⟨b, _ | ⟨a, vs⟩⟩⟩
      · cases h
        exact .emptyExpression rfl
      · cases h
      · cases h
        exact .expectedOperator (by simp [integers])
  · intro h
    cases h with
    | @missingOperand o hs =>
      rcases c with ⟨_ | ⟨b, _ | ⟨a, vs⟩⟩⟩
      · rfl
      · rfl
      · simp only [integers, List.map_cons, List.length_cons] at hs
        omega
    | @divisionByZero o x rest hs ho =>
      obtain ⟨a, b, vs, rfl, hb, -⟩ := exists_stack_of_integers hs
      rw [accept_operator_eq_error_iff, Operator.apply_eq_error_iff]
      exact Or.inl ⟨rfl, ho, hb⟩
    | @overflow o x y z rest hs hx hr =>
      obtain ⟨a, b, vs, rfl, rfl, rfl⟩ := exists_stack_of_integers hs
      rw [accept_operator_eq_error_iff, Operator.apply_eq_error_iff]
      exact Or.inr ⟨rfl, z, hx, hr⟩
    | parenthesis | fault => rfl
    | emptyExpression hs =>
      rcases c with ⟨_ | ⟨b, vs⟩⟩
      · rfl
      · cases hs
    | expectedOperator hs =>
      rcases c with ⟨_ | ⟨b, _ | ⟨a, vs⟩⟩⟩
      · simp [integers] at hs
      · simp [integers] at hs
      · rfl

end Calculator

/-- A token can be applied to a stack of integers in one way only. -/
theorem Unbounded.Step.unique (h : Step stack t stack') {stack'' : List Int}
    (h' : Step stack t stack'') : stack' = stack'' := by
  cases h with
  | number n =>
    cases h'
    rfl
  | operator hs hx =>
    cases h' with
    | operator hs' hx' =>
      rw [hs] at hs'
      cases hs'
      rw [← (gives_iff.1 hx).2, ← (gives_iff.1 hx').2]
  | endOfInput =>
    cases h'
    rfl

namespace Calculator

/-- The words keep up with the integers as long as no token fails on these. -/
theorem exists_accept (hf : ∀ f, ¬ Fails c.integers t f) (h : Step c.integers t stack) :
    ∃ c', c.accept t = .ok c' ∧ c'.integers = stack := by
  rcases hc : c.accept t with f | c'
  · exact (hf f (accept_eq_error_iff.1 hc)).elim
  · exact ⟨c', rfl, (step_of_accept hc).unique h⟩

theorem runs_of_foldlM (h : ts.foldlM accept c = .ok c') : Runs c.integers ts c'.integers := by
  induction ts generalizing c with
  | nil =>
    cases h
    exact .nil
  | cons t ts ih =>
    obtain ⟨c₁, ht, hts⟩ := exists_of_foldlM_cons h
    refine .cons (fun f hf => ?_) (step_of_accept ht) (ih hts)
    rw [accept_eq_error_iff.2 hf] at ht
    cases ht

theorem runs_iff :
    Runs c.integers ts stack ↔ ∃ c', ts.foldlM accept c = .ok c' ∧ c'.integers = stack := by
  constructor
  · intro h
    generalize hs : c.integers = stack₀ at h
    induction h generalizing c with
    | nil => exact ⟨c, rfl, hs⟩
    | cons hf h _ ih =>
      subst hs
      obtain ⟨c₁, hc, hs⟩ := exists_accept hf h
      obtain ⟨c', hfold, hs'⟩ := ih hs
      exact ⟨c', (foldlM_cons_of_ok hc).trans hfold, hs'⟩
  · rintro ⟨c', h, rfl⟩
    exact runs_of_foldlM h

/-- The first token that fails is the first that fails on the integers. -/
theorem rejectsAt_iff :
    RejectsAt c ts n f ↔
      ∃ t stack, ts[n]? = some t ∧ Runs c.integers (ts.take n) stack ∧ Fails stack t f := by
  constructor
  · intro h
    induction h with
    | here h => exact ⟨_, _, rfl, .nil, accept_eq_error_iff.1 h⟩
    | later h _ ih =>
      obtain ⟨t, stack, ht, hr, hf⟩ := ih
      refine ⟨t, stack, ht, .cons (fun g hg => ?_) (step_of_accept h) hr, hf⟩
      rw [accept_eq_error_iff.2 hg] at h
      cases h
  · rintro ⟨t, stack, ht, hr, hf⟩
    induction ts generalizing c n with
    | nil => cases ht
    | cons u ts ih =>
      cases n with
      | zero =>
        cases ht
        cases hr
        exact .here (accept_eq_error_iff.2 hf)
      | succ n =>
        cases hr with
        | cons hg h hr =>
          obtain ⟨c₁, hc, rfl⟩ := exists_accept hg h
          exact .later hc (ih ht hr)

theorem result_eq_ok_iff : c.result = .ok v ↔ ∃ rest, c.integers = v.toInt :: rest := by
  rcases c with ⟨_ | ⟨w, vs⟩⟩
  · simp [result, integers]
  · simp [result, integers, Int32.toInt_inj]

theorem result_eq_error_iff : c.result = .error f ↔ f = .emptyExpression ∧ c.integers = [] := by
  rcases c with ⟨_ | ⟨w, vs⟩⟩
  · simp [result, integers, eq_comm (b := f)]
  · simp [result, integers]

end Calculator

theorem evaluate_eq_ok_iff :
    (evaluate ts).1 = .ok v ↔ ∃ rest, Runs [] ts (v.toInt :: rest) := by
  have hruns := fun stack => @Calculator.runs_iff {} ts stack
  rw [evaluate_fst, toList_list]
  constructor
  · intro h
    rcases hfold : ts.foldlM Calculator.accept {} with f | c
    · rw [hfold] at h
      cases h
    · rw [hfold] at h
      obtain ⟨rest, hc⟩ := Calculator.result_eq_ok_iff.1 h
      exact ⟨rest, (hruns _).2 ⟨c, hfold, hc⟩⟩
  · rintro ⟨rest, hr⟩
    obtain ⟨c, hfold, hc⟩ := (hruns _).1 hr
    rw [hfold]
    exact Calculator.result_eq_ok_iff.2 ⟨rest, hc⟩

theorem evaluate_eq_error_iff :
    (evaluate ts).1 = .error f ↔
      (∃ n t stack, ts[n]? = some t ∧ Runs [] (ts.take n) stack ∧ Fails stack t f) ∨
        f = .emptyExpression ∧ Runs [] ts [] := by
  have hruns := @Calculator.runs_iff {} ts []
  have hrejects : (∃ n, Calculator.RejectsAt {} ts n f) ↔
      ∃ n t stack, ts[n]? = some t ∧ Runs [] (ts.take n) stack ∧ Fails stack t f :=
    exists_congr fun n => Calculator.rejectsAt_iff
  rw [evaluate_fst, toList_list, ← hrejects, ← Calculator.foldlM_eq_error_iff]
  rcases hfold : ts.foldlM Calculator.accept {} with g | c
  · have hnot : ¬ Runs [] ts [] := by
      intro hr
      obtain ⟨c, hc, -⟩ := hruns.1 hr
      rw [hfold] at hc
      cases hc
    simp [hnot, bind, Except.bind]
  · have hempty : Runs [] ts [] ↔ c.integers = [] := by
      refine hruns.trans ⟨?_, fun h => ⟨c, hfold, h⟩⟩
      rintro ⟨c', hc', hs⟩
      rw [hfold] at hc'
      cases hc'
      exact hs
    rw [hempty, ← Calculator.result_eq_error_iff]
    simp [bind, Except.bind]

/-- Up to the first token that fails, the values of a calculator are the integers that unbounded
calculation has. An operator with two operands fails on a zero divisor and on a result that does not
fit a word, and else leaves the exact result. So an evaluation has the topmost integer for its value
if no token fails, and otherwise ends as the first token that fails does. Where none fails and
nothing is left, there was nothing to evaluate. -/
theorem evaluate_exact (ts : List Token) :
    (∀ n stack, Runs [] (ts.take n) stack ↔
      ∃ c, (Calculator.run {} (ts.take n)).1 = .ok c ∧ c.integers = stack) ∧
    (∀ (o : Operator) (a b : Int32) (rest : List Int32),
      let next := Calculator.accept ⟨b :: a :: rest⟩ (.operator o)
      (∀ f, next = .error f ↔
        f = .divisionByZero o ∧ o.kind = .divide ∧ b.toInt = 0 ∨
          f = .overflow o ∧
            ∃ x, o.kind.Gives a.toInt b.toInt x ∧ (x < -2147483648 ∨ 2147483647 < x)) ∧
      ∀ c, next = .ok c ↔
        ∃ v : Int32, o.kind.Gives a.toInt b.toInt v.toInt ∧ c = ⟨v :: rest⟩) ∧
    (∀ v, (evaluate ts).1 = .ok v ↔ ∃ rest, Runs [] ts (v.toInt :: rest)) ∧
    ∀ f, (evaluate ts).1 = .error f ↔
      (∃ n t stack, ts[n]? = some t ∧ Runs [] (ts.take n) stack ∧ Fails stack t f) ∨
        f = .emptyExpression ∧ Runs [] ts [] := by
  refine ⟨fun n stack => ?_, fun o a b rest => ?_, fun v => evaluate_eq_ok_iff,
    fun f => evaluate_eq_error_iff⟩
  · rw [Calculator.run_fst, toList_list]
    exact @Calculator.runs_iff {} (ts.take n) stack
  · refine ⟨fun f => ?_, fun c => ?_⟩
    · exact Calculator.accept_operator_eq_error_iff.trans Operator.apply_eq_error_iff
    · rw [Calculator.accept_operator_eq_ok_iff]
      simp only [Operator.apply_eq_ok_iff]

end Reckon
