import Reckon.Calculator

/-! What a single token does to a calculator. -/

namespace Reckon

/-- The operator is to blame for the failure. -/
def Failure.IsAt (f : Failure) (o : Operator) : Prop :=
  f = .missingOperand o ∨ f = .divisionByZero o ∨ f = .overflow o

/-- What is wrong with a whole expression is not wrong with one of its operators. -/
theorem Failure.not_isAt_emptyExpression (o : Operator) : ¬ emptyExpression.IsAt o := by
  rintro (h | h | h) <;> cases h

theorem Failure.not_isAt_expectedOperator (o : Operator) : ¬ expectedOperator.IsAt o := by
  rintro (h | h | h) <;> cases h

namespace Calculator

/-- A token that is applied, and the calculator it leaves. -/
inductive Applies (c : Calculator) : Token → Calculator → Prop where
  | number (n : Number) : Applies c (.number n) ⟨n.value :: c.stack⟩
  | operator {o : Operator} {a b v : Int32} {rest : List Int32} (hs : c.stack = b :: a :: rest)
    (hv : o.apply a b = .ok v) : Applies c (.operator o) ⟨v :: rest⟩
  | endOfInput {v : Int32} (hs : c.stack = [v]) : Applies c .endOfInput c

/-- A token that fails, and how. -/
inductive Rejects (c : Calculator) : Token → Failure → Prop where
  | operator {o : Operator} {f : Failure} (hf : f.IsAt o) : Rejects c (.operator o) f
  | parenthesis (p : Parenthesis) : Rejects c (.parenthesis p) (.unexpectedParenthesis p)
  | fault (e : Fault) : Rejects c (.fault e) (.malformed e)
  | emptyExpression (hs : c.stack = []) : Rejects c .endOfInput .emptyExpression
  | expectedOperator (hs : 2 ≤ c.stack.length) : Rejects c .endOfInput .expectedOperator

variable {c c' : Calculator} {t : Token} {ts us : List Token} {f : Failure}

theorem foldlM_cons_of_ok (h : c.accept t = .ok c') :
    (t :: ts).foldlM accept c = ts.foldlM accept c' := by
  rw [List.foldlM_cons, h]
  rfl

theorem foldlM_cons_of_error (h : c.accept t = .error f) :
    (t :: ts).foldlM accept c = .error f := by
  rw [List.foldlM_cons, h]
  rfl

theorem exists_of_foldlM_append (h : (ts ++ us).foldlM accept c = .ok c') :
    ∃ c₁, ts.foldlM accept c = .ok c₁ ∧ us.foldlM accept c₁ = .ok c' := by
  rw [List.foldlM_append] at h
  rcases hts : ts.foldlM accept c with e | c₁
  · rw [hts] at h
    cases h
  · rw [hts] at h
    exact ⟨c₁, rfl, h⟩

theorem exists_of_foldlM_cons (h : (t :: ts).foldlM accept c = .ok c') :
    ∃ c₁, c.accept t = .ok c₁ ∧ ts.foldlM accept c₁ = .ok c' := by
  rcases ht : c.accept t with e | c₁
  · rw [foldlM_cons_of_error ht] at h
    cases h
  · rw [foldlM_cons_of_ok ht] at h
    exact ⟨c₁, rfl, h⟩

theorem isAt_of_apply {o : Operator} {a b : Int32} (h : o.apply a b = .error f) : f.IsAt o := by
  unfold Operator.apply at h
  split at h
  · cases h
    exact Or.inr (Or.inl rfl)
  · split at h
    · cases h
    · cases h
      exact Or.inr (Or.inr rfl)

theorem applies_of_accept (h : c.accept t = .ok c') : c.Applies t c' := by
  cases t with
  | number n =>
    cases h
    exact .number n
  | operator o =>
    rcases c with ⟨_ | ⟨b, _ | ⟨a, rest⟩⟩⟩
    · cases h
    · cases h
    · cases ho : o.apply a b with
      | error e =>
        simp only [accept, ho] at h
        cases h
      | ok v =>
        simp only [accept, ho] at h
        cases h
        exact .operator rfl ho
  | parenthesis p => cases h
  | fault e => cases h
  | endOfInput =>
    rcases c with ⟨_ | ⟨v, _ | ⟨a, rest⟩⟩⟩
    · cases h
    · cases h
      exact .endOfInput rfl
    · cases h

theorem rejects_of_accept (h : c.accept t = .error f) : c.Rejects t f := by
  cases t with
  | number n => cases h
  | operator o =>
    rcases c with ⟨_ | ⟨b, _ | ⟨a, rest⟩⟩⟩
    · cases h
      exact .operator (Or.inl rfl)
    · cases h
      exact .operator (Or.inl rfl)
    · cases ho : o.apply a b with
      | error e =>
        simp only [accept, ho] at h
        cases h
        exact .operator (isAt_of_apply ho)
      | ok v =>
        simp only [accept, ho] at h
        cases h
  | parenthesis p =>
    cases h
    exact .parenthesis p
  | fault e =>
    cases h
    exact .fault e
  | endOfInput =>
    rcases c with ⟨_ | ⟨v, _ | ⟨a, rest⟩⟩⟩
    · cases h
      exact .emptyExpression rfl
    · cases h
    · cases h
      exact .expectedOperator (by simp)

end Calculator

end Reckon
