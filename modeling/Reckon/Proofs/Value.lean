import Reckon.Proofs.Grammar
import Reckon.Proofs.Lexing

/-! The value of an infix expression: that of its tree over the integers, as long as every operator
on the way has a result that fits a word. -/

namespace Reckon

namespace Expr

/-- The value over the integers, with no regard to failures. A quotient is cut off toward zero. -/
def exact : Expr → Int
  | number n => n.value.toInt
  | binary o l r =>
    match o.kind with
    | .plus => l.exact + r.exact
    | .minus => l.exact - r.exact
    | .multiply => l.exact * r.exact
    | .divide => l.exact.tdiv r.exact

/-- Why the topmost operator has no value on the exact values of its operands, if it has none. -/
def failure? : Expr → Option Failure
  | number _ => none
  | binary o l r =>
    let value := (binary o l r).exact
    if o.kind = .divide ∧ r.exact = 0 then some (.divisionByZero o)
    else if -2147483648 ≤ value ∧ value ≤ 2147483647 then none
    else some (.overflow o)

/-- All subtrees in post-order, left operands before right ones. -/
def nodes : Expr → List Expr
  | number n => [number n]
  | binary o l r => l.nodes ++ r.nodes ++ [binary o l r]

/-- The failure that is met first in post-order. All operands met before it have their exact
values. -/
def firstFailure? (e : Expr) : Option Failure := e.nodes.findSome? failure?

end Expr

variable {o : Operator} {a b : Int32} {f : Failure} {e l r : Expr} {c : Calculator}
  {ts : List Token}

namespace Expr

theorem exact_binary (o : Operator) (l r : Expr) :
    (binary o l r).exact = o.kind.exact l.exact r.exact := by
  cases hk : o.kind <;> simp [exact, OperatorKind.exact, hk]

theorem apply_of_failure (ha : a.toInt = l.exact) (hb : b.toInt = r.exact)
    (h : (binary o l r).failure? = some f) : o.apply a b = .error f := by
  simp only [failure?, exact_binary, ← ha, ← hb, toInt_eq_zero_iff] at h
  unfold Operator.apply
  split at h
  · next hd => rw [if_pos hd, Option.some.inj h]
  · next hd =>
    rw [if_neg hd]
    split at h
    · cases h
    · next hn =>
      have hnone : narrow? (o.kind.exact a.toInt b.toInt) = none :=
        narrow?_eq_none_iff.2 (by omega)
      rw [hnone, Option.some.inj h]

theorem exists_apply (ha : a.toInt = l.exact) (hb : b.toInt = r.exact)
    (h : (binary o l r).failure? = none) :
    ∃ v, o.apply a b = .ok v ∧ v.toInt = (binary o l r).exact := by
  simp only [failure?, exact_binary, ← ha, ← hb, toInt_eq_zero_iff] at h ⊢
  split at h
  · cases h
  · next hd =>
    split at h
    · next hn =>
      cases hv : narrow? (o.kind.exact a.toInt b.toInt) with
      | none => rcases narrow?_eq_none_iff.1 hv with hv | hv <;> omega
      | some v => exact ⟨v, by simp [Operator.apply, hd, hv], narrow?_eq_some_iff.1 hv⟩
    · cases h

theorem firstFailure?_binary (o : Operator) (l r : Expr) :
    (binary o l r).firstFailure? =
      (l.firstFailure?.or r.firstFailure?).or (binary o l r).failure? := by
  simp [firstFailure?, nodes, List.findSome?_append, Option.or_assoc]

/-- Fed a tree without failures, it goes on with the exact value on top. -/
theorem exists_foldlM (h : e.firstFailure? = none) :
    ∃ v : Int32, v.toInt = e.exact ∧ ∀ (c : Calculator) (ts : List Token),
      (e.reversed ++ ts).foldlM Calculator.accept c =
        ts.foldlM Calculator.accept { stack := v :: c.stack } := by
  induction e with
  | number n => exact ⟨n.value, rfl, fun c ts => rfl⟩
  | binary o l r ihl ihr =>
    rw [firstFailure?_binary, Option.or_eq_none_iff, Option.or_eq_none_iff] at h
    obtain ⟨⟨hl, hr⟩, ho⟩ := h
    obtain ⟨a, ha, hla⟩ := ihl hl
    obtain ⟨b, hb, hrb⟩ := ihr hr
    obtain ⟨v, hv, hve⟩ := exists_apply ha hb ho
    refine ⟨v, hve, fun c ts => ?_⟩
    simp only [reversed, List.append_assoc, hla, hrb, List.singleton_append, List.foldlM_cons,
      Calculator.accept, hv]
    rfl

/-- Fed a tree with failures, it stops at the first. -/
theorem foldlM_of_firstFailure (h : e.firstFailure? = some f) (c : Calculator)
    (ts : List Token) : (e.reversed ++ ts).foldlM Calculator.accept c = .error f := by
  induction e generalizing c ts with
  | number n => cases h
  | binary o l r ihl ihr =>
    simp only [reversed, List.append_assoc]
    rw [firstFailure?_binary] at h
    cases hl : l.firstFailure? with
    | some g =>
      simp only [hl, Option.some_or, Option.some.injEq] at h
      exact ihl (h ▸ hl) _ _
    | none =>
      obtain ⟨a, ha, hla⟩ := exists_foldlM hl
      rw [hla]
      cases hr : r.firstFailure? with
      | some g =>
        simp only [hl, hr, Option.none_or, Option.some_or, Option.some.injEq] at h
        exact ihr (h ▸ hr) _ _
      | none =>
        obtain ⟨b, hb, hrb⟩ := exists_foldlM hr
        simp only [hl, hr, Option.none_or] at h
        simp only [hrb, List.singleton_append, List.foldlM_cons, Calculator.accept,
          apply_of_failure ha hb h]
        rfl

/-- Only divisions by zero and overflows are failures of a tree, and each names an operator of
it. -/
theorem exists_operator_of_firstFailure (h : e.firstFailure? = some f) :
    ∃ o, .operator o ∈ e.reversed ∧ (f = .divisionByZero o ∨ f = .overflow o) := by
  induction e with
  | number n => cases h
  | binary o l r ihl ihr =>
    rw [firstFailure?_binary, Option.or_eq_some_iff, Option.or_eq_some_iff] at h
    rcases h with (h | ⟨_, h⟩) | ⟨_, h⟩
    · obtain ⟨o', ho', hf⟩ := ihl h
      exact ⟨o', by simp [reversed, ho'], hf⟩
    · obtain ⟨o', ho', hf⟩ := ihr h
      exact ⟨o', by simp [reversed, ho'], hf⟩
    · refine ⟨o, by simp [reversed], ?_⟩
      simp only [failure?] at h
      split at h
      · exact Or.inl (Option.some.inj h).symm
      · split at h
        · cases h
        · exact Or.inr (Option.some.inj h).symm

end Expr

theorem Derives.ne_nil {ℓ : Phrase} (h : Derives ℓ ts e) : ts ≠ [] := by
  induction h with
  | number | group | product | sum => simp
  | factor _ ih | term _ ih => exact ih

theorem Derives.operator_mem_iff {ℓ : Phrase} (h : Derives ℓ ts e) :
    .operator o ∈ ts ↔ .operator o ∈ e.reversed := by
  induction h with
  | number n => rfl
  | group _ _ _ ih => simpa using ih
  | factor _ ih | term _ ih => exact ih
  | product _ _ _ ihl ihr | sum _ _ _ ihl ihr => simp [Expr.reversed, ihl, ihr, or_comm]

/-- A text that reads as an infix expression has the exact value of the expression's tree, unless an
operator of the tree fails. Then the failure is the one that comes first in post-order. -/
theorem calculate_of_derives {text : String} (r : Reporter)
    (hl : Lexes (Source.ofText "<input>" text) 0 text.toList (ts ++ [.endOfInput]))
    (hd : Derives .expr ts e) :
    (e.firstFailure? = none →
      ∃ v : Int32, (calculate text r).1 = .ok v ∧ v.toInt = e.exact) ∧
    ∀ f, e.firstFailure? = some f →
      (calculate text r).1 = .error (.evaluation f) ∧
        ∃ o, .operator o ∈ ts ∧ (f = .divisionByZero o ∨ f = .overflow o) := by
  have hne : text ≠ "" := by
    rintro rfl
    exact hd.ne_nil (List.append_left_eq_self.1 (lexes_nil hl))
  rw [calculate_fst, tokenize_of_lexes hne hl, Yard.released_expr hd]
  constructor
  · intro hn
    obtain ⟨v, hv, hf⟩ := Expr.exists_foldlM hn
    exact ⟨v, by rw [hf]; rfl, hv⟩
  · intro f hf
    refine ⟨by rw [Expr.foldlM_of_firstFailure hf]; rfl, ?_⟩
    obtain ⟨o, ho, h⟩ := Expr.exists_operator_of_firstFailure hf
    exact ⟨o, hd.operator_mem_iff.2 ho, h⟩

/-- A quotient below zero is cut off toward zero. Where a division by zero stands before a product
that is too large, the division is what fails. -/
theorem calculate_first_failure :
    (∃ v : Int32, (calculate "(0-7)/2" { policy := .discard }).1 = .ok v ∧ v.toInt = -3) ∧
    (calculate "9/(4 - 4)+2147483647*2" { policy := .discard }).1 =
      .error (.evaluation (.divisionByZero
        ⟨⟨Source.ofText "<input>" "9/(4 - 4)+2147483647*2", 1, 2⟩, .divide⟩)) := by
  constructor
  · let source := Source.ofText "<input>" "(0-7)/2"
    let ts : List Token := [.parenthesis ⟨⟨source, 0, 1⟩, true⟩, .number ⟨⟨source, 1, 2⟩, 0⟩,
      .operator ⟨⟨source, 2, 3⟩, .minus⟩, .number ⟨⟨source, 3, 4⟩, 7⟩,
      .parenthesis ⟨⟨source, 4, 5⟩, false⟩, .operator ⟨⟨source, 5, 6⟩, .divide⟩,
      .number ⟨⟨source, 6, 7⟩, 2⟩]
    have hl : Lexes source 0 "(0-7)/2".toList (ts ++ [.endOfInput]) := by
      rw [show "(0-7)/2".toList = ['(', '0', '-', '7', ')', '/', '2'] from rfl]
      exact .opening <|
        @Lexes.number _ 1 ['0'] _ _ _ (by simp) (by simp) (by simp) rfl <|
        .operator .minus <|
        @Lexes.number _ 3 ['7'] _ _ _ (by simp) (by simp) (by simp) rfl <|
        .closing <| .operator .divide <|
        @Lexes.number _ 6 ['2'] _ _ _ (by simp) (by simp) (by simp) rfl .stop
    have difference := Derives.sum (o := ⟨⟨source, 2, 3⟩, .minus⟩) (Or.inr rfl)
      (.term (.factor (.number ⟨⟨source, 1, 2⟩, 0⟩))) (.factor (.number ⟨⟨source, 3, 4⟩, 7⟩))
    have quotient := Derives.product (o := ⟨⟨source, 5, 6⟩, .divide⟩) (Or.inr rfl)
      (.factor (.group (p := ⟨⟨source, 0, 1⟩, true⟩) (q := ⟨⟨source, 4, 5⟩, false⟩) rfl rfl
        difference)) (.number ⟨⟨source, 6, 7⟩, 2⟩)
    have hvalue := (calculate_of_derives { policy := .discard } hl (.term quotient)).1
      (by simp [Expr.firstFailure?, Expr.nodes, Expr.failure?, Expr.exact])
    simpa [Expr.exact] using hvalue
  · let source := Source.ofText "<input>" "9/(4 - 4)+2147483647*2"
    let ts : List Token := [.number ⟨⟨source, 0, 1⟩, 9⟩, .operator ⟨⟨source, 1, 2⟩, .divide⟩,
      .parenthesis ⟨⟨source, 2, 3⟩, true⟩, .number ⟨⟨source, 3, 4⟩, 4⟩,
      .operator ⟨⟨source, 5, 6⟩, .minus⟩, .number ⟨⟨source, 7, 8⟩, 4⟩,
      .parenthesis ⟨⟨source, 8, 9⟩, false⟩, .operator ⟨⟨source, 9, 10⟩, .plus⟩,
      .number ⟨⟨source, 10, 20⟩, 2147483647⟩, .operator ⟨⟨source, 20, 21⟩, .multiply⟩,
      .number ⟨⟨source, 21, 22⟩, 2⟩]
    have hl : Lexes source 0 "9/(4 - 4)+2147483647*2".toList (ts ++ [.endOfInput]) := by
      rw [show "9/(4 - 4)+2147483647*2".toList = ['9', '/', '(', '4', ' ', '-', ' ', '4', ')', '+',
        '2', '1', '4', '7', '4', '8', '3', '6', '4', '7', '*', '2'] from rfl]
      exact @Lexes.number _ 0 ['9'] _ _ _ (by simp) (by simp) (by simp) rfl <|
        .operator .divide <| .opening <|
        @Lexes.number _ 3 ['4'] _ _ _ (by simp) (by simp) (by simp) rfl <|
        .blank rfl <| .operator .minus <| .blank rfl <|
        @Lexes.number _ 7 ['4'] _ _ _ (by simp) (by simp) (by simp) rfl <|
        .closing <| .operator .plus <|
        @Lexes.number _ 10 ['2', '1', '4', '7', '4', '8', '3', '6', '4', '7'] _ _ _
          (by simp) (by simp) (by simp) rfl <|
        .operator .multiply <|
        @Lexes.number _ 21 ['2'] _ _ _ (by simp) (by simp) (by simp) rfl .stop
    have difference := Derives.sum (o := ⟨⟨source, 5, 6⟩, .minus⟩) (Or.inr rfl)
      (.term (.factor (.number ⟨⟨source, 3, 4⟩, 4⟩))) (.factor (.number ⟨⟨source, 7, 8⟩, 4⟩))
    have quotient := Derives.product (o := ⟨⟨source, 1, 2⟩, .divide⟩) (Or.inr rfl)
      (.factor (.number ⟨⟨source, 0, 1⟩, 9⟩))
      (.group (p := ⟨⟨source, 2, 3⟩, true⟩) (q := ⟨⟨source, 8, 9⟩, false⟩) rfl rfl difference)
    have product := Derives.product (o := ⟨⟨source, 20, 21⟩, .multiply⟩) (Or.inl rfl)
      (.factor (.number ⟨⟨source, 10, 20⟩, 2147483647⟩)) (.number ⟨⟨source, 21, 22⟩, 2⟩)
    have sum := Derives.sum (o := ⟨⟨source, 9, 10⟩, .plus⟩) (Or.inl rfl) (.term quotient) product
    exact ((calculate_of_derives { policy := .discard } hl sum).2 _ rfl).1

end Reckon
