import Mathlib.Data.List.Induction
import Reckon.Proofs.Conservation
import Reckon.Proofs.Grammar

/-! Which texts that have a value are infix expressions: those where no operand directly follows
another. -/

namespace Reckon

/-- A number or a closing parenthesis. -/
def Token.endsOperand (t : Token) : Bool := t.isNumber || t.isClosing

/-- A number or an opening parenthesis. -/
def Token.startsOperand (t : Token) : Bool := t.isNumber || t.isOpening

/-- No operand directly follows another. -/
def Separated (ts : List Token) : Prop :=
  ts.IsChain fun t u => t.endsOperand = true → u.startsOperand = false

/-- Balanced tokens, one operand or operator at a time. -/
inductive Woven : List Token → Prop where
  | nil : Woven []
  | number {ts : List Token} (n : Number) : Woven ts → Woven (ts ++ [.number n])
  | operator {ts : List Token} (o : Operator) : Woven ts → Woven (ts ++ [.operator o])
  | group {ts us : List Token} {p q : Parenthesis} (hp : p.isOpen = true) (hq : q.isOpen = false) :
      Woven ts → Woven us → Woven (ts ++ (.parenthesis p :: us ++ [.parenthesis q]))

/-- Balanced tokens with `d` opening parentheses between them. -/
inductive Layers : Nat → List Token → Prop where
  | base {ts : List Token} : Woven ts → Layers 0 ts
  | layer {d : Nat} {ts us : List Token} {p : Parenthesis} (hp : p.isOpen = true) :
      Layers d ts → Woven us → Layers (d + 1) (ts ++ .parenthesis p :: us)

variable {ts us vs : List Token} {t u : Token} {o : Operator} {e : Expr} {ℓ : Phrase} {d : Nat}

/-- What extends balanced tokens extends those of the innermost layer. -/
theorem Layers.append (h : Layers d ts) (hw : ∀ us, Woven us → Woven (us ++ vs)) :
    Layers d (ts ++ vs) := by
  cases h with
  | base h => exact .base (hw _ h)
  | layer hp h hu =>
    rw [List.append_assoc, List.cons_append]
    exact .layer hp h (hw _ hu)

theorem layers_of_nested (hn : Nested ts) (hts : ∀ t ∈ ts, t.isFault = false ∧ t ≠ .endOfInput) :
    ∃ d, Layers d ts ∧ openings ts = closings ts + d := by
  induction ts using List.reverseRecOn with
  | nil => exact ⟨0, .base .nil, rfl⟩
  | append_singleton ts t ih =>
    obtain ⟨d, hl, hd⟩ := ih hn.of_append fun u hu => hts u (List.mem_append_left _ hu)
    have ht := hts t (List.mem_append_right _ List.mem_cons_self)
    cases t with
    | number n =>
      refine ⟨d, hl.append fun us hu => .number n hu, ?_⟩
      simpa [Token.isOpening, Token.isClosing] using hd
    | operator o =>
      refine ⟨d, hl.append fun us hu => .operator o hu, ?_⟩
      simpa [Token.isOpening, Token.isClosing] using hd
    | parenthesis p =>
      by_cases hp : p.isOpen = true
      · refine ⟨d + 1, .layer hp hl .nil, ?_⟩
        simp [Token.isOpening, Token.isClosing, hp, hd]
        omega
      · have hq : p.isOpen = false := by simpa using hp
        have hle := hn.le
        simp only [openings_append, closings_append, openings_cons, closings_cons, openings_nil,
          closings_nil, Token.isOpening, Token.isClosing, hq, Bool.not_false, if_true,
          Bool.false_eq_true, if_false] at hle ⊢
        cases hl with
        | base _ => omega
        | @layer d ts us p' hp' hl hu =>
          -- The innermost layer becomes a group at the end of the one around it.
          refine ⟨d, ?_, by omega⟩
          rw [List.append_assoc]
          exact hl.append fun vs hv => .group hp' hq hv hu
    | fault f => cases ht.1
    | endOfInput => exact (ht.2 rfl).elim

theorem woven_of_balanced (hb : Balanced ts)
    (hts : ∀ t ∈ ts, t.isFault = false ∧ t ≠ .endOfInput) : Woven ts := by
  obtain ⟨d, hl, hd⟩ := layers_of_nested hb.1 hts
  have := hb.2
  cases hl with
  | base h => exact h
  | layer => omega

/-- An operand does not come right before one. -/
theorem Separated.last (h : Separated (ts ++ t :: us)) (ht : t.startsOperand = true) :
    ∀ u ∈ ts.getLast?, u.endsOperand = false := by
  intro u hu
  have := (List.isChain_append.1 h).2.2 u hu t rfl
  cases he : u.endsOperand with
  | false => rfl
  | true =>
    rw [this he] at ht
    cases ht

/-- What is neither part of an operand nor next to one keeps what it separates apart. -/
theorem Separated.append_cons (ht : Separated ts) (hu : Separated us) (hs : t.startsOperand = false)
    (he : t.endsOperand = false) : Separated (ts ++ t :: us) := by
  refine List.isChain_append.2 ⟨ht, List.isChain_cons.2 ⟨?_, hu⟩, ?_⟩
  · intro u _ h
    rw [he] at h
    cases h
  · rintro u _ v ⟨⟩ _
    exact hs

theorem Separated.group (h : Separated us) {p q : Parenthesis} (hp : p.isOpen = true)
    (hq : q.isOpen = false) : Separated (.parenthesis p :: us ++ [.parenthesis q]) := by
  refine List.isChain_append.2 ⟨List.isChain_cons.2 ⟨?_, h⟩, .singleton _, ?_⟩
  · intro u _ he
    simp [Token.endsOperand, Token.isNumber, Token.isClosing, hp] at he
  · rintro u _ v ⟨⟩ _
    simp [Token.startsOperand, Token.isNumber, Token.isOpening, hq]

/-- Between two operands of an expression there is an operator. -/
theorem Derives.separated (h : Derives ℓ ts e) : Separated ts := by
  induction h with
  | number n => exact .singleton _
  | group hp hq _ ih => exact ih.group hp hq
  | factor _ ih | term _ ih => exact ih
  | product _ _ _ iht ihu | sum _ _ _ iht ihu => exact iht.append_cons ihu rfl rfl

/-- An operand can follow. -/
inductive Expects : List Token → Prop where
  | nil : Expects []
  | operator {ts : List Token} {e : Expr} (o : Operator) :
      Derives .expr ts e → Expects (ts ++ [.operator o])

/-- The kind of an operator tells whether the operand ends the last term or begins a new one. -/
theorem Expects.derives (h : Expects ts) (hu : Derives .factor us e) :
    ∃ e, Derives .expr (ts ++ us) e := by
  cases h with
  | nil => exact ⟨e, .term (.factor hu)⟩
  | @operator ts l o ht =>
    rw [List.append_assoc]
    by_cases ho : o.kind = .plus ∨ o.kind = .minus
    · exact ⟨_, .sum ho ht (.factor hu)⟩
    · have ho' : o.kind = .multiply ∨ o.kind = .divide := by
        cases hk : o.kind <;> simp [hk] at ho ⊢
      cases ht with
      | term ht => exact ⟨_, .term (.product ho' ht hu)⟩
      | @sum o' ts' us' l' r' hp hl hr =>
        rw [List.append_assoc]
        exact ⟨_, .sum hp hl (.product ho' hr hu)⟩

/-- Balanced tokens with no two operands side by side have at most one number more than operators,
and an expression if they have one more. -/
theorem Woven.derives (h : Woven ts) (hs : Separated ts) :
    numbers ts ≤ operators ts + 1 ∧
      (numbers ts = operators ts + 1 → ∃ e, Derives .expr ts e) ∧
      ((∀ t ∈ ts.getLast?, t.endsOperand = false) → numbers ts ≤ operators ts ∧
        (numbers ts = operators ts → Expects ts)) := by
  induction h with
  | nil => exact ⟨by simp, by simp, fun _ => ⟨by simp, fun _ => .nil⟩⟩
  | @number ts n _ ih =>
    obtain ⟨hle, heq⟩ := (ih hs.left_of_append).2.2 (hs.last rfl)
    simp only [numbers_append, operators_append, numbers_cons, operators_cons, numbers_nil,
      operators_nil, Token.isNumber, Token.isOperator, if_true, Bool.false_eq_true, if_false]
    refine ⟨by omega, fun hn => ?_, fun hl => ?_⟩
    · exact (heq (by omega)).derives (.number n)
    · cases hl (.number n) (by simp)
  | @operator ts o _ ih =>
    obtain ⟨hle, heq, _⟩ := ih hs.left_of_append
    simp only [numbers_append, operators_append, numbers_cons, operators_cons, numbers_nil,
      operators_nil, Token.isNumber, Token.isOperator, if_true, Bool.false_eq_true, if_false]
    refine ⟨by omega, fun hn => by omega, fun _ => ⟨by omega, fun hn => ?_⟩⟩
    obtain ⟨e, he⟩ := heq (by omega)
    exact .operator o he
  | @group ts us p q hp hq _ _ iht ihu =>
    have hstart : (Token.parenthesis p).startsOperand = true := by
      simp [Token.startsOperand, Token.isOpening, hp]
    have hinner : Separated us := by
      have := hs.right_of_append.left_of_append
      exact this.tail
    obtain ⟨hle, heq⟩ := (iht hs.left_of_append).2.2 (hs.last hstart)
    obtain ⟨hleu, hequ, _⟩ := ihu hinner
    simp only [numbers_append, operators_append, numbers_cons, operators_cons, numbers_nil,
      operators_nil, Token.isNumber, Token.isOperator, Bool.false_eq_true, if_false]
    refine ⟨by omega, fun hn => ?_, fun hl => ?_⟩
    · obtain ⟨e, he⟩ := hequ (by omega)
      exact (heq (by omega)).derives (.group hp hq he)
    · have := hl (.parenthesis q) (by rw [← List.append_assoc, List.getLast?_concat]; rfl)
      simp [Token.endsOperand, Token.isClosing, hq] at this

/-- A text that has a value need not be an infix expression. It is one exactly if no operand
directly follows another. -/
theorem derives_iff_separated_of_calculate {text : String} {r : Reporter} {v : Int32}
    (h : (calculate text r).1 = .ok v) :
    ∃ ts, tokenize text = ts ++ [.endOfInput] ∧
      ((∃ e, Derives .expr ts e) ↔ Separated ts) := by
  obtain ⟨ts, htext, hts, hb, hn⟩ := balanced_of_calculate h
  refine ⟨ts, htext, ?_, ?_⟩
  · rintro ⟨e, he⟩
    exact he.separated
  · intro hs
    exact ((woven_of_balanced hb hts).derives hs).2.1 hn

theorem tokenize_sum : tokenize "1+2" =
    [.number ⟨⟨Source.ofText "<input>" "1+2", 0, 1⟩, 1⟩,
      .operator ⟨⟨Source.ofText "<input>" "1+2", 1, 2⟩, .plus⟩,
      .number ⟨⟨Source.ofText "<input>" "1+2", 2, 3⟩, 2⟩, .endOfInput] := by
  refine tokenize_of_lexes (by decide) ?_
  exact @Lexes.number _ 0 ['1'] ['+', '2'] _ _ (by simp) (by simp) (by simp) rfl <|
    .operator .plus <| @Lexes.number _ 2 ['2'] [] _ _ (by simp) (by simp) (by simp) rfl .stop

theorem derives_iff_separated_of_calculate_sum :
    (calculate "1+2" { policy := .discard }).1 = .ok 3 ∧
      ∃ ts, tokenize "1+2" = ts ++ [.endOfInput] ∧
        ((∃ e, Derives .expr ts e) ↔ Separated ts) := by
  have h : (calculate "1+2" { policy := .discard }).1 = .ok 3 := by
    rw [calculate_fst, tokenize_sum]
    rfl
  exact ⟨h, derives_iff_separated_of_calculate h⟩

theorem tokenize_juxtaposed : tokenize "1 2 +" =
    [.number ⟨⟨Source.ofText "<input>" "1 2 +", 0, 1⟩, 1⟩,
      .number ⟨⟨Source.ofText "<input>" "1 2 +", 2, 3⟩, 2⟩,
      .operator ⟨⟨Source.ofText "<input>" "1 2 +", 4, 5⟩, .plus⟩, .endOfInput] := by
  refine tokenize_of_lexes (by decide) ?_
  exact @Lexes.number _ 0 ['1'] [' ', '2', ' ', '+'] _ _ (by simp) (by simp) (by simp) rfl <|
    .blank rfl <| @Lexes.number _ 2 ['2'] [' ', '+'] _ _ (by simp) (by simp) (by simp) rfl <|
    .blank rfl <| .operator .plus .stop

/-- A text with both operands before the operator has a value. -/
theorem calculate_juxtaposed :
    (calculate "1 2 +" { policy := .discard }).1 = .ok 3 ∧
      ¬ ∃ ts e, tokenize "1 2 +" = ts ++ [.endOfInput] ∧ Derives .expr ts e := by
  constructor
  · rw [calculate_fst, tokenize_juxtaposed]
    rfl
  · rintro ⟨ts, e, hts, he⟩
    have heq := congrArg List.dropLast (tokenize_juxtaposed.symm.trans hts)
    rw [List.dropLast_concat] at heq
    have hs := he.separated
    rw [← heq] at hs
    cases (List.isChain_cons_cons.1 hs).1 rfl

end Reckon
