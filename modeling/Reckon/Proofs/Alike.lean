import Reckon.Proofs.Calculator
import Reckon.Proofs.Lexemes

/-! Evaluation does not depend on where the tokens stand. -/

namespace Reckon

/-- What goes wrong, apart from where. -/
inductive Failure.Kind where
  | malformed
  | missingOperand
  | divisionByZero
  | overflow
  | unexpectedParenthesis
  | expectedOperator
  | emptyExpression
  deriving DecidableEq

def Failure.kind : Failure → Kind
  | malformed _ => .malformed
  | missingOperand _ => .missingOperand
  | divisionByZero _ => .divisionByZero
  | overflow _ => .overflow
  | unexpectedParenthesis _ => .unexpectedParenthesis
  | expectedOperator => .expectedOperator
  | emptyExpression => .emptyExpression

/-- The token at place `k` is the first that fails, and it fails with `f`. -/
inductive Calculator.RejectsAt : Calculator → List Token → Nat → Failure → Prop where
  | here {c : Calculator} {t : Token} {ts : List Token} {f : Failure} (h : c.accept t = .error f) :
      RejectsAt c (t :: ts) 0 f
  | later {c c' : Calculator} {t : Token} {ts : List Token} {k : Nat} {f : Failure}
      (h : c.accept t = .ok c') : RejectsAt c' ts k f → RejectsAt c (t :: ts) (k + 1) f

/-- The results of evaluating two lists of tokens: one and the same value, or failures of one kind,
each at the same place of its list. -/
inductive Alike (ts us : List Token) : Except Failure Int32 → Except Failure Int32 → Prop where
  | value (v : Int32) : Alike ts us (.ok v) (.ok v)
  | failure {k : Nat} {f g : Failure} (hf : Calculator.RejectsAt {} ts k f)
      (hg : Calculator.RejectsAt {} us k g) (h : f.kind = g.kind) :
      Alike ts us (.error f) (.error g)

variable {ts us : List Token} {t u : Token} {c c' : Calculator} {f g : Failure} {k : Nat}

namespace Calculator

theorem RejectsAt.foldlM (h : RejectsAt c ts k f) : ts.foldlM accept c = .error f := by
  induction h with
  | here h => exact foldlM_cons_of_error h
  | later h _ ih => exact (foldlM_cons_of_ok h).trans ih

theorem foldlM_eq_error_iff : ts.foldlM accept c = .error f ↔ ∃ k, RejectsAt c ts k f := by
  constructor
  · intro h
    induction ts generalizing c with
    | nil => cases h
    | cons t ts ih =>
      rcases hc : c.accept t with g | c'
      · rw [foldlM_cons_of_error hc] at h
        cases h
        exact ⟨0, .here hc⟩
      · rw [foldlM_cons_of_ok hc] at h
        obtain ⟨k, hk⟩ := ih h
        exact ⟨k + 1, .later hc hk⟩
  · rintro ⟨k, hk⟩
    exact hk.foldlM

theorem apply_congr {o o' : Operator} (h : o.kind = o'.kind) (a b : Int32) :
    (∃ v, o.apply a b = .ok v ∧ o'.apply a b = .ok v) ∨
      ∃ f g, o.apply a b = .error f ∧ o'.apply a b = .error g ∧ f.kind = g.kind := by
  unfold Operator.apply
  rw [h]
  by_cases hz : o'.kind = .divide ∧ b = 0
  · exact Or.inr ⟨_, _, if_pos hz, if_pos hz, rfl⟩
  · rw [if_neg hz, if_neg hz]
    cases narrow? (o'.kind.exact a.toInt b.toInt) with
    | none => exact Or.inr ⟨_, _, rfl, rfl, rfl⟩
    | some v => exact Or.inl ⟨v, rfl, rfl⟩

/-- What a token does to a calculator does not depend on where the token stands. -/
theorem accept_congr (h : t.lexeme = u.lexeme) (c : Calculator) :
    (∃ c', c.accept t = .ok c' ∧ c.accept u = .ok c') ∨
      ∃ f g, c.accept t = .error f ∧ c.accept u = .error g ∧ f.kind = g.kind := by
  cases t with
  | number n =>
    cases u with
    | number m =>
      have hv : n.value = m.value := Int32.toInt_inj.1 (Lexeme.number.inj h).2
      exact Or.inl ⟨_, rfl, by simp [accept, hv]⟩
    | _ => cases h
  | operator o =>
    cases u with
    | operator o' =>
      have hk : o.kind = o'.kind := (Lexeme.operator.inj h).2
      rcases c with ⟨_ | ⟨b, _ | ⟨a, rest⟩⟩⟩
      · exact Or.inr ⟨_, _, rfl, rfl, rfl⟩
      · exact Or.inr ⟨_, _, rfl, rfl, rfl⟩
      · rcases apply_congr hk a b with ⟨v, hv, hv'⟩ | ⟨f, g, hf, hg, hfg⟩
        · refine Or.inl ⟨⟨v :: rest⟩, ?_, ?_⟩
          · simp [accept, hv, Except.map]
          · simp [accept, hv', Except.map]
        · refine Or.inr ⟨f, g, ?_, ?_, hfg⟩
          · simp [accept, hf, Except.map]
          · simp [accept, hg, Except.map]
    | _ => cases h
  | parenthesis p =>
    cases u with
    | parenthesis q => exact Or.inr ⟨_, _, rfl, rfl, rfl⟩
    | _ => cases h
  | fault e =>
    cases u with
    | fault e' => exact Or.inr ⟨_, _, rfl, rfl, rfl⟩
    | _ => cases h
  | endOfInput =>
    cases u with
    | endOfInput =>
      cases hc : c.accept .endOfInput with
      | ok c' => exact Or.inl ⟨c', rfl, rfl⟩
      | error f => exact Or.inr ⟨f, f, rfl, rfl, rfl⟩
    | _ => cases h

theorem foldlM_congr (h : ts.map Token.lexeme = us.map Token.lexeme) (c : Calculator) :
    (∃ c', ts.foldlM accept c = .ok c' ∧ us.foldlM accept c = .ok c') ∨
      ∃ k f g, RejectsAt c ts k f ∧ RejectsAt c us k g ∧ f.kind = g.kind := by
  induction ts generalizing us c with
  | nil =>
    cases us with
    | nil => exact Or.inl ⟨c, rfl, rfl⟩
    | cons u us => cases h
  | cons t ts ih =>
    cases us with
    | nil => cases h
    | cons u us =>
      obtain ⟨htu, htus⟩ := List.cons.inj h
      rcases accept_congr htu c with ⟨c', ht, hu⟩ | ⟨f, g, ht, hu, hfg⟩
      · rcases ih htus c' with ⟨c'', hts, hus⟩ | ⟨k, f, g, hf, hg, hfg⟩
        · exact Or.inl ⟨c'', (foldlM_cons_of_ok ht).trans hts, (foldlM_cons_of_ok hu).trans hus⟩
        · exact Or.inr ⟨k + 1, f, g, .later ht hf, .later hu hg, hfg⟩
      · exact Or.inr ⟨0, f, g, .here ht, .here hu, hfg⟩

/-- Past the end of input there is a value. -/
theorem exists_value_of_foldlM (h : (ts ++ [Token.endOfInput]).foldlM accept c = .ok c') :
    ∃ v, c'.result = .ok v := by
  obtain ⟨c₁, -, hend⟩ := exists_of_foldlM_append h
  obtain ⟨c₂, ht, hnil⟩ := exists_of_foldlM_cons hend
  cases hnil
  cases applies_of_accept ht with
  | @endOfInput v hs => exact ⟨v, by simp [result, hs]⟩

end Calculator

/-- Without a fault the end of input is the last token, and only the last. -/
theorem exists_concat_of_ends (h : Ends ts) (hf : ∀ t ∈ ts, t.isFault = false) :
    ∃ us, ts = us ++ [.endOfInput] ∧ ∀ u ∈ us, u ≠ .endOfInput := by
  obtain ⟨us, t, rfl, hus, ht | rfl⟩ := h
  · simp [hf t (by simp)] at ht
  · exact ⟨us, rfl, fun u hu => (hus u hu).2⟩

/-- Tokens that end with the end of input, evaluated where they are and from another place. -/
theorem alike_of_lexemes (h : Ends ts) (hf : ∀ t ∈ ts, t.isFault = false)
    (hl : us.map Token.lexeme = ts.map Token.lexeme) :
    Alike ts us (ts.foldlM Calculator.accept {} >>= Calculator.result)
      (us.foldlM Calculator.accept {} >>= Calculator.result) := by
  rcases Calculator.foldlM_congr hl.symm {} with ⟨c, hts, hus⟩ | ⟨k, f, g, hts, hus, hfg⟩
  · obtain ⟨vs, rfl, _⟩ := exists_concat_of_ends h hf
    obtain ⟨v, hv⟩ := Calculator.exists_value_of_foldlM hts
    rw [hts, hus]
    simp only [bind, Except.bind, hv]
    exact .value v
  · rw [hts.foldlM, hus.foldlM]
    exact .failure hts hus hfg

end Reckon
