import Reckon.Proofs.Count
import Reckon.Proofs.Shape

/-! No token of a text is ignored. What its numbers and operators come to decides how a calculation
ends, unless an operator fails before that. -/

namespace Reckon

open TokenStream

/-- No token is a fault, and the parentheses match. -/
structure Intact (ts : List Token) : Prop where
  sound : ∀ t ∈ ts, t.isFault = false
  balanced : Balanced ts

variable {text : String} {ts us : List Token} {t : Token} {c c' : Calculator} {o : Operator}
  {f : Failure} {y : Yard}

theorem intact_concat_iff :
    Intact (ts ++ [.endOfInput]) ↔ (∀ t ∈ ts, t.isFault = false) ∧ Balanced ts := by
  constructor
  · rintro ⟨hs, hn, heq⟩
    refine ⟨fun t ht => hs t (List.mem_append_left _ ht), hn.of_append, ?_⟩
    simpa [Token.isOpening, Token.isClosing] using heq
  · rintro ⟨hs, hb⟩
    refine ⟨List.forall_mem_append.2 ⟨hs, by simp [Token.isFault]⟩, hb.append ?_⟩
    exact balanced_singleton rfl rfl

namespace Yard

/-- At the end of input nothing waits any more. -/
theorem waiting_after_of_ends (h : Ends ts) (hc : (y.after ts).isCorrect = true) :
    (y.after ts).waiting = 0 := by
  obtain ⟨us, t, rfl, _, ht⟩ := h
  have hus := isCorrect_of_append hc
  rw [after_append, after_singleton hus] at hc ⊢
  rcases ht with ht | rfl
  · have := ((isCorrect_accept_iff hus).1 hc).1
    rw [ht] at this
    cases this
  · rw [waiting, stack_accept_endOfInput]
    rfl

theorem isCorrect_after_iff_intact (h : Ends ts) :
    (({} : Yard).after ts).isCorrect = true ↔ Intact ts := by
  obtain ⟨us, t, rfl, hus, ht⟩ := h
  rcases ht with ht | rfl
  · constructor
    · intro hc
      have hcus := isCorrect_of_append hc
      rw [after_append, after_singleton hcus] at hc
      rw [((isCorrect_accept_iff hcus).1 hc).1] at ht
      cases ht
    · intro hi
      rw [hi.sound t (by simp)] at ht
      cases ht
  · rw [intact_concat_iff, isCorrect_after_concat_iff fun h => (hus _ h).2 rfl]

end Yard

namespace Calculator

/-- The first token that fails is the operator `o`, and it fails with `f`. -/
inductive Stops : Calculator → List Token → Operator → Failure → Prop where
  | here {c : Calculator} {ts : List Token} {o : Operator} {f : Failure}
    (h : c.accept (.operator o) = .error f) : Stops c (.operator o :: ts) o f
  | later {c c' : Calculator} {t : Token} {ts : List Token} {o : Operator} {f : Failure}
    (h : c.accept t = .ok c') : Stops c' ts o f → Stops c (t :: ts) o f

/-- The operators that are applied before a token fails, in that order. -/
def applied (c : Calculator) : List Token → List Operator
  | [] => []
  | t :: ts =>
    match c.accept t with
    | .ok c' => t.operator?.toList ++ c'.applied ts
    | .error _ => []

theorem Stops.foldlM (h : Stops c ts o f) : ts.foldlM accept c = .error f := by
  induction h with
  | here h => exact foldlM_cons_of_error h
  | later h _ ih => exact (foldlM_cons_of_ok h).trans ih

theorem Stops.append (h : Stops c ts o f) (us : List Token) : Stops c (ts ++ us) o f := by
  induction h with
  | here h => exact .here h
  | later h _ ih => exact .later h ih

theorem Stops.mem (h : Stops c ts o f) : .operator o ∈ ts := by
  induction h with
  | here => exact List.mem_cons_self
  | later _ _ ih => exact List.mem_cons_of_mem _ ih

theorem Stops.isAt (h : Stops c ts o f) : f.IsAt o := by
  induction h with
  | here h =>
    cases rejects_of_accept h with
    | operator hf => exact hf
  | later _ _ ih => exact ih

/-- Where no token fails, all operators are applied. -/
theorem applied_of_foldlM (h : ts.foldlM accept c = .ok c') : c.applied ts = operatorsOf ts := by
  induction ts generalizing c with
  | nil => rfl
  | cons t ts ih =>
    obtain ⟨c₁, ht, hts⟩ := exists_of_foldlM_cons h
    rw [operatorsOf_cons, ← ih hts, applied, ht]

/-- Numbers and operators leave a value behind, unless one of the operators fails. -/
theorem stops_or_foldlM (hts : ∀ t ∈ ts, t.isArithmetic = true) (c : Calculator) :
    (∃ o f, Stops c ts o f) ∨
      ∃ c', ts.foldlM accept c = .ok c' ∧ (c'.stack = [] → ts = []) := by
  induction ts generalizing c with
  | nil => exact Or.inr ⟨c, rfl, fun _ => rfl⟩
  | cons t ts ih =>
    obtain ⟨ht, hts⟩ := List.forall_mem_cons.1 hts
    rcases hc : c.accept t with f | c₁
    · cases rejects_of_accept hc with
      | @operator o => exact Or.inl ⟨o, f, .here hc⟩
      | parenthesis | fault | emptyExpression | expectedOperator => cases ht
    · rcases ih hts c₁ with ⟨o, f, hs⟩ | ⟨c₂, hfold, hnil⟩
      · exact Or.inl ⟨o, f, .later hc hs⟩
      · refine Or.inr ⟨c₂, ?_, ?_⟩
        · exact (foldlM_cons_of_ok hc).trans hfold
        · intro hempty
          have hts := hnil hempty
          subst hts
          cases hfold
          cases applies_of_accept hc with
          | number | operator => cases hempty
          | endOfInput => cases ht

end Calculator

/-- How the calculation of a text ends, and what that takes. -/
inductive Verdict (text : String) : Except Failure Int32 → Prop where
  | stopped {o : Operator} {f : Failure}
    (h : Calculator.Stops {} (toRpn (Scanner.ofText text)) o f) : Verdict text (.error f)
  | malformed {e : Fault} (h : ¬ Intact (tokenize text)) : Verdict text (.error (.malformed e))
  | empty (h : Intact (tokenize text)) (hn : numbers (tokenize text) = 0)
    (ho : operators (tokenize text) = 0) : Verdict text (.error .emptyExpression)
  | value {v : Int32} (h : Intact (tokenize text))
    (hn : numbers (tokenize text) = operators (tokenize text) + 1) : Verdict text (.ok v)
  | crowded (h : Intact (tokenize text))
    (hn : operators (tokenize text) + 2 ≤ numbers (tokenize text)) :
    Verdict text (.error .expectedOperator)

theorem intact_nil : Intact [] := ⟨by simp, balanced_nil⟩

theorem calculate_verdict (text : String) (r : Reporter) :
    ∃ x, (calculate text r).1 = x.mapError .evaluation ∧ Verdict text x := by
  refine ⟨_, calculate_fst text r, ?_⟩
  by_cases hne : text = ""
  · subst hne
    rw [tokenize_empty]
    exact .empty (by rw [tokenize_empty]; exact intact_nil) (by rw [tokenize_empty]; rfl)
      (by rw [tokenize_empty]; rfl)
  have hends := ends_tokenize hne
  obtain ⟨us, t, heq, hus, ht⟩ := Yard.released_ends (y := {}) hends rfl
  rw [heq, List.foldlM_append]
  rcases Calculator.stops_or_foldlM hus {} with ⟨o, f, hs⟩ | ⟨c, hc, hnil⟩
  · rw [hs.foldlM]
    refine .stopped (o := o) ?_
    rw [toRpn_ofText, heq]
    exact hs.append [t]
  · rw [hc]
    rcases ht with ⟨ht, hincorrect⟩ | ⟨rfl, hcorrect⟩
    · cases t with
      | fault e =>
        refine .malformed fun hi => ?_
        rw [(Yard.isCorrect_after_iff_intact hends).2 hi] at hincorrect
        cases hincorrect
      | _ => cases ht
    · have hintact := (Yard.isCorrect_after_iff_intact hends).1 hcorrect
      obtain ⟨hn, ho⟩ := Yard.released_counts hcorrect
      rw [heq, Yard.waiting_after_of_ends hends hcorrect] at ho
      rw [heq] at hn
      have hlen := Calculator.length_foldlM hc
      simp only [numbers_append, operators_append, numbers_cons, operators_cons, numbers_nil,
        operators_nil, Token.isNumber, Token.isOperator, Yard.waiting, List.countP_nil,
        List.length_nil, Bool.false_eq_true, if_false] at hn ho hlen
      -- As many values are left as there are more numbers than operators.
      rcases c with ⟨_ | ⟨v, _ | ⟨w, rest⟩⟩⟩
      · cases hnil rfl
        exact .empty hintact (by simpa using hn.symm) (by simpa using ho.symm)
      · simp only [List.length_cons, List.length_nil] at hlen
        exact .value hintact (by omega)
      · simp only [List.length_cons] at hlen
        exact .crowded hintact (by omega)

theorem verdict_of_error {r : Reporter} (h : (calculate text r).1 = .error (.evaluation f)) :
    Verdict text (.error f) := by
  obtain ⟨e | v, hx, hv⟩ := calculate_verdict text r
  · rw [h] at hx
    cases hx
    exact hv
  · rw [h] at hx
    cases hx

theorem verdict_of_ok {r : Reporter} {v : Int32} (h : (calculate text r).1 = .ok v) :
    Verdict text (.ok v) := by
  obtain ⟨e | v, hx, hv⟩ := calculate_verdict text r
  · rw [h] at hx
    cases hx
  · rw [h] at hx
    cases hx
    exact hv

/-- An operator among what is released stands in the text. -/
theorem mem_tokenize_of_stops (h : Calculator.Stops {} (toRpn (Scanner.ofText text)) o f) :
    .operator o ∈ tokenize text := by
  rw [toRpn_ofText] at h
  obtain ⟨lost, hp, _⟩ := Yard.perm_released {} (tokenize text)
  have ho := hp.subset (List.mem_append_left _ (mem_operatorsOf.2 h.mem))
  exact mem_operatorsOf.1 (by simpa using ho)

theorem calculate_of_stops (h : Calculator.Stops {} (toRpn (Scanner.ofText text)) o f)
    (r : Reporter) : (calculate text r).1 = .error (.evaluation f) := by
  rw [toRpn_ofText] at h
  rw [calculate_fst, h.foldlM]
  rfl

theorem after_tokenize (h : Intact (tokenize text)) :
    (({} : Yard).after (tokenize text)).isCorrect = true ∧
      Yard.held (({} : Yard).after (tokenize text)).stack = [] := by
  by_cases hne : text = ""
  · subst hne
    rw [tokenize_empty]
    exact ⟨rfl, rfl⟩
  · have hends := ends_tokenize hne
    have hc := (Yard.isCorrect_after_iff_intact hends).2 h
    refine ⟨hc, ?_⟩
    rw [← List.length_eq_zero_iff, Yard.length_held]
    exact Yard.waiting_after_of_ends hends hc

/-- All operators of a text whose parentheses match are released. -/
theorem perm_operatorsOf (h : Intact (tokenize text)) :
    (operatorsOf (toRpn (Scanner.ofText text))).Perm (operatorsOf (tokenize text)) := by
  obtain ⟨hc, hheld⟩ := after_tokenize h
  obtain ⟨lost, hp, hl⟩ := Yard.perm_released {} (tokenize text)
  rw [hheld, hl hc] at hp
  rw [toRpn_ofText]
  simpa using hp

theorem Scanner.state_drain (s : Scanner) : (drain s).2.state = .ended := by
  fun_induction drain s with
  | case1 s s' h =>
    obtain ⟨rfl, he⟩ := ended_of_next h
    exact he
  | case2 s t s' h _ _ ih => exact ih

/-- Unless a fault ends it early, reverse Polish notation drains its supply. -/
theorem Rpn.drain_scanner (p : Rpn Scanner) :
    (drain p).2.yard = p.yard.after (toList p.supply) ∧
      ((drain p).2.isCorrect = true → (drain p).2.supply = (drain p.supply).2) := by
  induction p using drain_induction with
  | ready p t ready hr ih =>
    rw [drain_of_some (next_of_ready hr)]
    exact ih
  | failed p hr hc =>
    rw [drain_of_none (next_of_incorrect hr hc)]
    refine ⟨(Yard.after_of_incorrect hc _).symm, fun h => ?_⟩
    rw [hc] at h
    cases h
  | dry p supply hr hc hs =>
    rw [drain_of_none (next_of_none hr hc hs), drain_of_none hs, toList_of_none hs]
    exact ⟨rfl, fun _ => rfl⟩
  | pull p t supply hr hc hs ih =>
    have hc' : p.yard.isCorrect = true := hc
    rw [drain_congr (next_of_some hr hc hs), drain_of_some hs, toList_of_some hs]
    simp only [Yard.after, hc', if_true]
    exact ih

/-- A calculation that has a value has applied all that was released, and has read its text to the
end. -/
theorem applied_and_drained_of_ok {r : Reporter} {v : Int32} (h : (calculate text r).1 = .ok v)
    (hi : Intact (tokenize text)) :
    (({} : Calculator).applied (toRpn (Scanner.ofText text))) =
        operatorsOf (toRpn (Scanner.ofText text)) ∧
      (calculateFrom text (Scanner.ofText text)).2 = (drain (Scanner.ofText text)).2 := by
  let p := Rpn.ofStream (Scanner.ofText text)
  change (evaluate p).1.mapError Error.evaluation = .ok v at h
  change _ ∧ (evaluate p).2.supply = _
  obtain ⟨j, k, he⟩ := evaluate_eq p
  -- A scanner keeps no notes.
  have hnote : note j p = p := rfl
  rw [hnote] at he
  rcases hrun : (Calculator.run {} p).1 with e | c
  · rw [he, hrun] at h
    cases h
  · constructor
    · have hfold := Calculator.run_fst {} p
      rw [hrun] at hfold
      exact Calculator.applied_of_foldlM hfold.symm
    · have hdrain := Rpn.drain_scanner p
      have hc : (drain p).2.isCorrect = true := by
        rw [Rpn.isCorrect, hdrain.1]
        exact (after_tokenize hi).1
      rw [he, Calculator.run_snd_of_ok hrun]
      exact hdrain.2 hc

/-- Blanks are no tokens. -/
theorem tokenize_of_isBlank (hne : text ≠ "") (h : ∀ c ∈ text.toList, Text.isBlank c = true) :
    tokenize text = [.endOfInput] := by
  refine tokenize_of_lexes hne ?_
  generalize Source.ofText "<input>" text = source
  generalize text.toList = cs at h
  generalize 0 = i
  induction cs generalizing i with
  | nil => exact .stop
  | cons c cs ih =>
    obtain ⟨hc, hcs⟩ := List.forall_mem_cons.1 h
    exact .blank hc (ih hcs _)

/-- A text that has a value has matching parentheses and one number more than operators. -/
theorem balanced_of_calculate {r : Reporter} {v : Int32} (h : (calculate text r).1 = .ok v) :
    ∃ ts, tokenize text = ts ++ [.endOfInput] ∧ (∀ t ∈ ts, t.isFault = false ∧ t ≠ .endOfInput) ∧
      Balanced ts ∧ numbers ts = operators ts + 1 := by
  cases verdict_of_ok h with
  | value hi hn =>
    have hne : text ≠ "" := by
      rintro rfl
      rw [tokenize_empty] at hn
      cases hn
    obtain ⟨ts, t, heq, hts, ht⟩ := ends_tokenize hne
    rw [heq] at hi hn
    rcases ht with ht | rfl
    · rw [hi.sound t (by simp)] at ht
      cases ht
    · refine ⟨ts, heq, hts, (intact_concat_iff.1 hi).2, ?_⟩
      simpa [Token.isNumber, Token.isOperator] using hn

theorem operators_pos_of_stops (h : Calculator.Stops {} (toRpn (Scanner.ofText text)) o f) :
    0 < operators (tokenize text) :=
  List.countP_pos_iff.2 ⟨_, mem_tokenize_of_stops h, rfl⟩

theorem calculate_empty_iff (r : Reporter) :
    (calculate text r).1 = .error (.evaluation .emptyExpression) ↔
      Intact (tokenize text) ∧ numbers (tokenize text) = 0 ∧ operators (tokenize text) = 0 := by
  constructor
  · intro h
    cases verdict_of_error h with
    | stopped hs => exact (Failure.not_isAt_emptyExpression _ hs.isAt).elim
    | empty hi hn ho => exact ⟨hi, hn, ho⟩
  · rintro ⟨hi, hn, ho⟩
    obtain ⟨x, hx, hv⟩ := calculate_verdict text r
    rw [hx]
    cases hv with
    | stopped hs =>
      have := operators_pos_of_stops hs
      omega
    | malformed h => exact (h hi).elim
    | empty => rfl
    | value | crowded => omega

theorem calculate_expectedOperator_iff (r : Reporter) :
    (calculate text r).1 = .error (.evaluation .expectedOperator) ↔
      Intact (tokenize text) ∧ operators (tokenize text) + 2 ≤ numbers (tokenize text) ∧
        ¬ ∃ o f, Calculator.Stops {} (toRpn (Scanner.ofText text)) o f := by
  constructor
  · intro h
    cases verdict_of_error h with
    | stopped hs => exact (Failure.not_isAt_expectedOperator _ hs.isAt).elim
    | crowded hi hn =>
      refine ⟨hi, hn, ?_⟩
      rintro ⟨o, f, hs⟩
      have := calculate_of_stops hs r
      rw [h] at this
      cases this
      exact Failure.not_isAt_expectedOperator o hs.isAt
  · rintro ⟨hi, hn, hs⟩
    obtain ⟨x, hx, hv⟩ := calculate_verdict text r
    rw [hx]
    cases hv with
    | stopped h => exact (hs ⟨_, _, h⟩).elim
    | malformed h => exact (h hi).elim
    | empty | value => omega
    | crowded => rfl

/-- Where there are no more numbers than operators, one of the operators fails. -/
theorem exists_stops_of_le (hi : Intact (tokenize text))
    (hle : numbers (tokenize text) ≤ operators (tokenize text))
    (hne : ¬ (numbers (tokenize text) = 0 ∧ operators (tokenize text) = 0)) :
    ∃ o f, Calculator.Stops {} (toRpn (Scanner.ofText text)) o f := by
  obtain ⟨x, _, hv⟩ := calculate_verdict text { policy := .discard }
  cases hv with
  | stopped h => exact ⟨_, _, h⟩
  | malformed h => exact (h hi).elim
  | empty _ hn ho => exact (hne ⟨hn, ho⟩).elim
  | value | crowded => omega

/-- What has a value has been read to the end, and each of its operators has been applied once.
Whether there is a value, nothing or too much to calculate is a matter of counting numbers and
operators, unless the text has a fault or an operator fails first. Too few numbers always make an
operator fail. -/
theorem calculate_conserves (text : String) (r : Reporter) :
    (∀ v, (calculate text r).1 = .ok v →
      Intact (tokenize text) ∧ numbers (tokenize text) = operators (tokenize text) + 1 ∧
      .endOfInput ∈ tokenize text ∧
      (calculateFrom text (Scanner.ofText text)).2 = (drain (Scanner.ofText text)).2 ∧
      (calculateFrom text (Scanner.ofText text)).2.state = .ended ∧
      (({} : Calculator).applied (toRpn (Scanner.ofText text))).Perm
        (operatorsOf (tokenize text))) ∧
    ((calculate text r).1 = .error (.evaluation .emptyExpression) ↔
      Intact (tokenize text) ∧ numbers (tokenize text) = 0 ∧ operators (tokenize text) = 0) ∧
    ((∀ c ∈ text.toList, Text.isBlank c = true) →
      (calculate text r).1 = .error (.evaluation .emptyExpression)) ∧
    ((calculate text r).1 = .error (.evaluation .expectedOperator) ↔
      Intact (tokenize text) ∧ operators (tokenize text) + 2 ≤ numbers (tokenize text) ∧
        ¬ ∃ o f, Calculator.Stops {} (toRpn (Scanner.ofText text)) o f) ∧
    (∀ o f, Calculator.Stops {} (toRpn (Scanner.ofText text)) o f →
      .operator o ∈ tokenize text ∧ f.IsAt o ∧ (calculate text r).1 = .error (.evaluation f)) ∧
    (Intact (tokenize text) → numbers (tokenize text) ≤ operators (tokenize text) →
      ¬ (numbers (tokenize text) = 0 ∧ operators (tokenize text) = 0) →
      ∃ o f, .operator o ∈ tokenize text ∧ f.IsAt o ∧
        (calculate text r).1 = .error (.evaluation f)) := by
  refine ⟨?_, calculate_empty_iff r, ?_, calculate_expectedOperator_iff r, ?_, ?_⟩
  · intro v hv
    cases verdict_of_ok hv with
    | value hi hn =>
      obtain ⟨happlied, hdrain⟩ := applied_and_drained_of_ok hv hi
      obtain ⟨ts, hts, _⟩ := balanced_of_calculate hv
      refine ⟨hi, hn, ?_, hdrain, ?_, ?_⟩
      · rw [hts]
        exact List.mem_append_right _ List.mem_cons_self
      · rw [hdrain]
        exact Scanner.state_drain _
      · rw [happlied]
        exact perm_operatorsOf hi
  · intro hblank
    refine (calculate_empty_iff r).2 ?_
    by_cases hne : text = ""
    · subst hne
      rw [tokenize_empty]
      exact ⟨intact_nil, rfl, rfl⟩
    · rw [tokenize_of_isBlank hne hblank]
      have hi : Intact ([] ++ [.endOfInput]) := intact_concat_iff.2 ⟨by simp, balanced_nil⟩
      exact ⟨hi, rfl, rfl⟩
  · intro o f hs
    exact ⟨mem_tokenize_of_stops hs, hs.isAt, calculate_of_stops hs r⟩
  · intro hi hle hne
    obtain ⟨o, f, hs⟩ := exists_stops_of_le hi hle hne
    exact ⟨o, f, mem_tokenize_of_stops hs, hs.isAt, calculate_of_stops hs r⟩

/-- The plus has an operand too few. -/
theorem calculate_conserves_dangling :
    (Intact (tokenize "1+") ∧ numbers (tokenize "1+") = 1 ∧ operators (tokenize "1+") = 1) ∧
      ∃ o f, .operator o ∈ tokenize "1+" ∧ f.IsAt o ∧
        (calculate "1+" { policy := .discard }).1 = .error (.evaluation f) := by
  have htext : tokenize "1+" =
      [.number ⟨⟨Source.ofText "<input>" "1+", 0, 1⟩, 1⟩,
        .operator ⟨⟨Source.ofText "<input>" "1+", 1, 2⟩, .plus⟩, .endOfInput] := by
    refine tokenize_of_lexes (by decide) ?_
    exact @Lexes.number _ 0 ['1'] ['+'] _ _ (by simp) (by simp) (by simp) rfl
      (.operator .plus .stop)
  have hi : Intact (tokenize "1+") := by
    rw [htext]
    exact ⟨by simp [Token.isFault], by decide⟩
  have hn : numbers (tokenize "1+") = 1 := by rw [htext]; rfl
  have ho : operators (tokenize "1+") = 1 := by rw [htext]; rfl
  refine ⟨⟨hi, hn, ho⟩, ?_⟩
  exact (calculate_conserves "1+" _).2.2.2.2.2 hi (by omega) (by omega)

end Reckon
