import Reckon.Proofs.Calculator
import Reckon.Proofs.Pulls

/-! Which tokens a failure blames. -/

namespace Reckon

/-- The failure names a fault or an operator of the list, or finds fault with one of its
parentheses. -/
inductive Failure.Blames (ts : List Token) : Failure → Prop where
  | fault {e : Fault} (h : .fault e ∈ ts) : Blames ts (.malformed e)
  | parenthesis {p : Parenthesis} {e : Fault} (h : .parenthesis p ∈ ts)
    (he : e = .unopened p ∨ e = .unclosed p) : Blames ts (.malformed e)
  | operator {o : Operator} {f : Failure} (h : .operator o ∈ ts) (hf : f.IsAt o) : Blames ts f

variable {ts us : List Token} {c c' : Calculator} {f : Failure}

theorem Failure.Blames.mono (h : f.Blames ts) (hs : ∀ t ∈ ts, t.isNumber = false → t ∈ us) :
    f.Blames us := by
  cases h with
  | fault h => exact .fault (hs _ h rfl)
  | parenthesis h he => exact .parenthesis (hs _ h rfl) he
  | operator h hf => exact .operator (hs _ h rfl) hf

namespace Calculator

theorem exists_of_foldlM_error (h : ts.foldlM accept c = .error f) :
    ∃ t ∈ ts, ∃ c' : Calculator, c'.accept t = .error f := by
  induction ts generalizing c with
  | nil => cases h
  | cons t ts ih =>
    rcases ht : c.accept t with g | c₁
    · rw [foldlM_cons_of_error ht] at h
      cases h
      exact ⟨t, List.mem_cons_self, c, ht⟩
    · rw [foldlM_cons_of_ok ht] at h
      obtain ⟨u, hu, hr⟩ := ih h
      exact ⟨u, List.mem_cons_of_mem t hu, hr⟩

/-- Only a division fails on a zero. -/
theorem kind_of_divisionByZero {o o' : Operator}
    (h : c.accept (.operator o) = .error (.divisionByZero o')) : o.kind = .divide := by
  rcases c with ⟨_ | ⟨b, _ | ⟨a, rest⟩⟩⟩
  · cases h
  · cases h
  · cases ho : o.apply a b with
    | ok v =>
      simp only [accept, ho] at h
      cases h
    | error e =>
      simp only [accept, ho] at h
      cases h
      unfold Operator.apply at ho
      split at ho
      · next hd => exact hd.1
      · split at ho <;> cases ho

theorem isFault_of_foldlM (h : ts.foldlM accept c = .ok c') :
    ∀ t ∈ ts, t.isFault = false := by
  induction ts generalizing c with
  | nil => simp
  | cons t ts ih =>
    obtain ⟨c₁, ht, hts⟩ := exists_of_foldlM_cons h
    refine List.forall_mem_cons.2 ⟨?_, ih hts⟩
    cases applies_of_accept ht <;> rfl

end Calculator

theorem Yard.not_mem_released_parenthesis (p : Parenthesis) (y : Yard) :
    .parenthesis p ∉ y.released ts := by
  induction ts generalizing y with
  | nil => simp [released]
  | cons t ts ih =>
    by_cases hy : y.isCorrect = true
    · rw [released_cons hy, List.mem_append, not_or]
      refine ⟨?_, ih _⟩
      intro h
      have ho := y.accept_outcome t
      generalize y.accept t = r at h ho
      cases ho with
      | pass hus => cases hus _ h
      | finish hus | fail hus =>
        rcases List.mem_append.1 h with h | h
        · cases hus _ h
        · cases List.mem_singleton.1 h
    · simp [released_of_incorrect (by simpa using hy)]

theorem evaluate_ofStream (ts : List Token) :
    (evaluate (Rpn.ofStream ts)).1 =
      (({} : Yard).released ts).foldlM Calculator.accept {} >>= Calculator.result := by
  rw [evaluate_fst, Rpn.toList_eq]
  simp [Rpn.ofStream]

/-- Where evaluation fails, an operator fails or a fault is met, unless it is the number of values
that is wrong. -/
theorem cause_of_foldlM
    (h : ((({} : Yard).released ts).foldlM Calculator.accept {} >>= Calculator.result) =
      .error f) :
    (∃ o, .operator o ∈ ts ∧ f.IsAt o ∧ (f = .divisionByZero o → o.kind = .divide)) ∨
      (∃ e, .fault e ∈ ({} : Yard).released ts ∧ f = .malformed e) ∨
      f = .expectedOperator ∨ f = .emptyExpression := by
  rcases hfold : (({} : Yard).released ts).foldlM Calculator.accept {} with g | c
  · rw [hfold] at h
    cases h
    obtain ⟨t, ht, c, hc⟩ := Calculator.exists_of_foldlM_error hfold
    cases Calculator.rejects_of_accept hc with
    | @operator o _ hf =>
      refine Or.inl ⟨o, ?_, hf, ?_⟩
      · rcases Yard.mem_released ht rfl with ht | ⟨_, _, hw⟩
        · exact ht
        · cases hw
      · rintro rfl
        exact Calculator.kind_of_divisionByZero hc
    | parenthesis p => exact (Yard.not_mem_released_parenthesis p _ ht).elim
    | fault e => exact Or.inr (Or.inl ⟨e, ht, rfl⟩)
    | emptyExpression => exact Or.inr (Or.inr (Or.inr rfl))
    | expectedOperator => exact Or.inr (Or.inr (Or.inl rfl))
  · rw [hfold] at h
    rcases c with ⟨_ | ⟨v, stack⟩⟩
    · cases h
      exact Or.inr (Or.inr (Or.inr rfl))
    · cases h

theorem blames_of_foldlM
    (h : ((({} : Yard).released ts).foldlM Calculator.accept {} >>= Calculator.result) =
      .error f) :
    f.Blames ts ∨ f = .expectedOperator ∨ f = .emptyExpression := by
  rcases cause_of_foldlM h with ⟨o, ho, hf, _⟩ | ⟨e, he, rfl⟩ | hf
  · exact Or.inl (.operator ho hf)
  · rcases Yard.fault_of_mem_released he with he | ⟨p, hp | hw, he⟩
    · exact Or.inl (.fault he)
    · exact Or.inl (.parenthesis hp he)
    · cases hw
  · exact Or.inr hf

end Reckon
