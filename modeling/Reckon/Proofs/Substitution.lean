import Reckon.Proofs.Blame

/-! A part in parentheses that has a value may be replaced by that value, whatever stands around
it. -/

namespace Reckon

variable {y : Yard} {t : Token} {ts us : List Token} {stack below : List Pending}
  {p q : Parenthesis} {c : Calculator} {vs ws : List Int32}

namespace Yard

/-- The yard with an opening parenthesis and more entries below its own. -/
def above (y : Yard) (p : Parenthesis) (below : List Pending) : Yard :=
  { y with stack := y.stack ++ .opening p :: below }

theorem releaseFrom_append (level : Int) (stack : List Pending) (p : Parenthesis)
    (below : List Pending) :
    releaseFrom level (stack ++ .opening p :: below) =
      ((releaseFrom level stack).1, (releaseFrom level stack).2 ++ .opening p :: below) := by
  induction stack with
  | nil => rfl
  | cons e stack ih =>
    cases e with
    | opening => rfl
    | operator o =>
      rw [List.cons_append, releaseFrom, releaseFrom]
      split
      · rfl
      · rw [ih]

theorem releaseToOpening_append (stack : List Pending) (p : Parenthesis) (below : List Pending) :
    releaseToOpening (stack ++ .opening p :: below) =
      ((releaseToOpening stack).1, some (((releaseToOpening stack).2).elim (p, below)
        fun r => (r.1, r.2 ++ .opening p :: below))) := by
  induction stack with
  | nil => rfl
  | cons e stack ih =>
    cases e with
    | opening => rfl
    | operator o =>
      rw [List.cons_append, releaseToOpening, releaseToOpening, ih]

/-- As long as it stays correct, a yard does not look below an opening parenthesis. -/
theorem accept_above (he : t ≠ .endOfInput) (hc : (y.accept t).2.isCorrect = true)
    (p : Parenthesis) (below : List Pending) :
    (y.above p below).accept t = ((y.accept t).1, (y.accept t).2.above p below) := by
  cases t with
  | number n => rfl
  | operator o =>
    simp [accept, above, releaseFrom_append]
  | parenthesis p' =>
    cases hp : p'.isOpen with
    | true => simp [accept, above, hp]
    | false =>
      rcases hr : releaseToOpening y.stack with ⟨released, _ | ⟨p'', rest⟩⟩
      · simp [accept, hp, hr] at hc
      · simp [accept, above, hp, releaseToOpening_append, hr]
  | fault e => cases hc
  | endOfInput => exact (he rfl).elim

theorem after_above (he : .endOfInput ∉ ts) (hc : (y.after ts).isCorrect = true)
    (p : Parenthesis) (below : List Pending) :
    (y.above p below).after ts = (y.after ts).above p below ∧
      (y.above p below).released ts = y.released ts := by
  induction ts generalizing y with
  | nil => exact ⟨rfl, rfl⟩
  | cons t ts ih =>
    have het : t ≠ .endOfInput := fun h => he (h ▸ List.mem_cons_self)
    have hets : .endOfInput ∉ ts := fun h => he (List.mem_cons_of_mem t h)
    have hy : y.isCorrect = true := isCorrect_of_after hc
    have hover : (y.above p below).isCorrect = true := hy
    simp only [after, hy, if_true] at hc
    have ha := accept_above het (isCorrect_of_after hc) p below
    obtain ⟨hafter, hreleased⟩ := ih hets hc
    simp only [after, released, hy, hover, if_true, ha, hafter, hreleased, and_self]

/-- A yard that fails has released a fault. -/
theorem exists_fault_of_after (hy : y.isCorrect = true) (hc : (y.after ts).isCorrect = false) :
    ∃ e, .fault e ∈ y.released ts := by
  induction ts generalizing y with
  | nil =>
    rw [after, hy] at hc
    cases hc
  | cons t ts ih =>
    simp only [after, hy, if_true] at hc
    rw [released_cons hy]
    by_cases ht : (y.accept t).2.isCorrect = true
    · obtain ⟨e, he⟩ := ih ht hc
      exact ⟨e, List.mem_append_right _ he⟩
    · have ho := y.accept_outcome t
      generalize y.accept t = r at ht ho
      cases ho with
      | pass _ _ _ hr => exact (ht (hr.trans hy)).elim
      | finish _ hr => exact (ht (hr.trans hy)).elim
      | @fail _ us e =>
        exact ⟨e, List.mem_append_left _ (List.mem_append_right _ List.mem_cons_self)⟩

/-- The closing parenthesis releases what the end of input would. -/
theorem exists_released_group (he : .endOfInput ∉ ts) (hp : p.isOpen = true)
    (hq : q.isOpen = false)
    (hc : (({} : Yard).after (ts ++ [.endOfInput])).isCorrect = true) :
    ∃ us, ({} : Yard).released (ts ++ [.endOfInput]) = us ++ [.endOfInput] ∧
      .endOfInput ∉ us ∧ ∀ y : Yard, y.isCorrect = true →
        y.released (.parenthesis p :: ts ++ [.parenthesis q]) = us ∧
          y.after (.parenthesis p :: ts ++ [.parenthesis q]) = y := by
  have hts := isCorrect_of_append hc
  obtain ⟨stack, hyard⟩ : ∃ stack, ({} : Yard).after ts = ⟨stack, true⟩ :=
    ⟨_, congrArg (Yard.mk (({} : Yard).after ts).stack) hts⟩
  rw [after_append, hyard, after_singleton rfl] at hc
  obtain ⟨os, ⟨rfl, hr⟩ | ⟨p', rest, rfl, hr⟩⟩ := exists_releaseToOpening stack
  · refine ⟨({} : Yard).released ts ++ os.map .operator, ?_, ?_, ?_⟩
    · simp [released_append, hyard, released, accept, hr]
    · intro h
      rcases List.mem_append.1 h with h | h
      · rcases mem_released h rfl with h | ⟨o, h, _⟩
        · exact he h
        · cases h
      · cases isArithmetic_of_mem_operators os _ h
    · rintro ⟨below, b⟩ rfl
      obtain ⟨hafter, hreleased⟩ := after_above he hts p below
      have hopen : accept ⟨below, true⟩ (.parenthesis p) = ([], ({} : Yard).above p below) := by
        simp [accept, hp, above]
      have hclose : ((({} : Yard).above p below).after ts).accept (.parenthesis q) =
          (os.map .operator, ⟨below, true⟩) := by
        rw [hafter, hyard]
        simp [accept, hq, above, releaseToOpening_append, hr]
      have hcorrect : ((({} : Yard).above p below).after ts).isCorrect = true := by
        rw [hafter]
        exact hts
      constructor
      · rw [List.cons_append, released_cons rfl, hopen, released_append, hreleased]
        simp [released, hcorrect, hclose]
      · simp only [List.cons_append, after, if_true, hopen]
        rw [after_append, after_singleton hcorrect, hclose]
  · simp [accept, hr] at hc

end Yard

namespace Calculator

/-- A calculator does not look below the values it needs. -/
theorem accept_above (he : t ≠ .endOfInput) (h : accept ⟨vs⟩ t = .ok c) (below : List Int32) :
    accept ⟨vs ++ below⟩ t = .ok ⟨c.stack ++ below⟩ := by
  cases applies_of_accept h with
  | number n => rfl
  | @operator o a b v rest hs hv =>
    simp only at hs
    subst hs
    simp [accept, hv, Except.map]
  | endOfInput => exact (he rfl).elim

theorem foldlM_above (he : .endOfInput ∉ ts) (h : ts.foldlM accept ⟨vs⟩ = .ok c)
    (below : List Int32) : ts.foldlM accept ⟨vs ++ below⟩ = .ok ⟨c.stack ++ below⟩ := by
  induction ts generalizing vs with
  | nil =>
    cases h
    rfl
  | cons t ts ih =>
    have het : t ≠ .endOfInput := fun h => he (h ▸ List.mem_cons_self)
    have hets : .endOfInput ∉ ts := fun h => he (List.mem_cons_of_mem t h)
    obtain ⟨c₁, ht, hts⟩ := exists_of_foldlM_cons h
    exact (foldlM_cons_of_ok (accept_above het ht below)).trans (ih hets hts)

/-- A value at the end of input is the only one left. -/
theorem stack_of_value {v : Int32}
    (h : ((us ++ [Token.endOfInput]).foldlM accept c >>= result) = .ok v) :
    us.foldlM accept c = .ok ⟨[v]⟩ := by
  rcases hfold : (us ++ [Token.endOfInput]).foldlM accept c with f | c'
  · rw [hfold] at h
    cases h
  · rw [hfold] at h
    obtain ⟨⟨stack⟩, hus, hend⟩ := exists_of_foldlM_append hfold
    obtain ⟨c₁, ht, hc⟩ := exists_of_foldlM_cons hend
    cases hc
    cases applies_of_accept ht with
    | @endOfInput w hs =>
      simp only at hs
      subst hs
      cases h
      exact hus

end Calculator

/-- With a value, nothing is wrong with the tokens. -/
theorem isCorrect_after_of_evaluate {v : Int32} (h : (evaluate (Rpn.ofStream ts)).1 = .ok v) :
    (({} : Yard).after ts).isCorrect = true := by
  rw [evaluate_ofStream] at h
  cases hc : (({} : Yard).after ts).isCorrect with
  | true => rfl
  | false =>
    obtain ⟨e, he⟩ := Yard.exists_fault_of_after rfl hc
    rcases hfold : (({} : Yard).released ts).foldlM Calculator.accept {} with f | c
    · rw [hfold] at h
      cases h
    · cases Calculator.isFault_of_foldlM hfold _ he

/-- Tokens that release what comes to one value, and leave the yard as it was, do what a number
does. After a failure in front of them neither does anything. -/
theorem foldlM_replace {ks : List Token} {n : Number}
    (hks : ∀ y : Yard, y.isCorrect = true → y.released ks = us ∧ y.after ks = y)
    (hus : ∀ below, us.foldlM Calculator.accept ⟨below⟩ = .ok ⟨n.value :: below⟩)
    (front back : List Token) (c : Calculator) :
    (({} : Yard).released (front ++ ks ++ back)).foldlM Calculator.accept c =
      (({} : Yard).released (front ++ .number n :: back)).foldlM Calculator.accept c := by
  rw [List.append_assoc, Yard.released_append {} front (ks ++ back), Yard.released_append {} front]
  cases hy : (({} : Yard).after front).isCorrect with
  | true =>
    obtain ⟨hr, ha⟩ := hks _ hy
    rw [Yard.released_append, hr, ha, Yard.released_cons hy, List.foldlM_append,
      List.foldlM_append]
    congr 1
    funext below
    rw [List.foldlM_append, hus]
    rfl
  | false => rw [Yard.released_of_incorrect hy, Yard.released_of_incorrect hy]

/-- Where a part has a value, it may be put in parentheses or replaced by a number of that value:
what comes out is the same, and no failure blames a token of the part. What stands around it need
not be well-formed. -/
theorem evaluate_substitute {part : List Token} {p q : Parenthesis} {n : Number}
    (he : .endOfInput ∉ part)
    (hv : (evaluate (Rpn.ofStream (part ++ [.endOfInput]))).1 = .ok n.value)
    (hp : p.isOpen = true) (hq : q.isOpen = false) (front back : List Token) :
    (evaluate (Rpn.ofStream (front ++ .parenthesis p :: part ++ .parenthesis q :: back))).1 =
        (evaluate (Rpn.ofStream (front ++ .number n :: back))).1 ∧
      ∀ f, (evaluate (Rpn.ofStream (front ++ .number n :: back))).1 = .error f →
        f.Blames (front ++ back) ∨ f = .expectedOperator ∨ f = .emptyExpression := by
  constructor
  · obtain ⟨us, hpart, hus, hgroup⟩ :=
      Yard.exists_released_group he hp hq (isCorrect_after_of_evaluate hv)
    rw [evaluate_ofStream, hpart] at hv
    have hvalue := Calculator.stack_of_value hv
    have hsplit : front ++ .parenthesis p :: part ++ .parenthesis q :: back =
        front ++ (.parenthesis p :: part ++ [.parenthesis q]) ++ back := by simp
    rw [evaluate_ofStream, evaluate_ofStream, hsplit, foldlM_replace hgroup]
    intro below
    exact Calculator.foldlM_above hus hvalue below
  · intro f hf
    rw [evaluate_ofStream] at hf
    refine (blames_of_foldlM hf).imp_left fun hb => hb.mono ?_
    intro t ht hn
    simp only [List.mem_append, List.mem_cons] at ht ⊢
    rcases ht with ht | rfl | ht
    · exact Or.inl ht
    · cases hn
    · exact Or.inr ht

/-- Neither the part nor what stands around it reads as an expression. -/
theorem evaluate_substitute_quotient :
    let source := Source.ofText "<input>" "1/(2 2-))"
    let part : List Token := [.number ⟨⟨source, 3, 4⟩, 2⟩, .number ⟨⟨source, 5, 6⟩, 2⟩,
      .operator ⟨⟨source, 6, 7⟩, .minus⟩]
    let p : Parenthesis := ⟨⟨source, 2, 3⟩, true⟩
    let q : Parenthesis := ⟨⟨source, 7, 8⟩, false⟩
    let n : Number := ⟨⟨source, 0, 1⟩, 0⟩
    let front : List Token := [.number ⟨⟨source, 0, 1⟩, 1⟩, .operator ⟨⟨source, 1, 2⟩, .divide⟩]
    let back : List Token := [.parenthesis ⟨⟨source, 8, 9⟩, false⟩]
    (.endOfInput ∉ part ∧ (evaluate (Rpn.ofStream (part ++ [.endOfInput]))).1 = .ok n.value ∧
      p.isOpen = true ∧ q.isOpen = false) ∧
    (evaluate (Rpn.ofStream (front ++ .parenthesis p :: part ++ .parenthesis q :: back))).1 =
        (evaluate (Rpn.ofStream (front ++ .number n :: back))).1 ∧
      ∀ f, (evaluate (Rpn.ofStream (front ++ .number n :: back))).1 = .error f →
        f.Blames (front ++ back) ∨ f = .expectedOperator ∨ f = .emptyExpression := by
  intro source part p q n front back
  have he : .endOfInput ∉ part := by simp [part]
  have hv : (evaluate (Rpn.ofStream (part ++ [.endOfInput]))).1 = .ok n.value := by
    rw [evaluate_ofStream]
    rfl
  exact ⟨⟨he, hv, rfl, rfl⟩, evaluate_substitute he hv rfl rfl front back⟩

end Reckon
