import Reckon.Proofs.Count

/-! A calculator that is used on after a failure. A token that fails might as well not have been
entered. -/

namespace Reckon.Calculator

/-- What a calculator answers to each of some tokens, and what it is after the last. A failure does
not stop it. -/
def session (c : Calculator) : List Token → List (Except Failure Unit) × Calculator
  | [] => ([], c)
  | t :: ts =>
    let (answer, c) := c.entered t
    let (answers, c) := c.session ts
    (answer :: answers, c)

/-- The tokens that were not answered with a failure. -/
def granted (ts : List Token) (answers : List (Except Failure Unit)) : List Token :=
  ((ts.zip answers).filter fun entry => entry.2.isOk).map Prod.fst

variable {c c' : Calculator} {t : Token} {ts us : List Token} {f : Failure}
  {answers : List (Except Failure Unit)}

theorem entered_of_ok (h : c.accept t = .ok c') : c.entered t = (.ok (), c') := by
  simp [entered_eq, h]

theorem entered_of_error (h : c.accept t = .error f) : c.entered t = (.error f, c) := by
  simp [entered_eq, h]

@[simp] theorem session_nil (c : Calculator) : c.session [] = ([], c) := rfl

theorem session_cons_of_ok (h : c.accept t = .ok c') :
    c.session (t :: ts) = (.ok () :: (c'.session ts).1, (c'.session ts).2) := by
  simp [session, entered_of_ok h]

theorem session_cons_of_error (h : c.accept t = .error f) :
    c.session (t :: ts) = (.error f :: (c.session ts).1, (c.session ts).2) := by
  simp [session, entered_of_error h]

@[simp] theorem length_session (c : Calculator) (ts : List Token) :
    (c.session ts).1.length = ts.length := by
  induction ts generalizing c with
  | nil => rfl
  | cons t ts ih => simp [session, ih]

/-- A session goes on from the calculator it has come to. -/
theorem session_append (c : Calculator) (ts us : List Token) :
    c.session (ts ++ us) =
      ((c.session ts).1 ++ ((c.session ts).2.session us).1, ((c.session ts).2.session us).2) := by
  induction ts generalizing c with
  | nil => rfl
  | cons t ts ih => simp [session, ih]

/-- An answer does not depend on the tokens that come after. -/
theorem session_take (c : Calculator) (ts : List Token) (n : Nat) :
    (c.session (ts.take n)).1 = (c.session ts).1.take n := by
  induction ts generalizing c n with
  | nil => simp
  | cons t ts ih =>
    cases n with
    | zero => rfl
    | succ n => simp [session, ih]

@[simp] theorem granted_cons_ok :
    granted (t :: ts) (.ok () :: answers) = t :: granted ts answers := rfl

@[simp] theorem granted_cons_error :
    granted (t :: ts) (.error f :: answers) = granted ts answers := rfl

theorem granted_sublist (ts : List Token) (answers : List (Except Failure Unit)) :
    (granted ts answers).Sublist ts := by
  induction ts generalizing answers with
  | nil => exact List.Sublist.refl []
  | cons t ts ih =>
    rcases answers with _ | ⟨f | ⟨⟩, answers⟩
    · exact List.nil_sublist _
    · exact (ih answers).cons t
    · exact (ih answers).cons_cons t

/-- The tokens that were applied lead to the same calculator on their own. -/
theorem foldlM_granted (c : Calculator) (ts : List Token) :
    (granted ts (c.session ts).1).foldlM accept c = .ok (c.session ts).2 := by
  induction ts generalizing c with
  | nil => rfl
  | cons t ts ih =>
    rcases h : c.accept t with f | c'
    · simpa [session_cons_of_error h] using ih c
    · simpa [session_cons_of_ok h, foldlM_cons_of_ok h] using ih c'

/-- Where no token fails, every answer says so. -/
theorem session_of_foldlM (h : ts.foldlM accept c = .ok c') :
    c.session ts = (List.replicate ts.length (.ok ()), c') := by
  induction ts generalizing c with
  | nil =>
    cases h
    rfl
  | cons t ts ih =>
    obtain ⟨c₁, ht, hts⟩ := exists_of_foldlM_cons h
    rw [session_cons_of_ok ht, ih hts]
    rfl

/-- Left alone, the tokens that were applied are applied again and end in the same calculator, so
its stack and its result are the same, and from there any further tokens get the same answers. At
each point of the session, the height tells the numbers from the operators that were applied up to
there. -/
theorem session_granted (c : Calculator) (ts : List Token) :
    let answers := (c.session ts).1
    let kept := granted ts answers
    answers.length = ts.length ∧ kept.Sublist ts ∧
    c.session kept = (List.replicate kept.length (.ok ()), (c.session ts).2) ∧
    (c.session kept).2.result = (c.session ts).2.result ∧
    (∀ us, ∃ later last, c.session (ts ++ us) = (answers ++ later, last) ∧
      c.session (kept ++ us) = (List.replicate kept.length (.ok ()) ++ later, last)) ∧
    ∀ n, (c.session (ts.take n)).1 = answers.take n ∧
      (c.session (ts.take n)).2.stack.length + operators (granted (ts.take n) (answers.take n)) =
        c.stack.length + numbers (granted (ts.take n) (answers.take n)) := by
  intro answers kept
  have hkept : c.session kept = (List.replicate kept.length (.ok ()), (c.session ts).2) :=
    session_of_foldlM (foldlM_granted c ts)
  refine ⟨length_session c ts, granted_sublist ts answers, hkept, by rw [hkept], ?_, ?_⟩
  · intro us
    refine ⟨_, _, session_append c ts us, ?_⟩
    rw [session_append, hkept]
  · intro n
    have htake : (c.session (ts.take n)).1 = answers.take n := session_take c ts n
    have hheight := length_foldlM (foldlM_granted c (ts.take n))
    rw [htake] at hheight
    exact ⟨htake, hheight⟩

example :
    let slash : Operator := ⟨⟨Source.ofText "<input>" "/", 0, 1⟩, .divide⟩
    let minus : Operator := ⟨⟨Source.ofText "<input>" "-", 0, 1⟩, .minus⟩
    session ⟨[0, 7]⟩ [.operator slash, .endOfInput, .operator minus, .endOfInput] =
      ([.error (.divisionByZero slash), .error .expectedOperator, .ok (), .ok ()], ⟨[7]⟩) := by
  rfl

end Reckon.Calculator
