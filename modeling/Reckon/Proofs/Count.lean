import Reckon.Proofs.Calculator
import Reckon.Proofs.Pulls
import Reckon.Proofs.Release

/-! What a yard and a calculator keep: no number and no operator is lost, and each operator takes
one value off the stack. -/

namespace Reckon

def numbers (ts : List Token) : Nat := ts.countP Token.isNumber

def operators (ts : List Token) : Nat := ts.countP Token.isOperator

def Token.operator? : Token → Option Operator
  | operator o => some o
  | _ => none

def Pending.operator? : Pending → Option Operator
  | operator o => some o
  | opening _ => none

/-- The operators among some tokens, in order. -/
def operatorsOf (ts : List Token) : List Operator := ts.filterMap Token.operator?

namespace Yard

/-- The operators on a stack, the innermost first. -/
def held (stack : List Pending) : List Operator := stack.filterMap Pending.operator?

/-- How many operators are on the stack. -/
def waiting (y : Yard) : Nat := y.stack.countP (!·.isOpening)

/-- How many opening parentheses are on the stack. -/
def unclosed (y : Yard) : Nat := y.stack.countP Pending.isOpening

end Yard

variable {ts us : List Token} {t : Token} {y : Yard} {c c' : Calculator} {os : List Operator}
  {stack : List Pending}

@[simp] theorem numbers_nil : numbers [] = 0 := rfl

@[simp] theorem operators_nil : operators [] = 0 := rfl

@[simp] theorem numbers_cons : numbers (t :: ts) = numbers ts + if t.isNumber then 1 else 0 :=
  List.countP_cons

@[simp] theorem operators_cons :
    operators (t :: ts) = operators ts + if t.isOperator then 1 else 0 :=
  List.countP_cons

@[simp] theorem numbers_append : numbers (ts ++ us) = numbers ts + numbers us :=
  List.countP_append

@[simp] theorem operators_append : operators (ts ++ us) = operators ts + operators us :=
  List.countP_append

theorem numbers_operators (os : List Operator) : numbers (os.map .operator) = 0 := by
  induction os with
  | nil => rfl
  | cons o os ih => simp [ih, Token.isNumber]

@[simp] theorem operatorsOf_nil : operatorsOf [] = [] := rfl

@[simp] theorem operatorsOf_cons :
    operatorsOf (t :: ts) = t.operator?.toList ++ operatorsOf ts := by
  cases t <;> rfl

@[simp] theorem operatorsOf_append :
    operatorsOf (ts ++ us) = operatorsOf ts ++ operatorsOf us :=
  List.filterMap_append

theorem operatorsOf_operators (os : List Operator) : operatorsOf (os.map .operator) = os := by
  induction os with
  | nil => rfl
  | cons o os ih => simp [ih, Token.operator?]

theorem mem_operatorsOf {o : Operator} : o ∈ operatorsOf ts ↔ .operator o ∈ ts := by
  rw [operatorsOf, List.mem_filterMap]
  constructor
  · rintro ⟨t, ht, ho⟩
    cases t with
    | operator o' =>
      cases ho
      exact ht
    | _ => cases ho
  · intro ho
    exact ⟨_, ho, rfl⟩

theorem length_operatorsOf (ts : List Token) : (operatorsOf ts).length = operators ts := by
  induction ts with
  | nil => rfl
  | cons t ts ih => cases t <;> simp [ih, Token.operator?, Token.isOperator]

@[simp] theorem Yard.held_nil : held [] = [] := rfl

@[simp] theorem Yard.held_cons {e : Pending} :
    held (e :: stack) = e.operator?.toList ++ held stack := by
  cases e <;> rfl

theorem Yard.held_operators (os : List Operator) (stack : List Pending) :
    held (os.map .operator ++ stack) = os ++ held stack := by
  induction os with
  | nil => rfl
  | cons o os ih => simp [ih, Pending.operator?]

theorem Yard.length_held (y : Yard) : (held y.stack).length = y.waiting := by
  rw [held, List.length_filterMap_eq_countP, waiting]
  congr 1
  funext e
  cases e <;> rfl

@[simp] theorem Pending.isOpening_operator (o : Operator) : (operator o).isOpening = false := rfl

@[simp] theorem Pending.isOpening_opening (p : Parenthesis) : (opening p).isOpening = true := rfl

namespace Yard

theorem accept_numbers (y : Yard) (t : Token) : numbers (y.accept t).1 = numbers [t] := by
  have h := y.accepts t
  generalize y.accept t = r at h
  cases h <;> simp [numbers_operators, Token.isNumber]

/-- Operators leave the stack by being released. Only a yard that fails can lose some. -/
theorem perm_accept (y : Yard) (t : Token) :
    ∃ lost : List Operator,
      (operatorsOf (y.accept t).1 ++ (held (y.accept t).2.stack ++ lost)).Perm
        (held y.stack ++ operatorsOf [t]) ∧
      ((y.accept t).2.isCorrect = true → lost = []) := by
  have h := y.accepts t
  generalize y.accept t = r at h
  cases h with
  | number | fault => exact ⟨[], by simp [Token.operator?], fun _ => rfl⟩
  | @operator o os rest =>
    refine ⟨[], ?_, fun _ => rfl⟩
    simp only [operatorsOf_operators, held_operators, List.append_nil, List.append_assoc]
    apply List.Perm.append_left os
    exact (List.perm_append_singleton o (held rest)).symm
  | opening | closing =>
    refine ⟨[], ?_, fun _ => rfl⟩
    simp [operatorsOf_operators, held_operators, Token.operator?, Pending.operator?]
  | @unopened p os | @finish os =>
    have hheld : held (os.map .operator) = os := by
      simpa using held_operators os []
    refine ⟨[], ?_, fun _ => rfl⟩
    simp [operatorsOf_operators, hheld, Token.operator?]
  | @unclosed p os rest =>
    -- What waits before the parenthesis is dropped.
    refine ⟨held rest, ?_, nofun⟩
    simp [operatorsOf_operators, held_operators, Token.operator?, Pending.operator?]

/-- Opening parentheses stay until they are closed. -/
theorem accept_unclosed (hc : (y.accept t).2.isCorrect = true) (he : t ≠ .endOfInput) :
    (y.accept t).2.unclosed + closings [t] = y.unclosed + openings [t] := by
  have h := y.accepts t
  generalize y.accept t = r at h hc
  cases h with
  | unopened | fault => cases hc
  | finish | unclosed => exact (he rfl).elim
  | number | operator => simp [unclosed, Token.isOpening, Token.isClosing, Function.comp_def]
  | opening hp | closing hp =>
    simp [hp, unclosed, Token.isOpening, Token.isClosing, Function.comp_def, List.countP_cons]

/-- A yard fails on a fault, on a closing parenthesis with nothing to close, and on an end of input
with something left to close. -/
theorem isCorrect_accept_iff (hy : y.isCorrect = true) :
    (y.accept t).2.isCorrect = true ↔ t.isFault = false ∧
      (t.isClosing = true → 0 < y.unclosed) ∧ (t = .endOfInput → y.unclosed = 0) := by
  have h := y.accepts t
  generalize y.accept t = r at h
  cases h with
  | number | operator => simpa [Token.isFault, Token.isClosing] using hy
  | opening hp => simpa [hp, Token.isFault, Token.isClosing] using hy
  | closing hp =>
    simp only at hy
    simp [hy, hp, unclosed, Token.isFault, Token.isClosing, Function.comp_def, List.countP_cons]
  | unopened hp =>
    simp [hp, unclosed, Token.isFault, Token.isClosing, Function.comp_def]
  | fault => simp [Token.isFault]
  | finish =>
    simpa [unclosed, Token.isFault, Token.isClosing, Function.comp_def] using hy
  | unclosed => simp [unclosed, Token.isFault, Token.isClosing]

/-- The end of input leaves nothing on the stack. -/
theorem stack_accept_endOfInput (y : Yard) : (y.accept .endOfInput).2.stack = [] := by
  have h := y.accepts .endOfInput
  generalize y.accept .endOfInput = r at h
  cases h <;> rfl

theorem perm_released (y : Yard) (ts : List Token) :
    ∃ lost : List Operator,
      (operatorsOf (y.released ts) ++ (held (y.after ts).stack ++ lost)).Perm
        (held y.stack ++ operatorsOf ts) ∧
      ((y.after ts).isCorrect = true → lost = []) := by
  induction ts generalizing y with
  | nil => exact ⟨[], by simp [released, after], fun _ => rfl⟩
  | cons t ts ih =>
    by_cases hy : y.isCorrect = true
    · obtain ⟨lost₁, h₁, hl₁⟩ := perm_accept y t
      obtain ⟨lost₂, h₂, hl₂⟩ := ih (y.accept t).2
      simp only [released, after, hy, if_true]
      refine ⟨lost₂ ++ lost₁, ?_, ?_⟩
      · have hstay : (held (y.accept t).2.stack ++ operatorsOf ts ++ lost₁).Perm
            (held (y.accept t).2.stack ++ lost₁ ++ operatorsOf ts) := by
          simp only [List.append_assoc]
          exact List.perm_append_comm.append_left _
        have hrest := ((h₂.append_right lost₁).trans hstay).append_left
          (operatorsOf (y.accept t).1)
        have hhere := h₁.append_right (operatorsOf ts)
        simp only [operatorsOf_append, operatorsOf_cons, operatorsOf_nil, List.append_nil,
          List.append_assoc] at hrest hhere ⊢
        exact hrest.trans hhere
      · intro hc
        rw [hl₁ (isCorrect_of_after hc), hl₂ hc]
        rfl
    · have hy : y.isCorrect = false := by simpa using hy
      refine ⟨operatorsOf (t :: ts), ?_, ?_⟩
      · rw [released_of_incorrect hy, after_of_incorrect hy]
        rfl
      · intro hc
        rw [after_of_incorrect hy, hy] at hc
        cases hc

theorem released_counts (hc : (y.after ts).isCorrect = true) :
    numbers (y.released ts) = numbers ts ∧
      operators (y.released ts) + (y.after ts).waiting = y.waiting + operators ts := by
  constructor
  · induction ts generalizing y with
    | nil => rfl
    | cons t ts ih =>
      have hy := isCorrect_of_after hc
      simp only [after, released, hy, if_true] at hc ⊢
      have hn := ih hc
      have hn' := accept_numbers y t
      simp only [numbers_append, numbers_cons, numbers_nil] at *
      omega
  · obtain ⟨lost, hp, hl⟩ := perm_released y ts
    have hlen := hp.length_eq
    rw [hl hc] at hlen
    simp only [List.length_append, length_operatorsOf, length_held, List.length_nil] at hlen
    omega

theorem after_unclosed (hc : (y.after ts).isCorrect = true) (he : .endOfInput ∉ ts) :
    (y.after ts).unclosed + closings ts = y.unclosed + openings ts := by
  induction ts generalizing y with
  | nil => rfl
  | cons t ts ih =>
    have hy := isCorrect_of_after hc
    obtain ⟨het, hets⟩ := not_or.1 (List.mem_cons.not.1 he)
    simp only [after, hy, if_true] at hc ⊢
    have hu := ih hc hets
    have hu' := accept_unclosed (isCorrect_of_after hc) (Ne.symm het)
    simp only [openings_cons, closings_cons, openings_nil, closings_nil] at *
    omega

/-- Up to the end of input, faults and parentheses that close nothing are all that makes a yard
fail. -/
theorem isCorrect_after_iff (he : .endOfInput ∉ ts) :
    (({} : Yard).after ts).isCorrect = true ↔ (∀ t ∈ ts, t.isFault = false) ∧ Nested ts := by
  induction ts using List.reverseRecOn with
  | nil => simp [after, Nested]
  | append_singleton ts t ih =>
    obtain ⟨hets, het⟩ := not_or.1 (List.mem_append.not.1 he)
    have het : t ≠ .endOfInput := fun h => het (List.mem_singleton.2 h.symm)
    by_cases hc : (({} : Yard).after ts).isCorrect = true
    · obtain ⟨hf, hn⟩ := (ih hets).1 hc
      have hu := after_unclosed hc hets
      have hlt : 0 < (({} : Yard).after ts).unclosed ↔ closings ts < openings ts := by
        simp only [unclosed, List.countP_nil] at hu ⊢
        omega
      rw [after_append, after_singleton hc, isCorrect_accept_iff hc, nested_concat_iff hn, hlt,
        List.forall_mem_append, List.forall_mem_singleton]
      constructor
      · rintro ⟨hft, hct, _⟩
        exact ⟨⟨hf, hft⟩, hct⟩
      · rintro ⟨⟨_, hft⟩, hct⟩
        exact ⟨hft, hct, fun h => (het h).elim⟩
    · constructor
      · intro h
        exact (hc (isCorrect_of_append h)).elim
      · rintro ⟨hf, hn⟩
        exact (hc ((ih hets).2 ⟨(List.forall_mem_append.1 hf).1, hn.of_append⟩)).elim

/-- At the end of input, a parenthesis that is never closed makes it fail too. -/
theorem isCorrect_after_concat_iff (he : .endOfInput ∉ ts) :
    (({} : Yard).after (ts ++ [.endOfInput])).isCorrect = true ↔
      (∀ t ∈ ts, t.isFault = false) ∧ Balanced ts := by
  by_cases hc : (({} : Yard).after ts).isCorrect = true
  · obtain ⟨hf, hn⟩ := (isCorrect_after_iff he).1 hc
    have hu := after_unclosed hc he
    simp only [unclosed, List.countP_nil] at hu
    rw [after_append, after_singleton hc, isCorrect_accept_iff hc]
    constructor
    · rintro ⟨_, _, h⟩
      have := h rfl
      rw [unclosed] at this
      exact ⟨hf, hn, by omega⟩
    · rintro ⟨_, _, heq⟩
      refine ⟨rfl, nofun, fun _ => ?_⟩
      rw [unclosed]
      omega
  · constructor
    · intro h
      exact (hc (isCorrect_of_append h)).elim
    · rintro ⟨hf, hb⟩
      exact (hc ((isCorrect_after_iff he).2 ⟨hf, hb.1⟩)).elim

end Yard

namespace Calculator

/-- A number adds a value and an operator takes one. -/
theorem length_accept (h : c.accept t = .ok c') :
    c'.stack.length + operators [t] = c.stack.length + numbers [t] := by
  cases applies_of_accept h with
  | number n => simp [Token.isNumber, Token.isOperator]
  | operator hs => simp [hs, Token.isNumber, Token.isOperator]
  | endOfInput => simp [Token.isNumber, Token.isOperator]

theorem length_foldlM (h : ts.foldlM accept c = .ok c') :
    c'.stack.length + operators ts = c.stack.length + numbers ts := by
  induction ts generalizing c with
  | nil =>
    cases h
    rfl
  | cons t ts ih =>
    obtain ⟨c₁, ht, hts⟩ := exists_of_foldlM_cons h
    have hl := ih hts
    have hl' := length_accept ht
    simp only [operators_cons, numbers_cons, operators_nil, numbers_nil] at *
    omega

end Calculator

end Reckon
