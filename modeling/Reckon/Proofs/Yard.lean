import Reckon.Yard

/-! What a single token makes a yard release. -/

namespace Reckon

def Token.isNumber : Token → Bool
  | number _ => true
  | _ => false

def Token.isOperator : Token → Bool
  | operator _ => true
  | _ => false

/-- A number or an operator. -/
def Token.isArithmetic (t : Token) : Bool := t.isNumber || t.isOperator

/-- Whether the token, coming after a waiting operator with nothing open in between, shows that the
operator has both its operands. -/
def Token.releases (t : Token) (o : Operator) : Bool :=
  match t with
  | .operator o' => o'.precedence ≤ o.precedence
  | .parenthesis p => !p.isOpen
  | .endOfInput => true
  | .number _ | .fault _ => false

theorem Token.isFault_of_isArithmetic {t : Token} (h : t.isArithmetic = true) :
    t.isFault = false := by
  cases t with
  | fault f => cases h
  | _ => rfl

/-- The token that waits. -/
def Pending.token : Pending → Token
  | operator o => .operator o
  | opening p => .parenthesis p

namespace Yard

variable {y : Yard} {t : Token} {o : Operator} {stack : List Pending}

theorem releaseFrom_of_lt {level : Int}
    (h : ∀ o rest, stack = .operator o :: rest → o.precedence < level) :
    releaseFrom level stack = ([], stack) := by
  unfold releaseFrom
  split
  · next o rest => rw [if_pos (h o rest rfl)]
  · rfl

theorem exists_releaseFrom (level : Int) (stack : List Pending) :
    ∃ (os : List Operator) (rest : List Pending),
      stack = os.map .operator ++ rest ∧ (∀ o ∈ os, level ≤ o.precedence) ∧
      (∀ o rest', rest = .operator o :: rest' → o.precedence < level) ∧
      releaseFrom level stack = (os.map .operator, rest) := by
  fun_induction releaseFrom level stack with
  | case1 o stack h =>
    refine ⟨[], _, rfl, by simp, ?_, rfl⟩
    rintro o' rest' heq
    cases heq
    exact h
  | case2 o stack h r ih =>
    obtain ⟨os, rest, hs, hos, hrest, hr⟩ := ih
    refine ⟨o :: os, rest, by simp [hs], ?_, hrest, by simp [r, hr]⟩
    intro o' ho'
    rcases List.mem_cons.1 ho' with rfl | ho'
    · omega
    · exact hos o' ho'
  | case3 stack h =>
    exact ⟨[], stack, rfl, by simp, fun o rest' heq => (h o rest' heq).elim, rfl⟩

/-- What is released up to the innermost opening parenthesis are operators, in either case. -/
theorem exists_releaseToOpening (stack : List Pending) :
    ∃ os : List Operator,
      (stack = os.map .operator ∧ releaseToOpening stack = (os.map .operator, none)) ∨
      ∃ p rest, stack = os.map .operator ++ .opening p :: rest ∧
        releaseToOpening stack = (os.map .operator, some (p, rest)) := by
  fun_induction releaseToOpening stack with
  | case1 => exact ⟨[], Or.inl ⟨rfl, rfl⟩⟩
  | case2 p stack => exact ⟨[], Or.inr ⟨p, stack, rfl, rfl⟩⟩
  | case3 o stack r ih =>
    obtain ⟨os, ⟨hs, hr⟩ | ⟨p, rest, hs, hr⟩⟩ := ih
    · exact ⟨o :: os, Or.inl ⟨by simp [hs], by simp [r, hr]⟩⟩
    · exact ⟨o :: os, Or.inr ⟨p, rest, by simp [hs], by simp [r, hr]⟩⟩

/-- An operator on top that a token releases goes first, and all else is as without it. -/
theorem accept_operator_cons (h : t.releases o = true) :
    accept ⟨.operator o :: stack, true⟩ t =
      (.operator o :: (accept ⟨stack, true⟩ t).1, (accept ⟨stack, true⟩ t).2) := by
  cases t with
  | number n => simp [Token.releases] at h
  | operator o' =>
    have ho : ¬ o.precedence < o'.precedence := by
      simpa [Token.releases] using h
    simp [accept, releaseFrom, ho]
  | parenthesis p =>
    have hp : p.isOpen = false := by simpa [Token.releases] using h
    simp only [accept, hp, releaseToOpening]
    rcases releaseToOpening stack with ⟨released, _ | ⟨p, rest⟩⟩ <;> simp
  | fault f => simp [Token.releases] at h
  | endOfInput =>
    simp only [accept, releaseToOpening]
    rcases releaseToOpening stack with ⟨released, _ | ⟨p, rest⟩⟩ <;> simp

/-- All that a token can make of a yard, and what it releases. The operators `os` are those on top
of the stack that go. -/
inductive Accepts : Yard → Token → List Token × Yard → Prop where
  | number (y : Yard) (n : Number) : Accepts y (.number n) ([.number n], y)
  | operator {o : Operator} {os : List Operator} {rest : List Pending} {b : Bool}
    (hos : ∀ o' ∈ os, o.precedence ≤ o'.precedence)
    (hrest : ∀ o' rest', rest = .operator o' :: rest' → o'.precedence < o.precedence) :
    Accepts ⟨os.map .operator ++ rest, b⟩ (.operator o)
      (os.map .operator, ⟨.operator o :: rest, b⟩)
  | opening {p : Parenthesis} {stack : List Pending} {b : Bool} (hp : p.isOpen = true) :
    Accepts ⟨stack, b⟩ (.parenthesis p) ([], ⟨.opening p :: stack, b⟩)
  | closing {p p' : Parenthesis} {os : List Operator} {rest : List Pending} {b : Bool}
    (hp : p.isOpen = false) :
    Accepts ⟨os.map .operator ++ .opening p' :: rest, b⟩ (.parenthesis p)
      (os.map .operator, ⟨rest, b⟩)
  | unopened {p : Parenthesis} {os : List Operator} {b : Bool} (hp : p.isOpen = false) :
    Accepts ⟨os.map .operator, b⟩ (.parenthesis p)
      (os.map .operator ++ [.fault (.unopened p)], ⟨[], false⟩)
  | fault {stack : List Pending} {b : Bool} (e : Fault) :
    Accepts ⟨stack, b⟩ (.fault e) ([.fault e], ⟨stack, false⟩)
  | finish {os : List Operator} {b : Bool} :
    Accepts ⟨os.map .operator, b⟩ .endOfInput (os.map .operator ++ [.endOfInput], ⟨[], b⟩)
  | unclosed {p : Parenthesis} {os : List Operator} {rest : List Pending} {b : Bool} :
    Accepts ⟨os.map .operator ++ .opening p :: rest, b⟩ .endOfInput
      (os.map .operator ++ [.fault (.unclosed p)], ⟨[], false⟩)

theorem accepts (y : Yard) (t : Token) : Accepts y t (y.accept t) := by
  rcases y with ⟨stack, b⟩
  cases t with
  | number n => exact .number _ n
  | operator o =>
    obtain ⟨os, rest, rfl, hos, hrest, hr⟩ := exists_releaseFrom o.precedence stack
    simp only [accept, hr]
    exact .operator hos hrest
  | parenthesis p =>
    by_cases hp : p.isOpen = true
    · simp only [accept, hp, if_true]
      exact .opening hp
    · have hclosing : p.isOpen = false := by simpa using hp
      obtain ⟨os, ⟨rfl, hr⟩ | ⟨p', rest, rfl, hr⟩⟩ := exists_releaseToOpening stack
      · simp only [accept, if_neg hp, hr]
        exact .unopened hclosing
      · simp only [accept, if_neg hp, hr]
        exact .closing hclosing
  | fault e => exact .fault e
  | endOfInput =>
    obtain ⟨os, ⟨rfl, hr⟩ | ⟨p, rest, rfl, hr⟩⟩ := exists_releaseToOpening stack
    · simp only [accept, hr]
      exact .finish
    · simp only [accept, hr]
      exact .unclosed

/-- What a token comes to: it passes, or the input ends, or a fault comes last. Before that, numbers
and operators are all that is released. -/
inductive Outcome (y : Yard) : Token → List Token × Yard → Prop where
  | pass {t : Token} {us : List Token} {y' : Yard} (hus : ∀ u ∈ us, u.isArithmetic = true)
    (hf : t.isFault = false) (he : t ≠ .endOfInput) (hc : y'.isCorrect = y.isCorrect) :
    Outcome y t (us, y')
  | finish {us : List Token} {y' : Yard} (hus : ∀ u ∈ us, u.isArithmetic = true)
    (hc : y'.isCorrect = y.isCorrect) : Outcome y .endOfInput (us ++ [.endOfInput], y')
  | fail {t : Token} {us : List Token} {e : Fault} {y' : Yard}
    (hus : ∀ u ∈ us, u.isArithmetic = true)
    (he : t = .fault e ∨ ∃ p, e = .unopened p ∨ e = .unclosed p) (hc : y'.isCorrect = false) :
    Outcome y t (us ++ [.fault e], y')

theorem isArithmetic_of_mem_operators (os : List Operator) :
    ∀ u ∈ os.map Token.operator, u.isArithmetic = true := by
  intro u hu
  obtain ⟨o, _, rfl⟩ := List.mem_map.1 hu
  rfl

theorem accept_outcome (y : Yard) (t : Token) : Outcome y t (y.accept t) := by
  have h := y.accepts t
  generalize y.accept t = r at h
  cases h with
  | number _ n =>
    have hn : ∀ u ∈ [Token.number n], u.isArithmetic = true := by
      simp [Token.isArithmetic, Token.isNumber]
    exact .pass hn rfl nofun rfl
  | operator | closing => exact .pass (isArithmetic_of_mem_operators _) rfl nofun rfl
  | opening => exact .pass (by simp) rfl nofun rfl
  | unopened => exact .fail (isArithmetic_of_mem_operators _) (Or.inr ⟨_, Or.inl rfl⟩) rfl
  | fault e =>
    have hnone : ∀ u ∈ ([] : List Token), u.isArithmetic = true := by simp
    exact .fail hnone (Or.inl rfl) rfl
  | finish => exact .finish (isArithmetic_of_mem_operators _) rfl
  | unclosed => exact .fail (isArithmetic_of_mem_operators _) (Or.inr ⟨_, Or.inr rfl⟩) rfl

/-- A yard that hands out a fault does not stay correct. -/
theorem isFault_of_mem_accept {u : Token} (h : (y.accept t).2.isCorrect = true)
    (hu : u ∈ (y.accept t).1) : u.isFault = false := by
  have ho := accept_outcome y t
  generalize y.accept t = r at h hu ho
  cases ho with
  | pass hus => exact Token.isFault_of_isArithmetic (hus u hu)
  | finish hus =>
    rcases List.mem_append.1 hu with hu | hu
    · exact Token.isFault_of_isArithmetic (hus u hu)
    · cases List.mem_singleton.1 hu
      rfl
  | fail _ _ hc =>
    rw [hc] at h
    cases h

theorem exists_of_mem_operators {os : List Operator} {u : Token}
    (h : u ∈ os.map Token.operator) (rest : List Pending) :
    ∃ o, u = .operator o ∧ .operator o ∈ os.map Pending.operator ++ rest := by
  obtain ⟨o, ho, rfl⟩ := List.mem_map.1 h
  exact ⟨o, rfl, List.mem_append_left _ (List.mem_map_of_mem ho)⟩

/-- Apart from faults, only the token itself and operators that waited are released. -/
theorem mem_accept {u : Token} (h : u ∈ (y.accept t).1) (hf : u.isFault = false) :
    u = t ∨ ∃ o, u = .operator o ∧ .operator o ∈ y.stack := by
  have ha := y.accepts t
  generalize y.accept t = r at ha h
  cases ha with
  | number | fault => exact Or.inl (List.mem_singleton.1 h)
  | operator | closing => exact Or.inr (exists_of_mem_operators h _)
  | opening => cases h
  | unopened =>
    rcases List.mem_append.1 h with h | h
    · exact Or.inr (by simpa using exists_of_mem_operators h [])
    · cases List.mem_singleton.1 h
      cases hf
  | finish =>
    rcases List.mem_append.1 h with h | h
    · exact Or.inr (by simpa using exists_of_mem_operators h [])
    · exact Or.inl (List.mem_singleton.1 h)
  | unclosed =>
    rcases List.mem_append.1 h with h | h
    · exact Or.inr (exists_of_mem_operators h _)
    · cases List.mem_singleton.1 h
      cases hf

/-- What comes to wait is the token itself. -/
theorem mem_stack_accept {e : Pending} (h : e ∈ (y.accept t).2.stack) :
    t = e.token ∨ e ∈ y.stack := by
  have ha := y.accepts t
  generalize y.accept t = r at ha h
  cases ha with
  | number | fault => exact Or.inr h
  | operator =>
    rcases List.mem_cons.1 h with rfl | h
    · exact Or.inl rfl
    · exact Or.inr (List.mem_append_right _ h)
  | opening =>
    rcases List.mem_cons.1 h with rfl | h
    · exact Or.inl rfl
    · exact Or.inr h
  | closing => exact Or.inr (List.mem_append_right _ (List.mem_cons_of_mem _ h))
  | unopened | finish | unclosed => cases h

/-- A yard passes faults on, and makes those about the parentheses it has met. -/
theorem fault_of_mem_accept {e : Fault} (h : .fault e ∈ (y.accept t).1) :
    t = .fault e ∨ ∃ p, (t = .parenthesis p ∨ .opening p ∈ y.stack) ∧
      (e = .unopened p ∨ e = .unclosed p) := by
  have ha := y.accepts t
  have harith : ∀ os : List Operator, .fault e ∉ os.map Token.operator := by
    intro os hmem
    cases isArithmetic_of_mem_operators os _ hmem
  generalize y.accept t = r at ha h
  cases ha with
  | number => cases List.mem_singleton.1 h
  | operator | closing => exact (harith _ h).elim
  | opening => cases h
  | fault =>
    cases List.mem_singleton.1 h
    exact Or.inl rfl
  | @unopened p =>
    rcases List.mem_append.1 h with h | h
    · exact (harith _ h).elim
    · cases List.mem_singleton.1 h
      exact Or.inr ⟨p, Or.inl rfl, Or.inl rfl⟩
  | finish =>
    rcases List.mem_append.1 h with h | h
    · exact (harith _ h).elim
    · cases List.mem_singleton.1 h
  | @unclosed p =>
    rcases List.mem_append.1 h with h | h
    · exact (harith _ h).elim
    · cases List.mem_singleton.1 h
      exact Or.inr ⟨p, Or.inr (List.mem_append_right _ List.mem_cons_self), Or.inr rfl⟩

end Yard

end Reckon
