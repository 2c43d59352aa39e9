import Mathlib.Data.List.DropRight
import Reckon.Proofs.Calls
import Reckon.Proofs.Count
import Reckon.Proofs.Grammar

/-! The stack of a yard: operators bind tighter from bottom to top, so there is never room for many
of them, and the opening parentheses among them are those that are still to be closed. -/

namespace Reckon

variable {stack : List Pending} {os : List Operator} {y : Yard} {t : Token} {ts : List Token}

/-- The tokens that came after the last end of input. -/
def sinceEnd (ts : List Token) : List Token := ts.rtakeWhile (· ≠ .endOfInput)

theorem sinceEnd_concat (h : t ≠ .endOfInput) : sinceEnd (ts ++ [t]) = sinceEnd ts ++ [t] :=
  List.rtakeWhile_concat_pos _ _ t (by simpa using h)

theorem sinceEnd_concat_endOfInput (ts : List Token) : sinceEnd (ts ++ [.endOfInput]) = [] :=
  List.rtakeWhile_concat_neg _ _ _ (by simp)

theorem Operator.precedence_nonneg (o : Operator) : 0 ≤ o.precedence := by
  unfold precedence OperatorKind.precedence
  split <;> decide

theorem precedence_lt_of_isChain {o o' : Operator} (above below : List Pending)
    (h : (above ++ .operator o :: .operator o' :: below).IsChain Tight) :
    o'.precedence < o.precedence :=
  (List.isChain_cons_cons.1 h.right_of_append).1 o o' rfl rfl

/-- There are two levels of precedence, and no operator stands on one of its own level. -/
theorem length_le_two_of_isChain (above below : List Pending)
    (h : (above ++ os.map Pending.operator ++ below).IsChain Tight) : os.length ≤ 2 := by
  have hos : (os.map Pending.operator).IsChain Tight := h.left_of_append.right_of_append
  match os, hos with
  | [], _ | [_], _ | [_, _], _ => simp
  | o :: o' :: o'' :: os, hos =>
    have htop := precedence_lt_of_isChain [] (.operator o'' :: os.map .operator) hos
    have hnext := precedence_lt_of_isChain [.operator o] (os.map .operator) hos
    have hlt := o.precedence_lt_two
    have hnonneg := o''.precedence_nonneg
    omega

/-- At most two operators stand above each opening parenthesis, and at most two below them all. -/
theorem length_le_of_isChain (h : stack.IsChain Tight) :
    stack.length ≤ 3 * stack.countP Pending.isOpening + 2 := by
  induction hn : stack.length using Nat.strongRecOn generalizing stack with
  | _ n ih =>
    subst hn
    obtain ⟨os, ⟨rfl, -⟩ | ⟨p, rest, rfl, -⟩⟩ := Yard.exists_releaseToOpening stack
    · have hos := length_le_two_of_isChain [] [] (by simpa using h)
      simp
      omega
    · have hos := length_le_two_of_isChain [] (.opening p :: rest) h
      have htight : rest.IsChain Tight := h.right_of_append.tail
      have hrest := ih rest.length (by simp; omega) htight rfl
      simp [Function.comp_def, List.countP_cons]
      omega

namespace Yard

/-- What stays under an operator that comes in binds looser. A closing parenthesis lays bare a part
of the stack that was tight before. -/
theorem isChain_accept (h : y.stack.IsChain Tight) (t : Token) :
    (y.accept t).2.stack.IsChain Tight := by
  have ha := y.accepts t
  generalize y.accept t = r at ha
  cases ha with
  | number | fault => exact h
  | @operator o os rest b _ hrest =>
    refine h.right_of_append.cons fun e he => ?_
    rintro _ o' ⟨⟩ rfl
    obtain ⟨rest', rfl⟩ : ∃ rest', rest = .operator o' :: rest' := by
      cases rest with
      | nil => cases he
      | cons e' rest' =>
        cases he
        exact ⟨rest', rfl⟩
    exact hrest o' rest' rfl
  | opening => exact List.IsChain.cons h fun _ _ _ _ ho => nomatch ho
  | closing => exact h.right_of_append.tail
  | unopened | finish | unclosed => exact .nil

/-- However tokens come, the stack is tight. -/
theorem isChain_after (h : y.stack.IsChain Tight) (ts : List Token) :
    (y.after ts).stack.IsChain Tight := by
  induction ts generalizing y with
  | nil => exact h
  | cons t ts ih =>
    unfold after
    split
    · exact ih (isChain_accept h t)
    · exact h

/-- Only what came since the last end of input can still be open. -/
theorem unclosed_after (hc : (({} : Yard).after ts).isCorrect = true) :
    (({} : Yard).after ts).unclosed + closings (sinceEnd ts) = openings (sinceEnd ts) := by
  induction ts using List.reverseRecOn with
  | nil => rfl
  | append_singleton ts t ih =>
    have hts := isCorrect_of_append hc
    rw [after_append, after_singleton hts] at hc ⊢
    by_cases he : t = .endOfInput
    · subst he
      simp [unclosed, stack_accept_endOfInput, sinceEnd_concat_endOfInput]
    · have hu := accept_unclosed hc he
      have ih := ih hts
      rw [sinceEnd_concat he, openings_append, closings_append]
      omega

theorem stack_after_endOfInput (hc : (({} : Yard).after ts).isCorrect = true)
    (he : ts.getLast? = some .endOfInput) : (({} : Yard).after ts).stack = [] := by
  obtain ⟨ts, rfl⟩ := List.getLast?_eq_some_iff.1 he
  rw [after_append, after_singleton (isCorrect_of_append hc)]
  exact stack_accept_endOfInput _

end Yard

namespace Rpn

theorem Reaches.yard_eq {σ : Type} [TokenStream σ] {p q : Rpn σ} (h : Reaches p ts q) :
    q.yard = p.yard.after ts := by
  induction h with
  | refl => rfl
  | returned _ hq ih => cases turns hq <;> exact ih
  | @took _ _ ts _ _ hq ih =>
    cases turns hq with
    | pull _ hc =>
      have hc : (p.yard.after ts).isCorrect = true := ih ▸ hc
      rw [Yard.after_append, Yard.after_singleton hc, ← ih]
      rfl

/-- Whatever the supply is, also one that never runs dry, and however often one asks, an operator
stands directly on another only if it binds tighter. So no more than two of them stand together, and
the opening parentheses bound the height of the stack. Before a fault, these are what has been
opened and not closed since the last end of input, and right after an end of input nothing waits.
All this holds in the midst of a call too. -/
theorem stack_of_reaches {σ : Type} [TokenStream σ] {s : σ} {p : Rpn σ}
    (h : (ofStream s).Reaches ts p) :
    let opened := p.yard.stack.countP Pending.isOpening
    p.yard = ({} : Yard).after ts ∧
    (∀ above o o' below, p.yard.stack = above ++ .operator o :: .operator o' :: below →
      o'.precedence < o.precedence) ∧
    (∀ above (os : List Operator) below, p.yard.stack = above ++ os.map .operator ++ below →
      os.length ≤ 2) ∧
    p.yard.stack.length ≤ 3 * opened + 2 ∧
    (p.isCorrect = true →
      opened + closings (sinceEnd ts) = openings (sinceEnd ts) ∧
      (ts.getLast? = some .endOfInput → p.yard.stack = [])) := by
  intro opened
  have hyard : p.yard = ({} : Yard).after ts := h.yard_eq
  have htight : p.yard.stack.IsChain Tight := hyard ▸ Yard.isChain_after .nil _
  refine ⟨hyard, ?_, ?_, length_le_of_isChain htight, fun hc => ?_⟩
  · intro above o o' below hstack
    exact precedence_lt_of_isChain above below (hstack ▸ htight)
  · intro above os below hstack
    exact length_le_two_of_isChain above below (hstack ▸ htight)
  · have hcount : opened = p.yard.unclosed := rfl
    rw [isCorrect, hyard] at hc
    rw [hcount, hyard]
    exact ⟨Yard.unclosed_after hc, Yard.stack_after_endOfInput hc⟩

/-- Two numbers have been handed out, and the third call never returns: only parentheses come. -/
theorem stack_of_reaches_endless :
    let source := Source.ofText "<input>" "1+2*("
    let one : Token := .number ⟨⟨source, 0, 1⟩, 1⟩
    let plus : Operator := ⟨⟨source, 1, 2⟩, .plus⟩
    let two : Token := .number ⟨⟨source, 2, 3⟩, 2⟩
    let times : Operator := ⟨⟨source, 3, 4⟩, .multiply⟩
    let opening : Parenthesis := ⟨⟨source, 4, 5⟩, true⟩
    let ts : Nat → Token
      | 0 => one
      | 1 => .operator plus
      | 2 => two
      | 3 => .operator times
      | _ => .parenthesis opening
    let taken := [one, .operator plus, two, .operator times, .parenthesis opening]
    let p : Rpn (Nat → Token) := ⟨fun _ => .parenthesis opening,
      { stack := [.opening opening, .operator times, .operator plus] }, []⟩
    (ofStream ts).Reaches taken p ∧ plus.precedence < times.precedence ∧
      p.yard.stack.length ≤ 3 * 1 + 2 ∧
      1 + closings (sinceEnd taken) = openings (sinceEnd taken) := by
  intro source one plus two times opening ts taken p
  have hone : (ofStream ts).Returns [one] (some one) ⟨fun i => ts (i + 1), {}, []⟩ :=
    .took rfl (.returned rfl)
  have htwo : Returns ⟨fun i => ts (i + 1), {}, []⟩ [.operator plus, two] (some two)
      ⟨fun i => ts (i + 3), { stack := [.operator plus] }, []⟩ :=
    .took rfl (.took rfl (.returned rfl))
  have hp : (ofStream ts).Reaches taken p :=
    .took (.took ((Reaches.refl.call hone).call htwo) rfl) rfl
  obtain ⟨-, htight, -, hheight, hopened⟩ := stack_of_reaches hp
  exact ⟨hp, htight [.opening opening] times plus [] rfl, hheight, (hopened rfl).1⟩

/-- The height is reached: two operators, a parenthesis, and two operators again. -/
example (span : Span) :
    let plus := Token.operator ⟨span, .plus⟩
    let times := Token.operator ⟨span, .multiply⟩
    let ts := [plus, times, .parenthesis ⟨span, true⟩, plus, times]
    (({} : Yard).after ts).stack.length = 3 * 1 + 2 := by
  rfl

end Rpn

end Reckon
