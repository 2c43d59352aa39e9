import Reckon.Proofs.Alike
import Reckon.Token.Render

/-! Tokens moved to other spans. Neither reordering nor evaluation looks at a span, and rendering
looks only at the text under it. -/

namespace Reckon

/-- Puts another span in the place of the one a token has. -/
def Token.mapSpan (g : Span → Span) : Token → Token
  | number n => .number { n with span := g n.span }
  | operator o => .operator { o with span := g o.span }
  | parenthesis p => .parenthesis { p with span := g p.span }
  | fault e => .fault { e with span := g e.span }
  | endOfInput => .endOfInput

/-- Puts another span in the place of the one a failure is about. -/
def Failure.mapSpan (g : Span → Span) : Failure → Failure
  | malformed e => .malformed { e with span := g e.span }
  | missingOperand o => .missingOperand { o with span := g o.span }
  | divisionByZero o => .divisionByZero { o with span := g o.span }
  | overflow o => .overflow { o with span := g o.span }
  | unexpectedParenthesis p => .unexpectedParenthesis { p with span := g p.span }
  | expectedOperator => .expectedOperator
  | emptyExpression => .emptyExpression

/-- Puts other spans in the place of those that pending entries have. -/
def Pending.mapSpan (g : Span → Span) : Pending → Pending
  | operator o => .operator { o with span := g o.span }
  | opening p => .opening { p with span := g p.span }

def Yard.mapSpan (g : Span → Span) (y : Yard) : Yard :=
  { y with stack := y.stack.map (Pending.mapSpan g) }

/-- What a failure tells: its kind, what it says, and the bytes it is about. -/
def Failure.outline (f : Failure) : Kind × String × Option (Nat × Nat) :=
  (f.kind, f.message, f.span?.map fun s => (s.start, s.stop))

variable {g : Span → Span} {t : Token} {ts : List Token} {c : Calculator} {y : Yard}

theorem Token.span?_mapSpan : (t.mapSpan g).span? = t.span?.map g := by
  cases t <;> rfl

theorem Token.isFault_mapSpan : (t.mapSpan g).isFault = t.isFault := by
  cases t <;> rfl

theorem Failure.span?_mapSpan (f : Failure) : (f.mapSpan g).span? = f.span?.map g := by
  cases f <;> rfl

theorem Token.text_mapSpan (hg : ∀ s, (g s).text = s.text) : (t.mapSpan g).text = t.text := by
  cases t with
  | endOfInput => rfl
  | _ => exact hg _

theorem Token.rendered_mapSpan (hg : ∀ s, (g s).text = s.text) :
    (t.mapSpan g).rendered = t.rendered := by
  cases t with
  | endOfInput => rfl
  | fault e => exact congrArg ("\nError happened at " ++ · ++ ".\nMessage: " ++ e.message) (hg _)
  | _ => exact congrArg (" " ++ ·) (text_mapSpan hg)

theorem render_mapSpan (hg : ∀ s, (g s).text = s.text) (ts : List Token) :
    render (ts.map (Token.mapSpan g)) = render ts := by
  induction ts with
  | nil => rfl
  | cons t ts ih => rw [List.map_cons, render_cons, render_cons, ih, Token.rendered_mapSpan hg]

theorem Failure.kind_mapSpan (f : Failure) : (f.mapSpan g).kind = f.kind := by
  cases f <;> rfl

theorem Failure.message_mapSpan (hg : ∀ s, (g s).text = s.text) (f : Failure) :
    (f.mapSpan g).message = f.message := by
  cases f with
  | malformed e =>
    exact congrArg ("cannot evaluate invalid expression: " ++ e.message ++ " \x60" ++ · ++ "\x60")
      (hg _)
  | unexpectedParenthesis p => exact congrArg ("unexpected token " ++ ·) (hg _)
  | _ => rfl

theorem Failure.outline_mapSpan (hg : ∀ s, (g s).text = s.text)
    (hstart : ∀ s, (g s).start = s.start) (hstop : ∀ s, (g s).stop = s.stop) (f : Failure) :
    (f.mapSpan g).outline = f.outline := by
  have hrange : (f.mapSpan g).span?.map (fun s => (s.start, s.stop)) =
      f.span?.map fun s => (s.start, s.stop) := by
    rw [span?_mapSpan, Option.map_map]
    exact congrArg (Option.map · f.span?) (funext fun s => by simp [hstart, hstop])
  rw [outline, outline, kind_mapSpan, message_mapSpan hg, hrange]

theorem mapError_outline_mapSpan (hg : ∀ s, (g s).text = s.text)
    (hstart : ∀ s, (g s).start = s.start) (hstop : ∀ s, (g s).stop = s.stop)
    (x : Except Failure Int32) :
    (x.mapError (Failure.mapSpan g)).mapError Failure.outline = x.mapError Failure.outline := by
  cases x with
  | ok v => rfl
  | error f => exact congrArg Except.error (f.outline_mapSpan hg hstart hstop)

/-- A calculator does not look at spans. -/
theorem Calculator.accept_mapSpan :
    c.accept (t.mapSpan g) = (c.accept t).mapError (Failure.mapSpan g) := by
  cases t with
  | number n => rfl
  | parenthesis p => rfl
  | fault e => rfl
  | operator o =>
    rcases c with ⟨_ | ⟨b, _ | ⟨a, rest⟩⟩⟩
    · rfl
    · rfl
    · simp only [Token.mapSpan, accept, Operator.apply]
      by_cases hz : o.kind = .divide ∧ b = 0
      · rw [if_pos hz, if_pos hz]
        rfl
      · rw [if_neg hz, if_neg hz]
        cases narrow? (o.kind.exact a.toInt b.toInt) <;> rfl
  | endOfInput => rcases c with ⟨_ | ⟨b, _ | ⟨a, rest⟩⟩⟩ <;> rfl

theorem Calculator.foldlM_mapSpan :
    (ts.map (Token.mapSpan g)).foldlM accept c =
      (ts.foldlM accept c).mapError (Failure.mapSpan g) := by
  induction ts generalizing c with
  | nil => rfl
  | cons t ts ih =>
    have ht := accept_mapSpan (c := c) (t := t) (g := g)
    rw [List.map_cons]
    cases hc : c.accept t with
    | ok c' =>
      rw [hc] at ht
      rw [foldlM_cons_of_ok ht, foldlM_cons_of_ok hc, ih]
    | error f =>
      rw [hc] at ht
      rw [foldlM_cons_of_error ht, foldlM_cons_of_error hc]
      rfl

theorem evaluate_mapSpan :
    (evaluate (ts.map (Token.mapSpan g))).1 = (evaluate ts).1.mapError (Failure.mapSpan g) := by
  rw [evaluate_fst, evaluate_fst, toList_list, toList_list, Calculator.foldlM_mapSpan]
  cases ts.foldlM Calculator.accept {} with
  | error f => rfl
  | ok c => rcases c with ⟨_ | ⟨v, rest⟩⟩ <;> rfl

namespace Yard

theorem releaseFrom_mapSpan (level : Int) (stack : List Pending) :
    releaseFrom level (stack.map (Pending.mapSpan g)) =
      ((releaseFrom level stack).1.map (Token.mapSpan g),
        (releaseFrom level stack).2.map (Pending.mapSpan g)) := by
  induction stack with
  | nil => rfl
  | cons p stack ih =>
    cases p with
    | opening p => rfl
    | operator o =>
      rw [List.map_cons, Pending.mapSpan, releaseFrom, releaseFrom, ih]
      change (if o.precedence < level then _ else _) = _
      split <;> rfl

theorem releaseToOpening_mapSpan (stack : List Pending) :
    releaseToOpening (stack.map (Pending.mapSpan g)) =
      ((releaseToOpening stack).1.map (Token.mapSpan g),
        (releaseToOpening stack).2.map fun r =>
          ({ r.1 with span := g r.1.span }, r.2.map (Pending.mapSpan g))) := by
  induction stack with
  | nil => rfl
  | cons p stack ih =>
    cases p with
    | opening p => rfl
    | operator o =>
      rw [List.map_cons, Pending.mapSpan, releaseToOpening, releaseToOpening, ih]
      rfl

/-- A yard does not look at spans. A fault it finds is found where its parenthesis is now. -/
theorem accept_mapSpan (y : Yard) (t : Token) :
    (y.mapSpan g).accept (t.mapSpan g) =
      ((y.accept t).1.map (Token.mapSpan g), (y.accept t).2.mapSpan g) := by
  cases t with
  | number n => rfl
  | fault e => rfl
  | operator o =>
    have hprecedence : Operator.precedence { o with span := g o.span } = o.precedence := rfl
    simp only [Token.mapSpan, accept, mapSpan, hprecedence, releaseFrom_mapSpan]
    rfl
  | parenthesis p =>
    cases hp : p.isOpen with
    | true => simp [Token.mapSpan, accept, hp, mapSpan, Pending.mapSpan]
    | false =>
      rcases hr : releaseToOpening y.stack with ⟨released, _ | ⟨q, stack⟩⟩ <;>
        simp [Token.mapSpan, accept, hp, mapSpan, releaseToOpening_mapSpan, hr, Fault.unopened]
  | endOfInput =>
    rcases hr : releaseToOpening y.stack with ⟨released, _ | ⟨q, stack⟩⟩ <;>
      simp [Token.mapSpan, accept, mapSpan, releaseToOpening_mapSpan, hr, Fault.unclosed]

theorem released_mapSpan :
    (y.mapSpan g).released (ts.map (Token.mapSpan g)) =
      (y.released ts).map (Token.mapSpan g) := by
  induction ts generalizing y with
  | nil => rfl
  | cons t ts ih =>
    cases hc : y.isCorrect with
    | true =>
      have hg : (y.mapSpan g).isCorrect = true := hc
      rw [List.map_cons, released_cons hg, released_cons hc, accept_mapSpan, ih, List.map_append]
    | false =>
      have hg : (y.mapSpan g).isCorrect = false := hc
      rw [released_of_incorrect hg, released_of_incorrect hc]
      rfl

end Yard

theorem toRpn_mapSpan (ts : List Token) :
    toRpn (ts.map (Token.mapSpan g)) = (toRpn ts).map (Token.mapSpan g) := by
  rw [toRpn_eq, toRpn_eq, toList_list, toList_list, ← Yard.released_mapSpan]
  rfl

theorem evaluate_rpn_mapSpan :
    (evaluate (Rpn.ofStream (ts.map (Token.mapSpan g)))).1 =
      (evaluate (Rpn.ofStream ts)).1.mapError (Failure.mapSpan g) := by
  rw [← evaluate_toList, ← evaluate_toList (Rpn.ofStream ts)]
  change (evaluate (toRpn (ts.map (Token.mapSpan g)))).1 = (evaluate (toRpn ts)).1.mapError _
  rw [toRpn_mapSpan, evaluate_mapSpan]

end Reckon
