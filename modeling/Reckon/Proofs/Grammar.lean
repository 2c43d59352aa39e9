import Reckon.Proofs.Stream
import Reckon.Proofs.Yard

/-! The grammar of infix expressions and their trees. A yard puts the tokens of an expression in the
order of its tree. -/

namespace Reckon

inductive Expr where
  | number (n : Number)
  | binary (o : Operator) (l r : Expr)

inductive Phrase where
  | expr
  | term
  | factor

/-- The tokens of a phrase with its tree. Sums and products group to the left. -/
inductive Derives : Phrase → List Token → Expr → Prop where
  | number (n : Number) : Derives .factor [.number n] (.number n)
  | group {p q : Parenthesis} {ts : List Token} {e : Expr} (hp : p.isOpen = true)
      (hq : q.isOpen = false) :
      Derives .expr ts e → Derives .factor (.parenthesis p :: ts ++ [.parenthesis q]) e
  | factor {ts : List Token} {e : Expr} : Derives .factor ts e → Derives .term ts e
  | product {o : Operator} {ts us : List Token} {l r : Expr}
      (ho : o.kind = .multiply ∨ o.kind = .divide) :
      Derives .term ts l → Derives .factor us r →
      Derives .term (ts ++ .operator o :: us) (.binary o l r)
  | term {ts : List Token} {e : Expr} : Derives .term ts e → Derives .expr ts e
  | sum {o : Operator} {ts us : List Token} {l r : Expr}
      (ho : o.kind = .plus ∨ o.kind = .minus) :
      Derives .expr ts l → Derives .term us r →
      Derives .expr (ts ++ .operator o :: us) (.binary o l r)

/-- The tree with every operator behind its operands. -/
def Expr.reversed : Expr → List Token
  | number n => [.number n]
  | binary o l r => l.reversed ++ r.reversed ++ [.operator o]

/-- The loosest operators that may stand in a phrase outside parentheses. -/
def Phrase.level : Phrase → Int
  | expr => 0
  | term => 1
  | factor => 2

theorem Operator.precedence_lt_two (o : Operator) : o.precedence < 2 := by
  unfold precedence OperatorKind.precedence
  split <;> decide

namespace Yard

/-- Nothing on top of the stack goes before the phrase is complete. -/
def Stays (stack : List Pending) (ℓ : Phrase) : Prop :=
  ∀ o rest, stack = .operator o :: rest → o.precedence < ℓ.level

/-- What follows a phrase releases all its operators. -/
def Completes (ts : List Token) (ℓ : Phrase) : Prop :=
  ∀ o : Operator, ℓ.level ≤ o.precedence → ∃ t us, ts = t :: us ∧ t.releases o = true

variable {o : Operator} {stack : List Pending} {ℓ m : Phrase} {ts us : List Token}

theorem Stays.mono (h : Stays stack ℓ) (hm : ℓ.level ≤ m.level) : Stays stack m := by
  intro o rest hs
  exact Int.lt_of_lt_of_le (h o rest hs) hm

theorem Completes.mono (h : Completes ts ℓ) (hm : ℓ.level ≤ m.level) : Completes ts m := by
  intro o ho
  exact h o (Int.le_trans hm ho)

theorem stays_factor (stack : List Pending) : Stays stack .factor :=
  fun o _ _ => o.precedence_lt_two

theorem completes_factor (ts : List Token) : Completes ts .factor := by
  intro o ho
  exact (Int.not_lt.2 ho o.precedence_lt_two).elim

/-- An operator of the phrase's own level completes what stands to its left and then waits for what
stands to its right. -/
theorem released_operator (ho : o.precedence = ℓ.level) (hs : Stays stack ℓ) (ts : List Token) :
    released ⟨stack, true⟩ (.operator o :: ts) = released ⟨.operator o :: stack, true⟩ ts := by
  rw [released_cons rfl]
  simp [accept, ho, releaseFrom_of_lt hs]

theorem completes_operator (ho : o.precedence = ℓ.level) (ts : List Token) :
    Completes (.operator o :: ts) ℓ := by
  intro o' ho'
  exact ⟨_, _, rfl, by simpa [Token.releases, ho] using ho'⟩

theorem released_of_completes (ho : ℓ.level ≤ o.precedence) (h : Completes ts ℓ) :
    released ⟨.operator o :: stack, true⟩ ts = .operator o :: released ⟨stack, true⟩ ts := by
  obtain ⟨t, us, rfl, ht⟩ := h o ho
  rw [released_cons rfl, released_cons rfl, accept_operator_cons ht, List.cons_append]

/-- A phrase passes a yard as its tree, and leaves nothing behind. -/
theorem released_derives {e : Expr} (h : Derives ℓ ts e) (hs : Stays stack ℓ)
    (hc : Completes us ℓ) :
    released ⟨stack, true⟩ (ts ++ us) = e.reversed ++ released ⟨stack, true⟩ us := by
  -- An operand meets other stacks and other tokens behind it than the phrase it is part of.
  induction h generalizing stack us with
  | number n => rfl
  | @group p q ts e hp hq _ ih =>
    have hopen : Stays (.opening p :: stack) .expr := by
      rintro o rest heq
      cases heq
    have hclose : Completes (.parenthesis q :: us) .expr :=
      fun o _ => ⟨_, _, rfl, by simp [Token.releases, hq]⟩
    have := ih hopen hclose
    simp only [List.cons_append, List.append_assoc, List.nil_append]
    rw [released_cons rfl]
    simp only [accept, hp, if_true, List.nil_append]
    rw [this, released_cons rfl]
    simp [accept, hq, releaseToOpening]
  | factor _ ih => exact ih (stays_factor _) (completes_factor _)
  | @product o ts us' l r ho _ _ ihl ihr =>
    have hp : o.precedence = Phrase.term.level := by
      rcases ho with ho | ho <;> simp [Operator.precedence, ho] <;> rfl
    rw [List.append_assoc, List.cons_append, ihl hs (completes_operator hp _),
      released_operator hp hs, ihr (stays_factor _) (completes_factor _),
      released_of_completes (Int.le_of_eq hp.symm) hc]
    simp [Expr.reversed]
  | term _ ih => exact ih (hs.mono (by decide)) (hc.mono (by decide))
  | @sum o ts us' l r ho _ _ ihl ihr =>
    have hp : o.precedence = Phrase.expr.level := by
      rcases ho with ho | ho <;> simp [Operator.precedence, ho] <;> rfl
    have hterm : Stays (.operator o :: stack) .term := by
      rintro o' rest heq
      cases heq
      rw [hp]
      decide
    rw [List.append_assoc, List.cons_append, ihl hs (completes_operator hp _),
      released_operator hp hs, ihr hterm (hc.mono (by decide)),
      released_of_completes (Int.le_of_eq hp.symm) hc]
    simp [Expr.reversed]

/-- A whole expression is reordered to its tree and the end of input. -/
theorem released_expr {e : Expr} (h : Derives .expr ts e) :
    ({} : Yard).released (ts ++ [.endOfInput]) = e.reversed ++ [.endOfInput] :=
  released_derives h (fun _ _ heq => by cases heq) (fun _ _ => ⟨_, _, rfl, rfl⟩)

end Yard

end Reckon
