import Mathlib.Logic.Relation
import Reckon.Proofs.Calculator
import Reckon.Proofs.Calls
import Reckon.Proofs.Lexing
import Reckon.Proofs.Pulls

/-! What reverse Polish notation looks like, whatever supply it comes from and however often it is
pulled or evaluated: no parentheses, and a fault only at its very end. -/

namespace Reckon

/-- Nothing has been pulled from a stream, though notes may have been left with it. -/
inductive TokenStream.Untouched {σ : Type} [TokenStream σ] (s : σ) : σ → Prop where
  | refl : Untouched s s
  | note (j : Journal) {s' : σ} : Untouched s s' → Untouched s (note j s')

open TokenStream

namespace Rpn

section Uses

variable {σ : Type} [TokenStream σ] {p p' q : Rpn σ} {P : Rpn σ → Prop} {c : Calculator}
  {o : Option Token} {t : Token} {ts : List Token}

/-- A token is asked for, or the rest evaluated as far as that goes, and the call returns. -/
inductive Use : Rpn σ → Rpn σ → Prop where
  | next {p p' : Rpn σ} {ts : List Token} {o : Option Token} (h : p.Returns ts o p') : Use p p'
  | evaluate {p p' : Rpn σ} {value : Except Failure Int32} (h : p.Evaluates value p') : Use p p'

/-- What is left after any number of uses, failed evaluations included. -/
def Uses : Rpn σ → Rpn σ → Prop := Relation.ReflTransGen Use

/-- Neither a turn nor a note ends it. -/
structure Kept (P : Rpn σ → Prop) : Prop where
  returned {p q : Rpn σ} {o : Option Token} : P p → p.turn = .returned o q → P q
  took {p q : Rpn σ} {t : Token} : P p → p.turn = .took t q → P q
  note (j : Journal) {p : Rpn σ} : P p → P (p.note j)

theorem Kept.returns (h : Kept P) (hr : p.Returns ts o q) (hp : P p) : P q := by
  induction hr with
  | returned hq => exact h.returned hp hq
  | took hq _ ih => exact ih (h.took hp hq)

theorem Kept.feeds {r : Except Failure Calculator} (h : Kept P) (hr : p.Feeds c r q)
    (hp : P p) : P q := by
  induction hr with
  | dry hr | rejected hr => exact h.returns hr hp
  | accepted hr _ _ ih => exact ih (h.returns hr hp)

theorem Kept.uses (h : Kept P) (hu : Uses p q) (hp : P p) : P q := by
  induction hu with
  | refl => exact hp
  | tail _ hu ih =>
    cases hu with
    | next hr => exact h.returns hr ih
    | evaluate he =>
      obtain ⟨r, q, hr, -, rfl⟩ := he
      exact h.note _ (h.feeds hr (h.note _ ih))

/-- What is ready holds no parenthesis, and a fault only as its last token. Such a fault is what the
yard has failed with. -/
def Orderly (p : Rpn σ) : Prop :=
  ∃ us : List Token, (∀ u ∈ us, u.isFault = false ∧ ∀ q, u ≠ .parenthesis q) ∧
    (p.ready = us ∨ p.isCorrect = false ∧ ∃ e, p.ready = us ++ [.fault e])

/-- The fault has been handed out. -/
def Spent (p : Rpn σ) : Prop := p.ready = [] ∧ p.isCorrect = false

omit [TokenStream σ] in
theorem orderly_ofStream (s : σ) : Orderly (ofStream s) := ⟨[], by simp, Or.inl rfl⟩

theorem orderly_accept (hr : p.ready = []) (t : Token) : Orderly (p.accept t) := by
  have harith : ∀ u : Token, u.isArithmetic = true →
      u.isFault = false ∧ ∀ q, u ≠ .parenthesis q := by
    intro u hu
    refine ⟨Token.isFault_of_isArithmetic hu, ?_⟩
    rintro q rfl
    cases hu
  have ho := p.yard.accept_outcome t
  unfold Orderly Rpn.accept isCorrect
  rw [hr]
  generalize p.yard.accept t = r at ho
  cases ho with
  | @pass _ us _ hus => exact ⟨us, fun u hu => harith u (hus u hu), Or.inl rfl⟩
  | @finish us _ hus =>
    refine ⟨us ++ [.endOfInput], ?_, Or.inl rfl⟩
    intro u hu
    rcases List.mem_append.1 hu with hu | hu
    · exact harith u (hus u hu)
    · cases List.mem_singleton.1 hu
      exact ⟨rfl, nofun⟩
  | @fail _ us e _ hus _ hc =>
    exact ⟨us, fun u hu => harith u (hus u hu), Or.inr ⟨hc, e, rfl⟩⟩

omit [TokenStream σ] in
/-- The first of what is ready is no parenthesis. If it is a fault, nothing else is ready. -/
theorem Orderly.of_ready {ready : List Token} (h : Orderly p) (hr : p.ready = t :: ready) :
    Orderly { p with ready } ∧ (∀ q, t ≠ .parenthesis q) ∧
      (t.isFault = true → Spent { p with ready }) := by
  obtain ⟨us, hus, heq⟩ := h
  rw [hr] at heq
  cases us with
  | nil =>
    rcases heq with heq | ⟨hc, e, heq⟩ <;> cases heq
    exact ⟨⟨[], by simp, Or.inl rfl⟩, nofun, fun _ => ⟨rfl, hc⟩⟩
  | cons u us =>
    obtain ⟨⟨hf, hq⟩, hrest⟩ := List.forall_mem_cons.1 hus
    have hfault : u.isFault = true → Spent { p with ready } := by
      intro hu
      rw [hf] at hu
      cases hu
    rcases heq with heq | ⟨hc, e, heq⟩ <;> cases heq
    · exact ⟨⟨_, hrest, Or.inl rfl⟩, hq, hfault⟩
    · exact ⟨⟨us, hrest, Or.inr ⟨hc, e, rfl⟩⟩, hq, hfault⟩

theorem Orderly.returned (h : Orderly p) (hq : p.turn = .returned o q) :
    Orderly q ∧ ∀ t, o = some t →
      (∀ q, t ≠ .parenthesis q) ∧ (t.isFault = true → Spent q) := by
  cases turns hq with
  | ready hr =>
    obtain ⟨hrest, hfirst⟩ := h.of_ready hr
    refine ⟨hrest, ?_⟩
    rintro _ ⟨⟩
    exact hfirst
  | dry | failed => exact ⟨h, nofun⟩

theorem Orderly.took (hq : p.turn = .took t q) : Orderly q := by
  cases turns hq with
  | pull hr => exact orderly_accept hr t

theorem kept_orderly : Kept (Orderly (σ := σ)) where
  returned h hq := (h.returned hq).1
  took _ hq := Orderly.took hq
  note _ _ h := h

theorem Orderly.returns (h : Orderly p) (hr : p.Returns ts (some t) q) :
    (∀ q, t ≠ .parenthesis q) ∧ (t.isFault = true → Spent q) := by
  generalize ho : some t = o at hr
  induction hr with
  | returned hq => exact (h.returned hq).2 t ho.symm
  | took hq _ ih => exact ih (Orderly.took hq) ho

theorem Spent.turn_eq (h : Spent p) : p.turn = .returned none p :=
  Rpn.turn_eq (.failed h.1 h.2)

theorem kept_spent : Kept (Spent (σ := σ)) where
  returned h hq := by
    cases h.turn_eq.symm.trans hq
    exact h
  took h hq := by cases h.turn_eq.symm.trans hq
  note _ _ h := h

theorem Spent.silent (h : Spent p) (hu : Uses p q) : Silent q :=
  silent_of_turn (kept_spent.uses hu h).turn_eq

/-- After a fault a turn takes no token. -/
theorem turn_ne_took (hc : p.isCorrect = false) (t : Token) (q : Rpn σ) : p.turn ≠ .took t q := by
  intro hq
  cases turns hq with
  | pull _ hc' =>
    rw [hc] at hc'
    cases hc'

theorem Returns.eq_nil (hr : p.Returns ts o q) (hc : p.isCorrect = false) : ts = [] := by
  cases hr with
  | returned => rfl
  | took hq => exact (turn_ne_took hc _ _ hq).elim

/-- After a fault the supply is left alone. -/
theorem kept_untouched (s : σ) :
    Kept fun p : Rpn σ => p.isCorrect = false ∧ Untouched s p.supply where
  returned h hq := by
    cases turns hq with
    | ready | failed => exact h
    | dry _ hc =>
      rw [h.1] at hc
      cases hc
  took h hq := (turn_ne_took h.1 _ _ hq).elim
  note j _ h := ⟨h.1, h.2.note j⟩

/-- A calculator fed from here does not meet a parenthesis, and a fault it meets is the last. -/
theorem Orderly.feeds {f : Failure} (h : Orderly p) (hr : p.Feeds c (.error f) q) :
    f.isInternal = false ∧ ∀ e, f = .malformed e → Spent q := by
  generalize hf : Except.error f = r at hr
  induction hr with
  | dry => cases hf
  | accepted hr _ _ ih => exact ih (kept_orderly.returns hr h) hf
  | rejected hr hc =>
    cases hf
    have hnext := h.returns hr
    cases Calculator.rejects_of_accept hc with
    | operator hf =>
      rcases hf with rfl | rfl | rfl <;> refine ⟨rfl, fun e he => ?_⟩ <;> cases he
    | parenthesis q => exact (hnext.1 q rfl).elim
    | fault e => exact ⟨rfl, fun _ _ => hnext.2 rfl⟩
    | emptyExpression | expectedOperator =>
      refine ⟨rfl, fun e he => ?_⟩
      cases he

theorem Orderly.evaluates {f : Failure} (h : Orderly p) (he : p.Evaluates (.error f) q) :
    f.isInternal = false ∧ ∀ e, f = .malformed e → Spent q := by
  obtain ⟨r, q, hr, hf, rfl⟩ := he
  rcases r with g | ⟨_ | ⟨v, rest⟩⟩
  · cases hf
    obtain ⟨hi, hspent⟩ := (kept_orderly.note _ h).feeds hr
    exact ⟨hi, fun e he => kept_spent.note _ (hspent e he)⟩
  · cases hf
    exact ⟨rfl, nofun⟩
  · cases hf

end Uses

end Rpn

namespace Yard

variable {y : Yard} {ts : List Token}

/-- Tokens of which only the last is a fault or the end of input are released as numbers and
operators and one such token. -/
theorem released_ends (h : Ends ts) (hy : y.isCorrect = true) :
    ∃ us t, y.released ts = us ++ [t] ∧ (∀ u ∈ us, u.isArithmetic = true) ∧
      (t.isFault = true ∧ (y.after ts).isCorrect = false ∨
        t = .endOfInput ∧ (y.after ts).isCorrect = true) := by
  obtain ⟨vs, v, rfl, hvs, hv⟩ := h
  induction vs generalizing y with
  | nil =>
    have ho := y.accept_outcome v
    simp only [List.nil_append, released, after, hy, if_true, List.append_nil]
    generalize y.accept v = r at ho
    cases ho with
    | pass _ hf he => simp [hf, he] at hv
    | @finish us _ hus hc => exact ⟨us, _, rfl, hus, Or.inr ⟨rfl, hc.trans hy⟩⟩
    | @fail _ us e _ hus _ hc => exact ⟨us, _, rfl, hus, Or.inl ⟨rfl, hc⟩⟩
  | cons w vs ih =>
    obtain ⟨hw, hvs⟩ := List.forall_mem_cons.1 hvs
    have ho := y.accept_outcome w
    simp only [List.cons_append, released, after, hy, if_true]
    generalize y.accept w = r at ho
    cases ho with
    | @pass _ us y' hus _ _ hc =>
      obtain ⟨us', t, heq, hus', ht⟩ := ih (hc.trans hy) hvs
      refine ⟨us ++ us', t, ?_, ?_, ht⟩
      · rw [heq, List.append_assoc]
      · exact List.forall_mem_append.2 ⟨hus, hus'⟩
    | finish => exact (hw.2 rfl).elim
    | @fail _ us e y' hus _ hc =>
      refine ⟨us, .fault e, ?_, hus, Or.inl ⟨rfl, ?_⟩⟩
      · rw [released_of_incorrect hc, List.append_nil]
      · rw [after_of_incorrect hc, hc]

end Yard

/-- Numbers, operators and ends of input are all that ever comes out before a fault, and nothing
comes out after it. From the moment the yard fails, the supply is left alone. So an evaluation, be
it the first or one that resumes where others failed, never has a parenthesis to complain about.
This holds for every supply, also one that never runs dry and keeps a call from returning. With one
that does run dry every call returns. What a text yields ends with the end of input or the fault,
and either comes once. -/
theorem shape_of_uses :
    (∀ (σ : Type) [TokenStream σ] (s : σ) (p : Rpn σ), (Rpn.ofStream s).Uses p →
      (∀ ts t p', p.Returns ts (some t) p' → (∀ q, t ≠ .parenthesis q) ∧
        (t.isFault = true → ∀ q, p'.Uses q → q.Silent)) ∧
      (p.isCorrect = false → ∀ p', p.Uses p' →
        p'.isCorrect = false ∧ Untouched p.supply p'.supply ∧
          ∀ ts o q, p'.Returns ts o q → ts = []) ∧
      ∀ f p', p.Evaluates (.error f) p' → f.isInternal = false ∧
        ∀ e, f = .malformed e → ∀ q, p'.Uses q → q.Silent) ∧
    (∀ (σ : Type) [FiniteTokenStream σ] (p : Rpn σ),
      (∀ o p', (∃ ts, p.Returns ts o p') ↔ p.next = (o, p')) ∧
      ∀ value p', p.Evaluates value p' ↔ evaluate p = (value, p')) ∧
    ∀ text, text ≠ "" → ∃ us t, (∀ u ∈ us, u.isNumber = true ∨ u.isOperator = true) ∧
      (t.isFault = true ∨ t = .endOfInput) ∧
      (Rpn.ofStream (Scanner.ofText text)).Yields (us ++ [t]) := by
  refine ⟨?_, fun σ _ p => ⟨fun o p' => Rpn.returns_iff, fun v p' => Rpn.evaluates_iff⟩, ?_⟩
  · intro σ _ s p hu
    have hp := Rpn.kept_orderly.uses hu (Rpn.orderly_ofStream s)
    refine ⟨?_, ?_, ?_⟩
    · intro ts t p' hr
      obtain ⟨hq, hf⟩ := hp.returns hr
      exact ⟨hq, fun h q hu => (hf h).silent hu⟩
    · intro hc p' hu
      obtain ⟨hc', hs⟩ := (Rpn.kept_untouched p.supply).uses hu ⟨hc, .refl⟩
      exact ⟨hc', hs, fun ts o q hr => hr.eq_nil hc'⟩
    · intro f p' he
      obtain ⟨hi, hf⟩ := hp.evaluates he
      exact ⟨hi, fun e h q hu => (hf e h).silent hu⟩
  · intro text hne
    obtain ⟨us, t, heq, hus, ht⟩ :=
      Yard.released_ends (y := {}) (ends_tokenize hne) rfl
    refine ⟨us, t, ?_, ht.imp And.left And.left, ?_⟩
    · intro u hu
      simpa [Token.isArithmetic] using hus u hu
    · have hy := Rpn.yields_toRpn (Scanner.ofText text)
      rw [toRpn_eq] at hy
      rw [← heq]
      exact hy

/-- Nothing comes of the parentheses that are opened for ever behind the fault. -/
theorem shape_of_uses_unopened :
    let source := Source.ofText "<input>" "2)("
    let two : Token := .number ⟨⟨source, 0, 1⟩, 2⟩
    let closing : Parenthesis := ⟨⟨source, 1, 2⟩, false⟩
    let opening : Parenthesis := ⟨⟨source, 2, 3⟩, true⟩
    let openings : Nat → Token := fun _ => .parenthesis opening
    let ts : Nat → Token
      | 0 => two
      | 1 => .parenthesis closing
      | _ => .parenthesis opening
    let p : Rpn (Nat → Token) := ⟨fun i => ts (i + 1), {}, []⟩
    let p' : Rpn (Nat → Token) := ⟨openings, { isCorrect := false }, []⟩
    (Rpn.ofStream ts).Uses p ∧
      p.Returns [.parenthesis closing] (some (.fault (.unopened closing))) p' ∧
      ∀ q, p'.Uses q → q.Silent := by
  intro source two closing opening openings ts p p'
  have hfirst : (Rpn.ofStream ts).Returns [two] (some two) p := .took rfl (.returned rfl)
  have hfault : p.Returns [.parenthesis closing] (some (.fault (.unopened closing))) p' :=
    .took rfl (.returned rfl)
  have hu : (Rpn.ofStream ts).Uses p := .single (.next hfirst)
  exact ⟨hu, hfault, ((shape_of_uses.1 _ ts p hu).1 _ _ _ hfault).2 rfl⟩

end Reckon
