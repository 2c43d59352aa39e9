import Reckon.Calculator

/-! Calls on reverse Polish notation whatever its supply is. A supply that never runs dry can keep a
call from returning, so calls that do return are a relation. Where the supply is finite, all do. -/

namespace Reckon

/-- A supply that never runs dry. -/
instance : TokenStream (Nat → Token) where
  next ts := (some (ts 0), fun i => ts (i + 1))
  note _ ts := ts

variable {σ : Type}

namespace Rpn

section Returning

variable [TokenStream σ] {p p' q q' : Rpn σ} {o o' : Option Token} {t : Token} {ts us : List Token}

/-- A call of `next` that returns: it takes `ts` from the supply, hands out `o` and leaves `p'`. -/
inductive Returns : Rpn σ → List Token → Option Token → Rpn σ → Prop where
  | returned {p p' : Rpn σ} {o : Option Token} (h : p.turn = .returned o p') : Returns p [] o p'
  | took {p q p' : Rpn σ} {t : Token} {ts : List Token} {o : Option Token}
    (h : p.turn = .took t q) (hr : Returns q ts o p') : Returns p (t :: ts) o p'

/-- Every call returns at once, and with nothing. -/
def Silent (p : Rpn σ) : Prop := ∀ ts o p', Returns p ts o p' ↔ ts = [] ∧ o = none ∧ p' = p

/-- What comes of `p`, in the midst of a call or after any number of them, by the time `ts` has been
taken from the supply. -/
inductive Reaches (p : Rpn σ) : List Token → Rpn σ → Prop where
  | refl : Reaches p [] p
  | returned {q q' : Rpn σ} {ts : List Token} {o : Option Token} (h : Reaches p ts q)
    (hq : q.turn = .returned o q') : Reaches p ts q'
  | took {q q' : Rpn σ} {ts : List Token} {t : Token} (h : Reaches p ts q)
    (hq : q.turn = .took t q') : Reaches p (ts ++ [t]) q'

/-- A run of a calculator over reverse Polish notation that returns. -/
inductive Feeds : Rpn σ → Calculator → Except Failure Calculator → Rpn σ → Prop where
  | dry {p p' : Rpn σ} {c : Calculator} {ts : List Token} (h : p.Returns ts none p') :
    Feeds p c (.ok c) p'
  | accepted {p p' q : Rpn σ} {c c' : Calculator} {t : Token} {ts : List Token}
    {r : Except Failure Calculator} (h : p.Returns ts (some t) p') (hc : c.accept t = .ok c')
    (hr : Feeds p' c' r q) : Feeds p c r q
  | rejected {p p' : Rpn σ} {c : Calculator} {t : Token} {ts : List Token} {f : Failure}
    (h : p.Returns ts (some t) p') (hc : c.accept t = .error f) : Feeds p c (.error f) p'

/-- An evaluation that returns. -/
def Evaluates (p : Rpn σ) (value : Except Failure Int32) (p' : Rpn σ) : Prop :=
  ∃ r q, (p.note [.opened .evaluate, .entered .evaluate]).Feeds {} r q ∧
    value = (Calculator.conclude r).1 ∧ p' = q.note (Calculator.conclude r).2

theorem Returns.unique (h : Returns p ts o q) (h' : Returns p us o' q') :
    ts = us ∧ o = o' ∧ q = q' := by
  induction h generalizing us with
  | returned h =>
    cases h' with
    | returned h' =>
      cases h.symm.trans h'
      exact ⟨rfl, rfl, rfl⟩
    | took h' => cases h.symm.trans h'
  | took h _ ih =>
    cases h' with
    | returned h' => cases h.symm.trans h'
    | took h' hr' =>
      cases h.symm.trans h'
      obtain ⟨rfl, ho, hq⟩ := ih hr'
      exact ⟨rfl, ho, hq⟩

theorem silent_of_turn (h : p.turn = .returned none p) : Silent p := by
  intro ts o p'
  constructor
  · intro hr
    exact hr.unique (.returned h)
  · rintro ⟨rfl, rfl, rfl⟩
    exact .returned h

theorem Reaches.call (h : Reaches p ts q) (hr : Returns q us o q') : Reaches p (ts ++ us) q' := by
  induction hr generalizing ts with
  | returned hq =>
    rw [List.append_nil]
    exact h.returned hq
  | took hq _ ih =>
    rw [List.append_cons]
    exact ih (h.took hq)

end Returning

section Finite

variable [FiniteTokenStream σ] {p p' : Rpn σ} {o : Option Token}

/-- A supply that runs dry lets every call return. -/
theorem exists_returns (p : Rpn σ) : ∃ ts, Returns p ts p.next.1 p.next.2 := by
  induction p using next_induction with
  | ready p t ready hr =>
    rw [next_of_ready hr]
    exact ⟨[], .returned (turn_eq (.ready hr))⟩
  | dry p supply hr hc hs =>
    rw [next_of_none hr hc hs]
    exact ⟨[], .returned (turn_eq (.dry hr hc hs))⟩
  | pull p t supply hr hc hs ih =>
    obtain ⟨ts, h⟩ := ih
    rw [next_of_some hr hc hs]
    exact ⟨t :: ts, .took (turn_eq (.pull hr hc hs)) h⟩
  | failed p hr hc =>
    rw [next_of_incorrect hr hc]
    exact ⟨[], .returned (turn_eq (.failed hr hc))⟩

theorem returns_iff : (∃ ts, Returns p ts o p') ↔ p.next = (o, p') := by
  obtain ⟨us, hnext⟩ := p.exists_returns
  constructor
  · rintro ⟨ts, h⟩
    obtain ⟨-, rfl, rfl⟩ := h.unique hnext
    rfl
  · intro h
    rw [h] at hnext
    exact ⟨us, hnext⟩

theorem feeds_iff {c : Calculator} {r : Except Failure Calculator} :
    p.Feeds c r p' ↔ c.run p = (r, p') := by
  constructor
  · intro h
    induction h with
    | dry h => exact Calculator.run_of_none (returns_iff.1 ⟨_, h⟩)
    | accepted h hc _ ih => exact (Calculator.run_of_ok (returns_iff.1 ⟨_, h⟩) hc).trans ih
    | rejected h hc => exact Calculator.run_of_error (returns_iff.1 ⟨_, h⟩) hc
  · intro h
    fun_induction Calculator.run c p with
    | case1 c p q hn =>
      cases h
      obtain ⟨ts, hq⟩ := returns_iff.2 hn
      exact .dry hq
    | case2 c p t q hn _ c' hc ih =>
      obtain ⟨ts, hq⟩ := returns_iff.2 hn
      exact .accepted hq hc (ih h)
    | case3 c p t q hn _ f hc =>
      cases h
      obtain ⟨ts, hq⟩ := returns_iff.2 hn
      exact .rejected hq hc

theorem evaluates_iff {value : Except Failure Int32} :
    p.Evaluates value p' ↔ evaluate p = (value, p') := by
  constructor
  · rintro ⟨r, q, hr, rfl, rfl⟩
    have hrun := feeds_iff.1 hr
    simp only [evaluate]
    rw [show TokenStream.note _ p = p.note _ from rfl, hrun]
    rfl
  · intro h
    refine ⟨_, _, feeds_iff.2 rfl, ?_, ?_⟩
    · exact (congrArg Prod.fst h).symm
    · exact (congrArg Prod.snd h).symm

end Finite

end Rpn

end Reckon
