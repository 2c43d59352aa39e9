import Reckon.Stream
import Reckon.Yard

/-! Infix tokens in reverse Polish notation, reordered as they are asked for. -/

namespace Reckon

/-- A supply of tokens with a yard behind it. `ready` holds what the yard has released and nobody
has pulled; as long as it holds anything, no token is pulled from the supply. -/
structure Rpn (σ : Type) where
  supply : σ
  yard : Yard
  ready : List Token

namespace Rpn

variable {σ : Type} {p p' : Rpn σ} {t : Token}

section

variable [TokenStream σ]

def ofStream (supply : σ) : Rpn σ := { supply, yard := {}, ready := [] }

def isCorrect (p : Rpn σ) : Bool := p.yard.isCorrect

/-- What the journal says about a released token. Where the yard itself finds a fault, it says so
first. -/
def recordRelease : Token → Journal
  | .fault f => [.event (.unbalanced f.span.text f.message), .event (.emitting f.span.text)]
  | t => [.event (.emitting t.text)]

/-- What the journal says about a token that releases the tokens `released`. -/
def recordAccept (t : Token) (released : List Token) : Journal :=
  let scope := .accept t.text
  let body :=
    match t with
    | .fault _ => [.event .passingOn, .event (.emitting t.text)]
    | _ => released.flatMap recordRelease
  .opened scope :: .entered scope :: body ++ [.left scope]

def note (j : Journal) (p : Rpn σ) : Rpn σ := { p with supply := TokenStream.note j p.supply }

/-- Takes one token from the supply through the yard. -/
def accept (p : Rpn σ) (t : Token) : Rpn σ :=
  let (released, yard) := p.yard.accept t
  { supply := TokenStream.note (recordAccept t released) p.supply
    yard
    ready := p.ready ++ released }

/-- What one turn of the loop in `next` comes to. -/
inductive Turn (σ : Type) where
  /-- The call returns. -/
  | returned (o : Option Token) (p : Rpn σ)
  /-- A token has been taken through the yard, and the loop goes on. -/
  | took (t : Token) (p : Rpn σ)

/-- Hands out what is ready. Where nothing is, a token is pulled, but after a fault the supply is
left alone. -/
def turn (p : Rpn σ) : Turn σ :=
  match p.ready with
  | t :: ready => .returned (some t) { p with ready }
  | [] =>
    if p.isCorrect then
      match TokenStream.next p.supply with
      | (none, supply) => .returned none { p with supply }
      | (some t, supply) => .took t (accept { p with supply } t)
    else .returned none p

/-- All that one turn can do. -/
inductive Turns : Rpn σ → Turn σ → Prop where
  | ready {p : Rpn σ} {t : Token} {ready : List Token} (hr : p.ready = t :: ready) :
    Turns p (.returned (some t) { p with ready })
  | dry {p : Rpn σ} {supply : σ} (hr : p.ready = []) (hc : p.isCorrect = true)
    (hs : TokenStream.next p.supply = (none, supply)) : Turns p (.returned none { p with supply })
  | pull {p : Rpn σ} {t : Token} {supply : σ} (hr : p.ready = []) (hc : p.isCorrect = true)
    (hs : TokenStream.next p.supply = (some t, supply)) :
    Turns p (.took t (accept { p with supply } t))
  | failed {p : Rpn σ} (hr : p.ready = []) (hc : p.isCorrect = false) : Turns p (.returned none p)

theorem turns {r : Turn σ} (h : p.turn = r) : Turns p r := by
  subst h
  unfold turn
  split
  · next hr => exact .ready hr
  · next hr =>
    split
    · next hc =>
      split
      · next hs => exact .dry hr hc hs
      · next hs => exact .pull hr hc hs
    · next hc => exact .failed hr (by simpa using hc)

theorem turn_eq {r : Turn σ} (h : Turns p r) : p.turn = r := by
  cases h with
  | ready hr => simp [turn, hr]
  | dry hr hc hs | pull hr hc hs => simp [turn, hr, hc, hs]
  | failed hr hc => simp [turn, hr, hc]

end

variable [FiniteTokenStream σ]

theorem remaining_accept_le (p : Rpn σ) (t : Token) :
    FiniteTokenStream.remaining (p.accept t).supply ≤ FiniteTokenStream.remaining p.supply :=
  FiniteTokenStream.remaining_note_le ..

theorem remaining_took_lt (h : p.turn = .took t p') :
    FiniteTokenStream.remaining p'.supply < FiniteTokenStream.remaining p.supply := by
  cases turns h with
  | pull _ _ hs =>
    exact Nat.lt_of_le_of_lt (remaining_accept_le ..) (FiniteTokenStream.remaining_next_lt hs)

/-- The next token in reverse Polish notation. -/
def next (p : Rpn σ) : Option Token × Rpn σ :=
  match h : p.turn with
  | .returned o p' => (o, p')
  | .took _ p' =>
    have := remaining_took_lt h
    next p'
termination_by FiniteTokenStream.remaining p.supply

theorem next_of_returned {o : Option Token} (h : p.turn = .returned o p') : p.next = (o, p') := by
  rw [next]
  split <;> simp_all

theorem next_of_took (h : p.turn = .took t p') : p.next = p'.next := by
  rw [next]
  split <;> simp_all

theorem next_of_ready {ready : List Token} (h : p.ready = t :: ready) :
    p.next = (some t, { p with ready }) :=
  next_of_returned (turn_eq (.ready h))

theorem next_of_incorrect (hr : p.ready = []) (hc : p.isCorrect = false) :
    p.next = (none, p) :=
  next_of_returned (turn_eq (.failed hr hc))

theorem next_of_none {supply : σ} (hr : p.ready = []) (hc : p.isCorrect = true)
    (h : TokenStream.next p.supply = (none, supply)) :
    p.next = (none, { p with supply }) :=
  next_of_returned (turn_eq (.dry hr hc h))

theorem next_of_some {supply : σ} (hr : p.ready = []) (hc : p.isCorrect = true)
    (h : TokenStream.next p.supply = (some t, supply)) :
    p.next = (accept { p with supply } t).next :=
  next_of_took (turn_eq (.pull hr hc h))

/-- A call takes tokens until something is ready, the supply is dry or the yard fails. -/
theorem next_induction {P : Rpn σ → Prop}
    (ready : ∀ p t ready, p.ready = t :: ready → P p)
    (dry : ∀ p supply, p.ready = [] → p.isCorrect = true →
      TokenStream.next p.supply = (none, supply) → P p)
    (pull : ∀ p t supply, p.ready = [] → p.isCorrect = true →
      TokenStream.next p.supply = (some t, supply) → P (accept { p with supply } t) → P p)
    (failed : ∀ p, p.ready = [] → p.isCorrect = false → P p)
    (p : Rpn σ) : P p := by
  induction hn : FiniteTokenStream.remaining p.supply using Nat.strongRecOn generalizing p with
  | _ n ih =>
    subst hn
    generalize hturn : p.turn = r
    cases turns hturn with
    | ready hr => exact ready p _ _ hr
    | dry hr hc hs => exact dry p _ hr hc hs
    | pull hr hc hs => exact pull p _ _ hr hc hs (ih _ (remaining_took_lt hturn) _ rfl)
    | failed hr hc => exact failed p hr hc

/-- A bound on the tokens to come: each one from the supply adds at most one entry. -/
def remaining (p : Rpn σ) : Nat :=
  p.ready.length + p.yard.stack.length + 2 * FiniteTokenStream.remaining p.supply

theorem remaining_accept_lt {supply : σ} (hr : p.ready = [])
    (hs : TokenStream.next p.supply = (some t, supply)) :
    (accept { p with supply } t).remaining < p.remaining := by
  have hlt := FiniteTokenStream.remaining_next_lt hs
  have hle := remaining_accept_le { p with supply } t
  have hy := p.yard.length_accept_le t
  simp only [remaining, accept, hr, List.nil_append, List.length_nil] at *
  omega

theorem remaining_next_lt (h : p.next = (some t, p')) : p'.remaining < p.remaining := by
  induction p using next_induction with
  | ready p u ready hr =>
    rw [next_of_ready hr] at h
    cases h
    simp [remaining, hr]
  | dry p supply hr hc hs =>
    rw [next_of_none hr hc hs] at h
    cases h
  | pull p u supply hr hc hs ih =>
    rw [next_of_some hr hc hs] at h
    exact Nat.lt_trans (ih h) (remaining_accept_lt hr hs)
  | failed p hr hc =>
    rw [next_of_incorrect hr hc] at h
    cases h

theorem remaining_note_le (j : Journal) (p : Rpn σ) : (p.note j).remaining ≤ p.remaining := by
  have := FiniteTokenStream.remaining_note_le j p.supply
  simp only [remaining, note]
  omega

instance : FiniteTokenStream (Rpn σ) where
  next := next
  note := note
  remaining := remaining
  remaining_next_lt := remaining_next_lt
  remaining_note_le := remaining_note_le

end Rpn

/-- The tokens of a stream in reverse Polish notation, up to the first fault. -/
def toRpn {σ : Type} [FiniteTokenStream σ] (s : σ) : List Token :=
  TokenStream.toList (Rpn.ofStream s)

end Reckon
