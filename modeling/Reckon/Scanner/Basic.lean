import Reckon.Scanner.Machine

/-! A scanner: the machine at work on one source. Every transition brings it closer to its end. -/

namespace Reckon

/-- `position` is the next byte that was never offered, `pending` a character that was offered and
kept. -/
structure Scanner where
  source : Source
  position : Nat
  pending : Option (Nat × Char)
  state : Scanner.State
  deriving DecidableEq

namespace Scanner

/-- An empty source is at its end from the start: it has not even an end of input. -/
def ofSource (source : Source) : Scanner where
  source
  position := 0
  pending := none
  state := if source.content = "" then .ended else .start

/-- A scanner of a text that has no name of its own. -/
def ofText (text : String) : Scanner := ofSource (Source.ofText "<input>" text)

/-- A transition that was taken, for the record. -/
structure Move where
  before : State
  after : State
  input : Input
  deriving DecidableEq

/-- A token, if one was made, with the scanner left behind and the transitions that led there. -/
structure Step where
  token : Option Token
  scanner : Scanner
  moves : List Move

def Input.char? : Input → Option (Nat × Char)
  | .char i c => some (i, c)
  | .endOfInput => none

/-- The input to offer and the position behind it. A pending character comes first. -/
def read (s : Scanner) : Input × Nat :=
  match s.pending with
  | some (i, c) => (.char i c, s.position)
  | none =>
    match s.source.charAt? s.position with
    | some c => (.char s.position c, s.position + c.utf8Size)
    | none => (.endOfInput, s.position)

/-- The scanner once the input it offers has led to the transition `t`. -/
def move (s : Scanner) (t : Transition) : Scanner :=
  { s with
    position := s.read.2
    pending := if t.isConsumed then none else s.read.1.char?
    state := t.state }

/-- The bytes that are still to be used up. -/
def ahead (s : Scanner) : Nat :=
  (s.source.byteLength - s.position) + s.pending.elim 0 fun p => p.2.utf8Size

def State.rank : State → Nat
  | .ended => 0
  | .start => 1
  | .inNumber .. => 2

/-- A bound on the transitions to come. -/
def remaining (s : Scanner) : Nat := 2 * s.ahead + s.state.rank

variable {s : Scanner} {t : Transition}

theorem ahead_move_le (s : Scanner) (t : Transition) : (s.move t).ahead ≤ s.ahead := by
  unfold ahead move read
  split
  · next i c hp => cases t <;> simp [Input.char?, hp]
  · next hp =>
    split
    · next c hc =>
      have := Text.add_utf8Size_le_of_charAt? hc
      cases t <;> simp [Input.char?, hp, Source.byteLength] <;> omega
    · cases t <;> simp [Input.char?]

theorem ahead_move_lt {i : Nat} {c : Char} (h : s.read.1 = .char i c) (ht : t.isConsumed) :
    (s.move t).ahead < s.ahead := by
  have := c.utf8Size_pos
  unfold ahead move
  unfold read at h ⊢
  split at h
  · next hp =>
    cases h
    simp [ht, hp, this]
  · next hp =>
    split at h
    · next hc =>
      cases h
      have := Text.add_utf8Size_le_of_charAt? hc
      simp [ht, hp, Source.byteLength]
      omega
    · cases h

/-- A number may end on a character that is offered again, but then the machine is at its start,
which keeps nothing. -/
theorem remaining_move_lt (h : s.state.accept s.source s.read.1 = .ok t) :
    (s.move t).remaining < s.remaining := by
  have hle := ahead_move_le s t
  have hlt := @ahead_move_lt s t
  have hstate : (s.move t).state = t.state := rfl
  simp only [remaining, hstate]
  generalize s.read.1 = input at h hlt
  generalize s.state = state at h
  cases accepts h with
  | blank | digit | sign | unexpected | more =>
    have := hlt rfl rfl
    simp only [Transition.state_consume, State.rank]
    omega
  | finish | number | last | outOfRange =>
    simp only [Transition.state_consume, Transition.state_keep, State.rank]
    omega

/-- Drives the machine until it makes a token or ends. -/
def step (s : Scanner) : Except UsageError Step :=
  match h : s.state.accept s.source s.read.1 with
  | .error e => .error e
  | .ok t =>
    have := remaining_move_lt h
    let move : Move := ⟨s.state, t.state, s.read.1⟩
    if t.token.isSome ∨ t.state = .ended then .ok ⟨t.token, s.move t, [move]⟩
    else (step (s.move t)).map fun r => { r with moves := move :: r.moves }
termination_by s.remaining

theorem step_of_error {e : UsageError} (h : s.state.accept s.source s.read.1 = .error e) :
    s.step = .error e := by
  rw [step]
  split <;> simp_all

/-- A step ends at the first transition that makes a token or ends the machine. -/
theorem step_of_stop (h : s.state.accept s.source s.read.1 = .ok t)
    (ht : t.token.isSome ∨ t.state = .ended) :
    s.step = .ok ⟨t.token, s.move t, [⟨s.state, t.state, s.read.1⟩]⟩ := by
  rw [step]
  split
  · simp_all
  · next h' =>
    rw [h] at h'
    cases h'
    rw [if_pos ht]

theorem step_of_go (h : s.state.accept s.source s.read.1 = .ok t)
    (ht : ¬ (t.token.isSome ∨ t.state = .ended)) :
    s.step = (s.move t).step.map fun r =>
      { r with moves := ⟨s.state, t.state, s.read.1⟩ :: r.moves } := by
  rw [step]
  split
  · simp_all
  · next h' =>
    rw [h] at h'
    cases h'
    rw [if_neg ht]

/-- A step is one transition, or one transition and a step after it. -/
theorem step_induction {P : (s : Scanner) → (r : Step) → s.step = .ok r → Prop}
    (stop : ∀ s t (h : s.state.accept s.source s.read.1 = .ok t)
      (ht : t.token.isSome ∨ t.state = .ended), P s _ (step_of_stop h ht))
    (go : ∀ s t r (h : s.state.accept s.source s.read.1 = .ok t)
      (ht : ¬ (t.token.isSome ∨ t.state = .ended)) (hr : (s.move t).step = .ok r),
      P (s.move t) r hr → P s _ ((step_of_go h ht).trans (congrArg _ hr)))
    {r : Step} (h : s.step = .ok r) : P s r h := by
  fun_induction step s generalizing r with
  | case1 s e he => cases (step_of_error he).symm.trans h
  | case2 s t ht =>
    rename_i hstop
    cases (step_of_stop ht hstop).symm.trans h
    exact stop s t ht hstop
  | case3 s t ht =>
    rename_i hgo ih
    have hmap := (step_of_go ht hgo).symm.trans h
    cases hr : step (s.move t) with
    | error e => simp [hr, Except.map] at hmap
    | ok r' =>
      simp only [hr, Except.map, Except.ok.injEq] at hmap
      subst hmap
      exact go s t r' ht hgo hr (ih hr)

theorem remaining_step_lt {r : Step} (h : s.step = .ok r) :
    r.scanner.remaining < s.remaining := by
  induction h using step_induction with
  | stop s t ht => exact remaining_move_lt ht
  | go s t r ht _ _ ih => exact Nat.lt_trans ih (remaining_move_lt ht)

/-- The next token. A scanner that has ended stays as it is. -/
def next (s : Scanner) : Step :=
  if s.state = .ended then ⟨none, s, []⟩
  else
    match s.step with
    | .ok r => r
    | .error _ => ⟨none, s, []⟩

theorem remaining_next_lt {t : Token} (h : s.next.token = some t) :
    s.next.scanner.remaining < s.remaining := by
  unfold next at h ⊢
  split
  · simp_all
  · next hs =>
    simp only [hs, if_false] at h
    split
    · next hr => exact remaining_step_lt hr
    · next hr => simp [hr] at h

end Scanner

end Reckon
