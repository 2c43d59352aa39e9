import Reckon.Proofs.Lexing

/-! The transitions of a scanner are a path of its machine, and what is offered along the path is
the text, character by character. -/

namespace Reckon

open Text

/-- Each character with the byte it starts at, the first of them at byte `i`. -/
def Text.indexed (i : Nat) : List Char → List (Nat × Char)
  | [] => []
  | c :: cs => (i, c) :: indexed (i + c.utf8Size) cs

theorem Text.indexed_append (i : Nat) (cs ds : List Char) :
    indexed i (cs ++ ds) = indexed i cs ++ indexed (i + byteLength cs) ds := by
  induction cs generalizing i with
  | nil => rfl
  | cons c cs ih => simp [indexed, ih, Nat.add_assoc]

namespace Scanner

/-- Transitions that the machine really has, each from the state that the one before led to. -/
inductive Path (source : Source) : State → List Move → State → Prop where
  | nil {a : State} : Path source a [] a
  | cons {m : Move} {ms : List Move} {t : Transition} {b : State}
    (h : m.before.accept source m.input = .ok t) (ht : t.state = m.after) :
    Path source m.after ms b → Path source m.before (m :: ms) b

/-- The character that a transition leaves to be offered again: where a number ends on a character
and the machine is back at its start, the character belongs to the next token. -/
def Move.kept? (m : Move) : Option (Nat × Char) :=
  match m.before, m.after with
  | .inNumber .., .start => m.input.char?
  | _, _ => none

/-- The characters offered along transitions. One that is offered again right after it was kept
counts once. -/
def offers (kept : Option (Nat × Char)) : List Move → List (Nat × Char)
  | [] => []
  | m :: ms =>
    (if m.input.char? = kept then [] else m.input.char?.toList) ++ offers m.kept? ms

/-- The scanner `s` has gone through the transitions `ms` and come to be `s'`. -/
inductive Leads : Scanner → List Move → Scanner → Prop where
  | nil {s : Scanner} : Leads s [] s
  | cons {s s' : Scanner} {ms : List Move} {t : Transition}
    (h : s.state.accept s.source s.read.1 = .ok t) :
    Leads (s.move t) ms s' → Leads s (⟨s.state, t.state, s.read.1⟩ :: ms) s'

/-- The characters `pre` have been offered, and no others. -/
def HasOffered (s : Scanner) (pre : List Char) : Prop :=
  s.position = byteLength pre ∧ ∃ post, s.source.chars = pre ++ post

variable {s s' s'' : Scanner} {t : Transition} {ms ms' : List Move} {pre : List Char}

theorem Leads.append (h : Leads s ms s') (h' : Leads s' ms' s'') : Leads s (ms ++ ms') s'' := by
  induction h with
  | nil => exact h'
  | cons ht _ ih => exact .cons ht (ih h')

theorem leads_step {r : Step} (h : s.step = .ok r) : Leads s r.moves r.scanner := by
  induction h using step_induction with
  | stop s t ht => exact .cons ht .nil
  | go s t r ht _ _ ih => exact .cons ht ih

theorem leads_next (s : Scanner) : Leads s s.next.moves s.next.scanner := by
  unfold next
  split
  · exact .nil
  · split
    · next hr => exact leads_step hr
    · exact .nil

theorem Leads.path (h : Leads s ms s') : Path s.source s.state ms s'.state := by
  induction h with
  | nil => exact .nil
  | cons ht _ ih => exact .cons (m := ⟨_, _, _⟩) ht rfl ih

/-- Once the machine has ended there is nowhere to go. -/
theorem Path.eq_nil {source : Source} {b : State} (h : Path source .ended ms b) : ms = [] := by
  generalize ha : State.ended = a at h
  cases h with
  | nil => rfl
  | cons h =>
    rw [← ha] at h
    cases h

/-- What a transition leaves to be offered again is what waits in the scanner. -/
theorem kept?_eq_pending (h : s.state.accept s.source s.read.1 = .ok t) :
    Move.kept? ⟨s.state, t.state, s.read.1⟩ = (s.move t).pending := by
  unfold move
  generalize s.read.1 = input at h
  generalize s.state = state at h
  cases accepts h <;> rfl

/-- What waits has been offered before. All else that a scanner offers comes next in its text. -/
theorem HasOffered.move (h : s.HasOffered pre) (t : Transition) :
    ∃ pre', (s.move t).HasOffered pre' ∧
      indexed 0 pre' = indexed 0 pre ++
        if s.read.1.char? = s.pending then [] else s.read.1.char?.toList := by
  obtain ⟨hp, post, hc⟩ := h
  cases hk : s.pending with
  | some p =>
    have hread : s.read = (.char p.1 p.2, s.position) := by simp [read, hk]
    exact ⟨pre, ⟨by simp [Scanner.move, hread, hp], post, hc⟩, by simp [hread, Input.char?]⟩
  | none =>
    have hchar : s.source.charAt? s.position = post.head? := by
      rw [Source.charAt?, charAt?, hc, hp, dropBytes?_append, Option.bind_some]
    cases post with
    | nil =>
      have hread : s.read = (.endOfInput, s.position) := by simp [read, hk, hchar]
      exact ⟨pre, ⟨by simp [Scanner.move, hread, hp], [], hc⟩, by simp [hread, Input.char?]⟩
    | cons c post =>
      have hread : s.read = (.char s.position c, s.position + c.utf8Size) := by
        simp [read, hk, hchar]
      refine ⟨pre ++ [c], ⟨by simp [Scanner.move, hread, hp], post, hc.trans (by simp)⟩, ?_⟩
      simp [hread, hp, Input.char?, indexed_append, indexed]

theorem Leads.exists_offered (h : Leads s ms s') (hs : s.HasOffered pre) :
    ∃ pre', s'.HasOffered pre' ∧ indexed 0 pre' = indexed 0 pre ++ offers s.pending ms := by
  induction h generalizing pre with
  | nil => exact ⟨pre, hs, by simp [offers]⟩
  | @cons s s' ms t ht _ ih =>
    obtain ⟨pre₁, hs₁, h₁⟩ := hs.move t
    obtain ⟨pre₂, hs₂, h₂⟩ := ih hs₁
    refine ⟨pre₂, hs₂, ?_⟩
    rw [h₂, h₁, offers, kept?_eq_pending ht, List.append_assoc]

theorem Leads.source_eq (h : Leads s ms s') : s'.source = s.source := by
  induction h with
  | nil => rfl
  | cons _ _ ih => exact ih

/-- From the start on, what is offered is the beginning of the text. -/
theorem Leads.offers_isPrefix {source : Source} (h : Leads (ofSource source) ms s) :
    offers none ms <+: indexed 0 source.chars := by
  have hstart : (ofSource source).HasOffered [] := ⟨rfl, _, rfl⟩
  obtain ⟨pre, ⟨_, post, hc⟩, hpre⟩ := h.exists_offered hstart
  have hsource : source.chars = pre ++ post := by
    rw [← hc, h.source_eq]
    rfl
  have hoffers : indexed 0 pre = offers none ms := hpre
  rw [hsource, indexed_append, hoffers]
  exact List.prefix_append _ _

/-- A scanner of a text takes its machine along a path from the start. -/
theorem Leads.exists_path {source : Source} (h : Leads (ofSource source) ms s) :
    ∃ last, Path source .start ms last := by
  have hpath : Path source (ofSource source).state ms s.state := h.path
  by_cases he : source.content = ""
  · have hstate : (ofSource source).state = .ended := if_pos he
    rw [hstate] at hpath
    rw [hpath.eq_nil]
    exact ⟨.start, .nil⟩
  · have hstate : (ofSource source).state = .start := if_neg he
    rw [hstate] at hpath
    exact ⟨_, hpath⟩

end Scanner

end Reckon
