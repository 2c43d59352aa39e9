import Reckon.Journal.Basic

/-! Streams of tokens, pulled one at a time. -/

namespace Reckon

/-- A source of tokens, which may go on for ever. Whoever pulls may leave notes with it, which it
keeps or drops but which change no token. -/
class TokenStream (σ : Type) where
  next : σ → Option Token × σ
  note : Journal → σ → σ

/-- A source of tokens that runs dry. -/
class FiniteTokenStream (σ : Type) extends TokenStream σ where
  /-- A bound on the tokens to come. -/
  remaining : σ → Nat
  remaining_next_lt {s s' : σ} {t : Token} : next s = (some t, s') → remaining s' < remaining s
  remaining_note_le (j : Journal) (s : σ) : remaining (note j s) ≤ remaining s

open FiniteTokenStream

namespace TokenStream

variable {σ : Type} [FiniteTokenStream σ]

/-- All the tokens to come, and the dry stream. -/
def drain (s : σ) : List Token × σ :=
  match h : next s with
  | (none, s') => ([], s')
  | (some t, s') =>
    have := remaining_next_lt h
    let rest := drain s'
    (t :: rest.1, rest.2)
termination_by remaining s

def toList (s : σ) : List Token := (drain s).1

variable {s s' : σ} {t : Token}

theorem drain_of_none (h : next s = (none, s')) : drain s = ([], s') := by
  rw [drain]
  split <;> simp_all

theorem drain_of_some (h : next s = (some t, s')) :
    drain s = (t :: (drain s').1, (drain s').2) := by
  rw [drain]
  split <;> simp_all

theorem toList_of_none (h : next s = (none, s')) : toList s = [] := by
  rw [toList, drain_of_none h]

theorem toList_of_some (h : next s = (some t, s')) : toList s = t :: toList s' := by
  rw [toList, drain_of_some h, toList]

end TokenStream

open TokenStream

instance : FiniteTokenStream (List Token) where
  next
    | [] => (none, [])
    | t :: ts => (some t, ts)
  note _ ts := ts
  remaining := List.length
  remaining_next_lt {s _ _} h := by cases s <;> simp at h; simp [← h.2]
  remaining_note_le _ _ := Nat.le_refl _

instance : FiniteTokenStream Scanner where
  next s := (s.next.token, s.next.scanner)
  note _ s := s
  remaining := Scanner.remaining
  remaining_next_lt h := by
    simp only [Prod.mk.injEq] at h
    exact h.2 ▸ Scanner.remaining_next_lt h.1
  remaining_note_le _ _ := Nat.le_refl _

/-- A scanner whose transitions, and whatever is noted, are written down. -/
structure Logged where
  scanner : Scanner
  journal : Journal

instance : FiniteTokenStream Logged where
  next s :=
    let step := s.scanner.next
    (step.token, ⟨step.scanner, s.journal ++ step.moves.map fun m => .event (.transition m)⟩)
  note j s := { s with journal := s.journal ++ j }
  remaining s := s.scanner.remaining
  remaining_next_lt h := by
    simp only [Prod.mk.injEq] at h
    exact h.2 ▸ Scanner.remaining_next_lt h.1
  remaining_note_le _ _ := Nat.le_refl _

/-- The tokens of a text. The last is the end of input or the only fault. An empty text has none. -/
def tokenize (text : String) : List Token := toList (Scanner.ofText text)

@[simp] theorem toList_list (ts : List Token) : toList ts = ts := by
  induction ts with
  | nil => exact toList_of_none rfl
  | cons t ts ih => rw [toList_of_some rfl, ih]

end Reckon
