import Reckon.Proofs.Lexing

/-! A scanner hands out its tokens one after the other and then stays at its end, in whatever way it
is driven. -/

namespace Reckon

open Text TokenStream

namespace Scanner

/-- What can be done with a scanner. A copy goes its own way from where the scanner stands. -/
inductive Call where
  | step
  | next
  | copy
  deriving DecidableEq

/-- A copy is the only call that does not ask for a token. -/
def Call.pulls : Call → Bool
  | copy => false
  | _ => true

/-- A scanner that was driven on after its end has read one more input and thrown it away. -/
def refused (s : Scanner) : Scanner := { s with position := s.read.2, pending := none }

/-- The scanner that a call leaves, or that a copy starts as. -/
def called (s : Scanner) : Call → Scanner
  | .step =>
    match s.step with
    | .ok r => r.scanner
    | .error _ => s.refused
  | .next => s.next.scanner
  | .copy => s

/-- The scanner that calls leave, one after the other. -/
def driven (s : Scanner) (calls : List Call) : Scanner := calls.foldl called s

variable {s : Scanner} {r : Step} {t : Token} {call : Call} {calls : List Call}

theorem step_of_ended (h : s.state = .ended) : s.step = .error .terminated :=
  step_of_error (accept_eq_error_iff.2 h)

theorem next_of_ended (h : s.state = .ended) : s.next = ⟨none, s, []⟩ := if_pos h

/-- Before its end a scanner makes a token whichever way it is driven. -/
theorem exists_step (h : s.state ≠ .ended) :
    ∃ r t, s.step = .ok r ∧ r.token = some t ∧ s.next = r ∧ toList s = t :: toList r.scanner := by
  obtain ⟨r, hr⟩ := step_ok h
  obtain ⟨t, ht⟩ := exists_token_of_step hr
  have hnext : s.next = r := by simp [next, h, hr]
  refine ⟨r, t, hr, ht, hnext, toList_of_some ?_⟩
  simp [TokenStream.next, hnext, ht]

theorem state_eq_ended_iff : s.state = .ended ↔ toList s = [] := by
  constructor
  · exact toList_of_ended
  · intro h
    by_cases hs : s.state = .ended
    · exact hs
    · obtain ⟨r, t, _, _, _, htokens⟩ := exists_step hs
      simp [htokens] at h

/-- Each transition of a step uses up some of what there is to do. -/
theorem length_moves (h : s.step = .ok r) :
    r.moves.length + r.scanner.remaining ≤ s.remaining := by
  induction h using step_induction with
  | stop s t ht =>
    have hlt := remaining_move_lt ht
    simp only [List.length_singleton]
    omega
  | go s t r ht _ _ ih =>
    have hlt := remaining_move_lt ht
    simp only [List.length_cons]
    omega

theorem remaining_refused_le (s : Scanner) : s.refused.remaining ≤ s.remaining := by
  have hpos : s.position ≤ s.read.2 := by
    unfold read
    split
    · exact Nat.le_refl _
    · split <;> simp
  simp only [remaining, ahead, refused, Option.elim_none]
  omega

theorem remaining_called_le (s : Scanner) (call : Call) :
    (s.called call).remaining ≤ s.remaining := by
  by_cases hs : s.state = .ended
  · cases call with
    | step => simpa [called, step_of_ended hs] using remaining_refused_le s
    | next => simp [called, next_of_ended hs]
    | copy => exact Nat.le_refl _
  · obtain ⟨r, t, hr, _, hnext, _⟩ := exists_step hs
    have hlt := remaining_step_lt hr
    cases call with
    | step => simp [called, hr]; omega
    | next => simp [called, hnext]; omega
    | copy => exact Nat.le_refl _

/-- A call that asks for a token takes one off the tokens to come, if there are any. -/
theorem toList_called (s : Scanner) (call : Call) :
    toList (s.called call) = (toList s).drop (if call.pulls then 1 else 0) := by
  by_cases hs : s.state = .ended
  · have hrefused : toList s.refused = [] := toList_of_ended hs
    cases call <;> simp [called, step_of_ended hs, next_of_ended hs, toList_of_ended hs, hrefused]
  · obtain ⟨r, t, hr, _, hnext, htokens⟩ := exists_step hs
    cases call <;> simp [called, Call.pulls, hr, hnext, htokens]

theorem remaining_driven_le (s : Scanner) (calls : List Call) :
    (s.driven calls).remaining ≤ s.remaining := by
  induction calls generalizing s with
  | nil => exact Nat.le_refl _
  | cons call calls ih => exact Nat.le_trans (ih (s.called call)) (remaining_called_le s call)

theorem toList_driven (s : Scanner) (calls : List Call) :
    toList (s.driven calls) = (toList s).drop (calls.countP Call.pulls) := by
  induction calls generalizing s with
  | nil => rfl
  | cons call calls ih =>
    have hcalls : s.driven (call :: calls) = (s.called call).driven calls := rfl
    rw [hcalls, ih, toList_called, List.drop_drop, List.countP_cons, Nat.add_comm]

end Scanner

theorem Lexes.length_le {source : Source} {i : Nat} {cs : List Char} {ts : List Token}
    (h : Lexes source i cs ts) : ts.length ≤ cs.length + 1 := by
  induction h with
  | stop => simp
  | blank _ _ ih => simp; omega
  | number hne _ _ _ _ ih =>
    have hpos := List.length_pos_iff.2 hne
    simp
    omega
  | operator _ _ ih => simp; omega
  | opening _ ih | closing _ ih => simp; omega
  | outOfRange | unexpected => simp

namespace Scanner

theorem remaining_ofSource_le (source : Source) :
    (ofSource source).remaining ≤ 2 * source.byteLength + 1 := by
  have hrank : (ofSource source).state.rank ≤ 1 := by
    unfold ofSource
    dsimp only
    split <;> simp [State.rank]
  have hahead : (ofSource source).ahead = source.byteLength := rfl
  simp only [remaining, hahead]
  omega

theorem toList_ofSource_empty {source : Source} (h : source.content = "") :
    toList (ofSource source) = [] :=
  toList_of_ended (if_pos h)

theorem lexes_ofSource {source : Source} (h : source.content ≠ "") :
    Lexes source 0 source.chars (toList (ofSource source)) := by
  obtain ⟨ts, hts⟩ := exists_lexes source 0 source.chars
  have htokens : toList (ofSource source) = ts :=
    toList_of_lexes hts rfl (if_neg h) (faces_ofSource source)
  exact htokens ▸ hts

/-- A source has one token for each of its characters and one more at most, and none only if it is
empty. However its scanner is driven, it stands at its end once it has been asked for all the
tokens, and not before. Until then a step ends after finitely many transitions with the next token,
and the one that makes the last token is the one that comes to the end. From then on there is no
token, and a step is refused. -/
theorem driven_fused (source : Source) :
    let tokens := toList (ofSource source)
    tokens.length ≤ source.chars.length + 1 ∧ (tokens = [] ↔ source.content = "") ∧
    ∀ calls : List Call,
      let s := (ofSource source).driven calls
      let k := calls.countP Call.pulls
      (s.state = .ended ↔ tokens.length ≤ k) ∧
      (s.state ≠ .ended → ∃ r t, s.step = .ok r ∧ r.token = some t ∧ tokens[k]? = some t ∧
        s.next = r ∧ r.moves.length ≤ 2 * source.byteLength + 1 ∧
        (r.scanner.state = .ended ↔ k + 1 = tokens.length)) ∧
      (s.state = .ended → s.step = .error .terminated ∧ s.next.token = none) := by
  intro tokens
  refine ⟨?_, ?_, ?_⟩
  · by_cases hempty : source.content = ""
    · simp [tokens, toList_ofSource_empty hempty]
    · exact (lexes_ofSource hempty).length_le
  · refine ⟨fun h => ?_, toList_ofSource_empty⟩
    by_cases hempty : source.content = ""
    · exact hempty
    · obtain ⟨us, t, htokens, _⟩ := (lexes_ofSource hempty).ends
      simp [tokens, htokens] at h
  · intro calls s k
    have htokens : toList s = tokens.drop k := toList_driven (ofSource source) calls
    have hended : ∀ {n : Nat} {s' : Scanner}, toList s' = tokens.drop n →
        (s'.state = .ended ↔ tokens.length ≤ n) := by
      intro n s' h
      rw [state_eq_ended_iff, h, List.drop_eq_nil_iff]
    refine ⟨hended htokens, fun hs => ?_, fun hs => ⟨step_of_ended hs, by rw [next_of_ended hs]⟩⟩
    obtain ⟨r, t, hr, ht, hnext, hcons⟩ := exists_step hs
    have hlt : k < tokens.length := Nat.lt_of_not_le fun hle => hs ((hended htokens).2 hle)
    have hrest : toList r.scanner = tokens.drop (k + 1) := by
      have htail := congrArg List.tail (htokens.symm.trans hcons)
      simpa using htail.symm
    refine ⟨r, t, hr, ht, ?_, hnext, ?_, ?_⟩
    · have hhead := congrArg List.head? (htokens.symm.trans hcons)
      simpa using hhead
    · have hmoves := length_moves hr
      have hle : s.remaining ≤ (ofSource source).remaining := remaining_driven_le _ calls
      have hstart := remaining_ofSource_le source
      omega
    · refine (hended hrest).trans ?_
      omega

end Scanner

end Reckon
