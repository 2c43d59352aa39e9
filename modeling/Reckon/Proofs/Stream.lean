import Reckon.Calculate
import Reckon.Proofs.Calculator

/-! Streams seen as the lists of their tokens, and evaluation as a fold over such a list. -/

namespace Reckon

open TokenStream

/-- Notes left with a stream change none of its tokens. -/
class LawfulTokenStream (σ : Type) [FiniteTokenStream σ] : Prop where
  toList_note (j : Journal) (s : σ) : toList (note j s) = toList s

instance : LawfulTokenStream (List Token) := ⟨fun _ _ => rfl⟩

instance : LawfulTokenStream Scanner := ⟨fun _ _ => rfl⟩

/-- A stream that has run dry stays dry. -/
class FusedTokenStream (σ : Type) [TokenStream σ] : Prop where
  next_of_none {s s' : σ} : next s = (none, s') → next s' = (none, s')

instance : FusedTokenStream (List Token) where
  next_of_none {ts ts'} h := by
    cases ts with
    | nil =>
      cases h
      rfl
    | cons t ts => cases h

namespace TokenStream

variable {σ : Type} [FiniteTokenStream σ]

/-- Streams agree if their next tokens agree and they go on as the same stream. -/
theorem drain_congr {s s' : σ} (h : next s = next s') : drain s = drain s' := by
  rcases hn : next s' with ⟨o, r⟩
  cases o with
  | none => rw [drain_of_none (h.trans hn), drain_of_none hn]
  | some t => rw [drain_of_some (h.trans hn), drain_of_some hn]

theorem toList_congr {s s' : σ} (h : next s = next s') : toList s = toList s' :=
  congrArg Prod.fst (drain_congr h)

theorem exists_next_of_toList {s : σ} {t : Token} {ts : List Token} (h : toList s = t :: ts) :
    ∃ s', next s = (some t, s') ∧ toList s' = ts := by
  rcases hn : next s with ⟨_ | u, s'⟩
  · rw [toList_of_none hn] at h
    cases h
  · rw [toList_of_some hn] at h
    cases h
    exact ⟨s', rfl, rfl⟩

/-- Nothing is left in a stream that has run dry. -/
theorem toList_drain_snd [FusedTokenStream σ] (s : σ) : toList (drain s).2 = [] := by
  fun_induction drain s with
  | case1 s s' h => exact toList_of_none (FusedTokenStream.next_of_none h)
  | case2 s t s' h _ _ ih => exact ih

end TokenStream

variable {σ : Type} [FiniteTokenStream σ]

theorem Calculator.run_fst (c : Calculator) (s : σ) :
    (c.run s).1 = (toList s).foldlM Calculator.accept c := by
  fun_induction Calculator.run c s with
  | case1 c s s' h => rw [toList_of_none h]; rfl
  | case2 c s t s' h _ c' hc ih =>
    rw [toList_of_some h, Calculator.foldlM_cons_of_ok hc]
    exact ih
  | case3 c s t s' h _ e hc =>
    rw [toList_of_some h, Calculator.foldlM_cons_of_error hc]

/-- A run that ends well has pulled all there is. -/
theorem Calculator.run_snd_of_ok {c c' : Calculator} {s : σ} (h : (c.run s).1 = .ok c') :
    (c.run s).2 = (drain s).2 := by
  fun_induction Calculator.run c s with
  | case1 c s s' hn => rw [drain_of_none hn]
  | case2 c s t s' hn _ c' hc ih => rw [drain_of_some hn, ih h]
  | case3 => cases h

/-- An evaluation is a run between two notes. -/
theorem evaluate_eq (s : σ) :
    ∃ (j k : Journal), evaluate s = ((Calculator.run {} (note j s)).1 >>= Calculator.result,
      note k (Calculator.run {} (note j s)).2) := by
  refine ⟨[.opened .evaluate, .entered .evaluate],
    (Calculator.conclude (Calculator.run {} (note _ s)).1).2, Prod.ext ?_ rfl⟩
  simp only [evaluate]
  cases (Calculator.run {} (note _ s)).1 <;> rfl

/-- What an evaluation makes of a stream depends on its tokens alone. -/
theorem evaluate_fst [LawfulTokenStream σ] (s : σ) :
    (evaluate s).1 = (toList s).foldlM Calculator.accept {} >>= Calculator.result := by
  obtain ⟨j, k, h⟩ := evaluate_eq s
  rw [h, Calculator.run_fst, LawfulTokenStream.toList_note]

/-- Collecting a stream changes nothing about its value. -/
theorem evaluate_toList [LawfulTokenStream σ] (s : σ) :
    (evaluate (toList s)).1 = (evaluate s).1 := by
  rw [evaluate_fst, evaluate_fst, toList_list]

namespace Yard

/-- What a yard releases on tokens that come one after the other, up to its first fault. -/
def released (y : Yard) : List Token → List Token
  | [] => []
  | t :: ts => if y.isCorrect then (y.accept t).1 ++ (y.accept t).2.released ts else []

variable {y : Yard}

theorem released_of_incorrect (h : y.isCorrect = false) (ts : List Token) :
    y.released ts = [] := by
  cases ts <;> simp [released, h]

theorem released_cons (h : y.isCorrect = true) (t : Token) (ts : List Token) :
    y.released (t :: ts) = (y.accept t).1 ++ (y.accept t).2.released ts := by
  simp [released, h]

end Yard

namespace Rpn

/-- Draining reverse Polish notation hands out what is ready, and then takes one token after the
other through the yard until it fails or the supply is dry. -/
theorem drain_induction {P : Rpn σ → Prop}
    (ready : ∀ p t ready, p.ready = t :: ready → P { p with ready } → P p)
    (failed : ∀ p, p.ready = [] → p.isCorrect = false → P p)
    (dry : ∀ p supply, p.ready = [] → p.isCorrect = true →
      TokenStream.next p.supply = (none, supply) → P p)
    (pull : ∀ p t supply, p.ready = [] → p.isCorrect = true →
      TokenStream.next p.supply = (some t, supply) → P (accept { p with supply } t) → P p)
    (p : Rpn σ) : P p := by
  induction hn : remaining p using Nat.strongRecOn generalizing p with
  | _ n ih =>
    subst hn
    cases hr : p.ready with
    | cons t rest => exact ready p t rest hr (ih _ (remaining_next_lt (next_of_ready hr)) _ rfl)
    | nil =>
      cases hc : p.isCorrect with
      | false => exact failed p hr hc
      | true =>
        rcases hs : TokenStream.next p.supply with ⟨_ | t, supply⟩
        · exact dry p supply hr hc hs
        · exact pull p t supply hr hc hs (ih _ (remaining_accept_lt hr hs) _ rfl)

theorem toList_eq [LawfulTokenStream σ] (p : Rpn σ) :
    toList p = p.ready ++ p.yard.released (toList p.supply) := by
  induction p using drain_induction with
  | ready p t ready hr ih =>
    rw [toList_of_some (next_of_ready hr), ih, hr]
    rfl
  | failed p hr hc =>
    rw [toList_of_none (next_of_incorrect hr hc), hr]
    exact (Yard.released_of_incorrect hc _).symm
  | dry p supply hr hc hs =>
    rw [toList_of_none (next_of_none hr hc hs), toList_of_none hs, hr]
    rfl
  | pull p t supply hr hc hs ih =>
    rw [toList_congr (next_of_some hr hc hs), ih, toList_of_some hs, Yard.released_cons hc]
    simp [accept, hr, LawfulTokenStream.toList_note]

instance [FusedTokenStream σ] : FusedTokenStream (Rpn σ) where
  next_of_none {p p'} h := by
    change Rpn.next p = (none, p') at h
    change Rpn.next p' = (none, p')
    induction p using next_induction with
    | ready p t ready hr =>
      rw [next_of_ready hr] at h
      cases h
    | dry p supply hr hc hs =>
      rw [next_of_none hr hc hs] at h
      cases h
      exact next_of_none hr hc (FusedTokenStream.next_of_none hs)
    | pull p t supply hr hc hs ih =>
      rw [next_of_some hr hc hs] at h
      exact ih h
    | failed p hr hc =>
      rw [next_of_incorrect hr hc] at h
      cases h
      exact next_of_incorrect hr hc

instance [LawfulTokenStream σ] : LawfulTokenStream (Rpn σ) where
  toList_note j p := by
    rw [toList_eq, toList_eq]
    change p.ready ++ p.yard.released (toList (TokenStream.note j p.supply)) = _
    rw [LawfulTokenStream.toList_note]

end Rpn

theorem toRpn_eq [LawfulTokenStream σ] (s : σ) : toRpn s = ({} : Yard).released (toList s) :=
  Rpn.toList_eq (Rpn.ofStream s)

theorem toRpn_ofText (text : String) :
    toRpn (Scanner.ofText text) = ({} : Yard).released (tokenize text) :=
  toRpn_eq _

/-- Calculating is reading tokens, reordering them and folding the calculator over the result. -/
theorem calculate_fst (text : String) (r : Reporter) :
    (calculate text r).1 =
      ((({} : Yard).released (tokenize text)).foldlM Calculator.accept {} >>=
        Calculator.result).mapError Error.evaluation := by
  change (evaluate (Rpn.ofStream (Scanner.ofText text))).1.mapError _ = _
  rw [evaluate_fst, Rpn.toList_eq]
  rfl

end Reckon
