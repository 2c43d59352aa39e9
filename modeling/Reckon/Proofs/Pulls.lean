import Reckon.Proofs.Nesting
import Reckon.Proofs.Stream
import Reckon.Proofs.Yard

/-! When each released token is handed out, counted in tokens pulled from a list. -/

namespace Reckon

namespace Yard

/-- The yard once tokens have come one after the other. After a fault it takes none. -/
def after (y : Yard) : List Token → Yard
  | [] => y
  | t :: ts => if y.isCorrect then (y.accept t).2.after ts else y

/-- What a yard releases, each token with the number of tokens taken by then if `n` were taken
before. -/
def timed (y : Yard) (n : Nat) : List Token → List (Nat × Token)
  | [] => []
  | t :: ts =>
    if y.isCorrect then (y.accept t).1.map (n + 1, ·) ++ (y.accept t).2.timed (n + 1) ts else []

variable {y : Yard} {n : Nat} {t : Token} {ts us : List Token}

theorem after_of_incorrect (h : y.isCorrect = false) (ts : List Token) : y.after ts = y := by
  cases ts <;> simp [after, h]

theorem after_append (y : Yard) (ts us : List Token) :
    y.after (ts ++ us) = (y.after ts).after us := by
  induction ts generalizing y with
  | nil => rfl
  | cons t ts ih =>
    cases hc : y.isCorrect with
    | false => simp [after, hc, after_of_incorrect]
    | true => simp [after, hc, ih]

theorem timed_of_incorrect (h : y.isCorrect = false) (n : Nat) (ts : List Token) :
    y.timed n ts = [] := by
  cases ts <;> simp [timed, h]

theorem timed_append (y : Yard) (n : Nat) (ts us : List Token) :
    y.timed n (ts ++ us) = y.timed n ts ++ (y.after ts).timed (n + ts.length) us := by
  induction ts generalizing y n with
  | nil => rfl
  | cons t ts ih =>
    cases hc : y.isCorrect with
    | false => simp [timed, after, hc, timed_of_incorrect]
    | true => simp [timed, after, hc, ih, Nat.add_assoc, Nat.add_comm 1]

theorem after_singleton (h : y.isCorrect = true) (t : Token) : y.after [t] = (y.accept t).2 := by
  simp [after, h]

theorem timed_singleton (h : y.isCorrect = true) (n : Nat) (t : Token) :
    y.timed n [t] = (y.accept t).1.map (n + 1, ·) := by
  simp [timed, h]

/-- The counts are an addition: without them, what is left is what is released. -/
theorem map_snd_timed (y : Yard) (n : Nat) (ts : List Token) :
    (y.timed n ts).map Prod.snd = y.released ts := by
  induction ts generalizing y n with
  | nil => rfl
  | cons t ts ih =>
    cases hc : y.isCorrect with
    | false => simp [timed, released, hc]
    | true => simp [timed, released, hc, ih, Function.comp_def]

theorem released_append (y : Yard) (ts us : List Token) :
    y.released (ts ++ us) = y.released ts ++ (y.after ts).released us := by
  rw [← map_snd_timed y 0, timed_append, List.map_append, map_snd_timed, map_snd_timed]

theorem isCorrect_of_after (h : (y.after ts).isCorrect = true) : y.isCorrect = true := by
  cases hc : y.isCorrect with
  | false =>
    rw [after_of_incorrect hc, hc] at h
    exact h
  | true => rfl

theorem isCorrect_of_append (h : (y.after (ts ++ us)).isCorrect = true) :
    (y.after ts).isCorrect = true := by
  rw [after_append] at h
  exact isCorrect_of_after h

theorem isFault_of_mem_released (h : (y.after ts).isCorrect = true) (ht : t ∈ y.released ts) :
    t.isFault = false := by
  induction ts generalizing y with
  | nil => cases ht
  | cons u ts ih =>
    have hc := isCorrect_of_after h
    simp only [after, released, hc, if_true, List.mem_append] at h ht
    rcases ht with ht | ht
    · exact isFault_of_mem_accept (isCorrect_of_after h) ht
    · exact ih h ht

/-- What is released was there before. -/
theorem mem_released (h : t ∈ y.released ts) (hf : t.isFault = false) :
    t ∈ ts ∨ ∃ o, t = .operator o ∧ .operator o ∈ y.stack := by
  induction ts generalizing y with
  | nil => cases h
  | cons u ts ih =>
    by_cases hy : y.isCorrect = true
    · rw [released_cons hy] at h
      rcases List.mem_append.1 h with h | h
      · rcases mem_accept h hf with rfl | hw
        · exact Or.inl List.mem_cons_self
        · exact Or.inr hw
      · rcases ih h with h | ⟨o, rfl, hw⟩
        · exact Or.inl (List.mem_cons_of_mem u h)
        · rcases mem_stack_accept hw with rfl | hw
          · exact Or.inl List.mem_cons_self
          · exact Or.inr ⟨o, rfl, hw⟩
    · simp [released_of_incorrect (by simpa using hy)] at h

/-- A fault that is released was there before, or blames a parenthesis that was. -/
theorem fault_of_mem_released {e : Fault} (h : .fault e ∈ y.released ts) :
    .fault e ∈ ts ∨ ∃ p, (.parenthesis p ∈ ts ∨ .opening p ∈ y.stack) ∧
      (e = .unopened p ∨ e = .unclosed p) := by
  induction ts generalizing y with
  | nil => cases h
  | cons t ts ih =>
    by_cases hy : y.isCorrect = true
    · rw [released_cons hy] at h
      rcases List.mem_append.1 h with h | h
      · rcases fault_of_mem_accept h with rfl | ⟨p, rfl | hw, he⟩
        · exact Or.inl List.mem_cons_self
        · exact Or.inr ⟨p, Or.inl List.mem_cons_self, he⟩
        · exact Or.inr ⟨p, Or.inr hw, he⟩
      · rcases ih h with h | ⟨p, h | hw, he⟩
        · exact Or.inl (List.mem_cons_of_mem t h)
        · exact Or.inr ⟨p, Or.inl (List.mem_cons_of_mem t h), he⟩
        · rcases mem_stack_accept hw with rfl | hw
          · exact Or.inr ⟨p, Or.inl List.mem_cons_self, he⟩
          · exact Or.inr ⟨p, Or.inr hw, he⟩
    · simp [released_of_incorrect (by simpa using hy)] at h

theorem mem_timed_le {x : Nat × Token} (h : x ∈ y.timed n ts) : x.1 ≤ n + ts.length := by
  induction ts generalizing y n with
  | nil => cases h
  | cons u ts ih =>
    by_cases hc : y.isCorrect = true
    · simp only [timed, hc, if_true, List.mem_append] at h
      rcases h with h | h
      · obtain ⟨_, _, rfl⟩ := List.mem_map.1 h
        simp only [List.length_cons]
        omega
      · have := ih h
        simp only [List.length_cons]
        omega
    · rw [timed_of_incorrect (by simpa using hc)] at h
      cases h

/-- Nothing is released before a token has come. -/
theorem lt_of_mem_timed {x : Nat × Token} (h : x ∈ y.timed n ts) : n < x.1 := by
  induction ts generalizing y n with
  | nil => cases h
  | cons u ts ih =>
    by_cases hc : y.isCorrect = true
    · simp only [timed, hc, if_true, List.mem_append] at h
      rcases h with h | h
      · obtain ⟨_, _, rfl⟩ := List.mem_map.1 h
        exact Nat.lt_succ_self n
      · exact Nat.lt_of_succ_lt (ih h)
    · rw [timed_of_incorrect (by simpa using hc)] at h
      cases h

end Yard

namespace Rpn

variable {σ : Type} [FiniteTokenStream σ]

/-- What `k` calls of `next` leave. -/
def afterPulls (p : Rpn σ) : Nat → Rpn σ
  | 0 => p
  | k + 1 => (p.afterPulls k).next.2

/-- The tokens `ts` come out one by one, and nothing comes after them however often one asks. -/
def Yields (p : Rpn σ) (ts : List Token) : Prop := ∀ k, (p.afterPulls k).next.1 = ts[k]?

/-- How many tokens of the list `ts`, its supply at first, have been pulled. -/
def pulled (ts : List Token) (p : Rpn (List Token)) : Nat := ts.length - p.supply.length

/-- What is still to be handed out when `n` tokens have been pulled, with the number of tokens
pulled by then. -/
def timed (p : Rpn (List Token)) (n : Nat) : List (Nat × Token) :=
  p.ready.map (n, ·) ++ p.yard.timed n p.supply

/-- Exactly the first `n` tokens of `ts` have gone through the yard, and it was still correct before
each of them. -/
structure Stage (ts : List Token) (p : Rpn (List Token)) (n : Nat) : Prop where
  le : n ≤ ts.length
  supply : p.supply = ts.drop n
  yard : p.yard = ({} : Yard).after (ts.take n)
  correct : ∀ m < n, (({} : Yard).after (ts.take m)).isCorrect = true

theorem afterPulls_succ (p : Rpn σ) (k : Nat) : p.afterPulls (k + 1) = p.next.2.afterPulls k := by
  induction k with
  | zero => rfl
  | succ k ih => exact congrArg (fun q => (next q).2) ih

theorem yields_toList [FusedTokenStream σ] (p : Rpn σ) : p.Yields (TokenStream.toList p) := by
  intro k
  induction k generalizing p with
  | zero =>
    rcases hn : TokenStream.next p with ⟨_ | t, p'⟩
    · rw [TokenStream.toList_of_none hn]
      exact congrArg Prod.fst hn
    · rw [TokenStream.toList_of_some hn]
      exact congrArg Prod.fst hn
  | succ k ih =>
    rw [afterPulls_succ, ih]
    rcases hn : TokenStream.next p with ⟨_ | t, p'⟩
    · have hp : p.next.2 = p' := congrArg Prod.snd hn
      rw [hp, TokenStream.toList_of_none hn,
        TokenStream.toList_of_none (FusedTokenStream.next_of_none hn)]
      rfl
    · have hp : p.next.2 = p' := congrArg Prod.snd hn
      rw [hp, TokenStream.toList_of_some hn]
      rfl

theorem yields_toRpn [FusedTokenStream σ] (s : σ) : (ofStream s).Yields (toRpn s) :=
  yields_toList _

theorem length_timed (ts : List Token) : (({} : Yard).timed 0 ts).length = (toRpn ts).length := by
  rw [toRpn_eq, toList_list, ← Yard.map_snd_timed _ 0, List.length_map]

variable {ts : List Token} {p : Rpn (List Token)} {n k : Nat}

theorem Stage.pulled_eq (h : Stage ts p n) : p.pulled ts = n := by
  have hle := h.le
  rw [pulled, h.supply, List.length_drop]
  omega

theorem stage_ofStream (ts : List Token) : Stage ts (ofStream ts) 0 where
  le := Nat.zero_le _
  supply := rfl
  yard := rfl
  correct := by
    intro m hm
    cases hm

theorem Stage.accept {t : Token} {supply : List Token} (h : Stage ts p n)
    (hc : p.isCorrect = true) (hs : p.supply = t :: supply) :
    Stage ts (accept { p with supply } t) (n + 1) := by
  have hdrop : ts.drop n = t :: supply := h.supply.symm.trans hs
  have hlt : n < ts.length := by
    have := congrArg List.length hdrop
    simp only [List.length_drop, List.length_cons] at this
    omega
  have ht : ts[n]? = some t := by
    rw [← List.head?_drop, hdrop]
    rfl
  have hcorrect : (({} : Yard).after (ts.take n)).isCorrect = true := h.yard ▸ hc
  refine ⟨hlt, ?_, ?_, ?_⟩
  · change supply = _
    rw [← List.tail_drop, hdrop]
    rfl
  · change (p.yard.accept t).2 = _
    rw [take_succ_of_getElem? ht, Yard.after_append, Yard.after_singleton hcorrect, h.yard]
  · intro m hm
    rcases Nat.lt_succ_iff_lt_or_eq.1 hm with hm | rfl
    · exact h.correct m hm
    · exact hcorrect

/-- Each call of `next` hands out the first token to come, at the time that stands with it. -/
theorem Stage.next (h : Stage ts p n) :
    ∃ m, Stage ts p.next.2 m ∧ p.next.1 = (p.timed n).head?.map Prod.snd ∧
      p.next.2.timed m = (p.timed n).tail ∧ ∀ x ∈ (p.timed n).head?, x.1 = m := by
  induction p using next_induction generalizing n with
  | ready p t ready hr =>
    rw [next_of_ready hr]
    refine ⟨n, ⟨h.le, h.supply, h.yard, h.correct⟩, ?_, ?_, ?_⟩ <;> simp [timed, hr]
  | dry p supply hr hc hs =>
    rw [next_of_none hr hc hs]
    have hnil : p.supply = [] := by
      cases hp : p.supply with
      | nil => rfl
      | cons t rest =>
        rw [hp] at hs
        cases hs
    have hsupply : supply = p.supply := by
      rw [hnil] at hs ⊢
      cases hs
      rfl
    subst hsupply
    exact ⟨n, h, by simp [timed, hr, hnil, Yard.timed]⟩
  | pull p t supply hr hc hs ih =>
    rw [next_of_some hr hc hs]
    have hp : p.supply = t :: supply := by
      cases hp : p.supply with
      | nil =>
        rw [hp] at hs
        cases hs
      | cons u rest =>
        rw [hp] at hs
        cases hs
        rfl
    have htimed : (Rpn.accept { p with supply } t).timed (n + 1) = p.timed n := by
      have hc : p.yard.isCorrect = true := hc
      simp [timed, hr, hp, Yard.timed, hc, Rpn.accept, TokenStream.note]
    rw [← htimed]
    exact ih (h.accept hc hp)
  | failed p hr hc =>
    rw [next_of_incorrect hr hc]
    have hc : p.yard.isCorrect = false := hc
    exact ⟨n, h, by simp [timed, hr, Yard.timed_of_incorrect hc]⟩

/-- After `k` calls, what is still to be handed out is the whole less its first `k` tokens. -/
theorem stage_afterPulls (ts : List Token) (k : Nat) :
    ∃ n, Stage ts ((ofStream ts).afterPulls k) n ∧
      ((ofStream ts).afterPulls k).timed n = (({} : Yard).timed 0 ts).drop k := by
  induction k with
  | zero => exact ⟨0, stage_ofStream ts, rfl⟩
  | succ k ih =>
    obtain ⟨n, hs, ht⟩ := ih
    obtain ⟨m, hm, _, htail, _⟩ := hs.next
    exact ⟨m, hm, by rw [afterPulls, htail, ht, List.tail_drop]⟩

theorem next_afterPulls (ts : List Token) (k : Nat) :
    ((ofStream ts).afterPulls k).next.1 = (({} : Yard).timed 0 ts)[k]?.map Prod.snd := by
  obtain ⟨n, hs, ht⟩ := stage_afterPulls ts k
  obtain ⟨_, _, hnext, _⟩ := hs.next
  rw [hnext, ht, List.head?_drop]

/-- A token handed out has been released by the last token pulled. -/
theorem pulled_afterPulls {x : Nat × Token} (h : (({} : Yard).timed 0 ts)[k]? = some x) :
    ((ofStream ts).afterPulls (k + 1)).pulled ts = x.1 := by
  obtain ⟨n, hs, ht⟩ := stage_afterPulls ts k
  obtain ⟨m, hm, _, _, hx⟩ := hs.next
  rw [afterPulls, hm.pulled_eq]
  refine (hx x ?_).symm
  rw [ht, List.head?_drop, h]
  rfl

/-- Where the yard is still correct after the whole list, it is correct all the time. -/
theorem isCorrect_afterPulls (h : (({} : Yard).after ts).isCorrect = true) (k : Nat) :
    ((ofStream ts).afterPulls k).isCorrect = true := by
  obtain ⟨n, hs, _⟩ := stage_afterPulls ts k
  rw [isCorrect, hs.yard]
  rw [← List.take_append_drop n ts] at h
  exact Yard.isCorrect_of_append h

section

variable {f : Nat} {t : Token}

/-- The yard fails on the token at place `f` and not before. -/
structure Fails (ts : List Token) (f : Nat) (t : Token) : Prop where
  token : ts[f]? = some t
  correct : (({} : Yard).after (ts.take f)).isCorrect = true
  incorrect : ((({} : Yard).after (ts.take f)).accept t).2.isCorrect = false

theorem Fails.after_eq (h : Fails ts f t) :
    ({} : Yard).after (ts.take (f + 1)) = ((({} : Yard).after (ts.take f)).accept t).2 := by
  rw [take_succ_of_getElem? h.token, Yard.after_append, Yard.after_singleton h.correct]

theorem Fails.timed_eq (h : Fails ts f t) :
    ({} : Yard).timed 0 ts = ({} : Yard).timed 0 (ts.take f) ++
      ((({} : Yard).after (ts.take f)).accept t).1.map (f + 1, ·) := by
  have hsplit : ts = ts.take f ++ [t] ++ ts.drop (f + 1) := by
    rw [← take_succ_of_getElem? h.token, List.take_append_drop]
  have hafter : (({} : Yard).after (ts.take f ++ [t])).isCorrect = false := by
    rw [Yard.after_append, Yard.after_singleton h.correct]
    exact h.incorrect
  refine (congrArg (({} : Yard).timed 0) hsplit).trans ?_
  rw [Yard.timed_append, Yard.timed_of_incorrect hafter, List.append_nil, Yard.timed_append,
    Yard.timed_singleton h.correct, length_take_of_getElem? h.token, Nat.zero_add]

theorem Fails.released_eq (h : Fails ts f t) :
    ({} : Yard).released ts = ({} : Yard).released (ts.take f) ++
      ((({} : Yard).after (ts.take f)).accept t).1 := by
  rw [← Yard.map_snd_timed _ 0, h.timed_eq, List.map_append, Yard.map_snd_timed, List.map_map]
  simp [Function.comp_def]

theorem Fails.isCorrect_iff (h : Fails ts f t) (hs : Stage ts p n) :
    n ≤ f + 1 ∧ (p.isCorrect = false ↔ n = f + 1) := by
  have hle : n ≤ f + 1 := by
    refine Nat.le_of_not_lt fun hlt => ?_
    have := hs.correct (f + 1) hlt
    rw [h.after_eq, h.incorrect] at this
    cases this
  refine ⟨hle, ?_⟩
  rw [isCorrect, hs.yard]
  constructor
  · intro hc
    refine Nat.le_antisymm hle (Nat.lt_of_not_le fun hn => ?_)
    have hcorrect := h.correct
    rw [← List.take_append_drop n (ts.take f), List.take_take, Nat.min_eq_left hn] at hcorrect
    rw [Yard.isCorrect_of_append hcorrect] at hc
    cases hc
  · rintro rfl
    rw [h.after_eq]
    exact h.incorrect

/-- A yard that fails pulls the token it fails on and nothing more. -/
theorem Fails.pulled_le (h : Fails ts f t) (k : Nat) :
    ((ofStream ts).afterPulls k).pulled ts ≤ f + 1 ∧
      (((ofStream ts).afterPulls k).isCorrect = false ↔
        ((ofStream ts).afterPulls k).pulled ts = f + 1) := by
  obtain ⟨n, hs, _⟩ := stage_afterPulls ts k
  rw [hs.pulled_eq]
  exact h.isCorrect_iff hs

/-- Once all has been handed out, that token has been pulled. -/
theorem Fails.pulled_eq (h : Fails ts f t)
    (hne : ((({} : Yard).after (ts.take f)).accept t).1 ≠ [])
    (hk : (toRpn ts).length ≤ k) : ((ofStream ts).afterPulls k).pulled ts = f + 1 := by
  obtain ⟨n, hs, ht⟩ := stage_afterPulls ts k
  rw [hs.pulled_eq]
  have hlen : (({} : Yard).timed 0 ts).length ≤ k := by
    rwa [← length_timed] at hk
  rw [List.drop_eq_nil_of_le hlen] at ht
  obtain ⟨u, hu⟩ := List.exists_mem_of_ne_nil _ hne
  -- Had fewer tokens been pulled, this one would be among those already handed out.
  have hmem : (f + 1, u) ∈ ({} : Yard).timed 0 ts := by
    rw [h.timed_eq]
    exact List.mem_append_right _ (List.mem_map_of_mem hu)
  rw [← List.take_append_drop n ts, Yard.timed_append, ← hs.yard, ← hs.supply, List.length_take,
    Nat.min_eq_left hs.le, Nat.zero_add, (List.append_eq_nil_iff.1 ht).2, List.append_nil] at hmem
  have hle := Yard.mem_timed_le hmem
  have := (h.isCorrect_iff hs).1
  rw [List.length_take] at hle
  omega

end

end Rpn

end Reckon
