import Reckon.Proofs.Alike
import Reckon.Proofs.Pulls

/-! A failing evaluation is decided by the tokens it has pulled. What would come after them does not
matter, and fewer of them fail nowhere. -/

namespace Reckon

open TokenStream

variable {σ : Type} [FiniteTokenStream σ] {s : σ} {ts us : List Token} {c : Calculator}
  {f g : Failure} {k l m n : Nat}

namespace Calculator

theorem RejectsAt.lt_length (h : RejectsAt c ts k f) : k < ts.length := by
  induction h with
  | here => exact Nat.succ_pos _
  | later _ _ ih => exact Nat.succ_lt_succ ih

theorem RejectsAt.append (h : RejectsAt c ts k f) (us : List Token) :
    RejectsAt c (ts ++ us) k f := by
  induction h with
  | here h => exact .here h
  | later h _ ih => exact .later h ih

theorem RejectsAt.of_append (h : RejectsAt c (ts ++ us) k f) (hk : k < ts.length) :
    RejectsAt c ts k f := by
  induction ts generalizing c k with
  | nil => cases hk
  | cons t ts ih =>
    cases h with
    | here h => exact .here h
    | later h hr => exact .later h (ih hr (Nat.lt_of_succ_lt_succ hk))

/-- There is only one first token that fails. -/
theorem RejectsAt.place_unique (h : RejectsAt c ts k f) (h' : RejectsAt c ts l g) : k = l := by
  induction h generalizing l with
  | here h =>
    cases h' with
    | here => rfl
    | later h' =>
      rw [h] at h'
      cases h'
  | later h _ ih =>
    cases h' with
    | here h' =>
      rw [h] at h'
      cases h'
    | later h' hr =>
      rw [h] at h'
      cases h'
      rw [ih hr]

theorem run_fst_eq_error_iff : (c.run s).1 = .error f ↔ ∃ k, RejectsAt c (toList s) k f := by
  rw [run_fst, foldlM_eq_error_iff]

/-- Up to the token that fails a run pulls one token after the other, and then no more. -/
theorem RejectsAt.run_eq {p : Rpn σ} (h : RejectsAt c (toList p) k f) :
    c.run p = (.error f, p.afterPulls (k + 1)) := by
  generalize hts : toList p = ts at h
  induction h generalizing p with
  | here hc =>
    obtain ⟨p', hn, -⟩ := exists_next_of_toList hts
    rw [run_of_error hn hc]
    exact congrArg (Prod.mk _) (congrArg Prod.snd hn).symm
  | later hc _ ih =>
    obtain ⟨p', hn, hts'⟩ := exists_next_of_toList hts
    have hp : p.next.2 = p' := congrArg Prod.snd hn
    rw [run_of_ok hn hc, ih hts', Rpn.afterPulls_succ p, hp]

end Calculator

/-- What fails in a run fails in the evaluation, and at the same point. -/
theorem evaluate_of_run {p p' : Rpn (List Token)} (h : Calculator.run {} p = (.error f, p')) :
    evaluate p = (.error f, p') := by
  obtain ⟨i, j, he⟩ := evaluate_eq p
  have hp : note i p = p := rfl
  rw [he, hp, h]
  rfl

theorem toRpn_append (ts us : List Token) :
    toRpn (ts ++ us) = toRpn ts ++ (({} : Yard).after ts).released us := by
  simp only [toRpn_eq, toList_list, Yard.released_append]

/-- The token at place `k` of the output fails, and the `n`-th token of `ts` has released it. -/
structure FailsAfter (ts : List Token) (k n : Nat) (f : Failure) : Prop where
  rejects : Calculator.RejectsAt {} (toRpn ts) k f
  released : ∃ t, (({} : Yard).timed 0 ts)[k]? = some (n, t)

namespace FailsAfter

theorem of_rejectsAt (h : Calculator.RejectsAt {} (toRpn ts) k f) : ∃ n, FailsAfter ts k n f := by
  have hk := h.lt_length
  rw [← Rpn.length_timed] at hk
  exact ⟨_, h, _, List.getElem?_eq_getElem hk⟩

theorem le_length (h : FailsAfter ts k n f) : n ≤ ts.length := by
  obtain ⟨t, ht⟩ := h.released
  simpa using Yard.mem_timed_le (List.mem_of_getElem? ht)

theorem unique (h : FailsAfter ts k n f) (h' : FailsAfter ts l m g) : n = m := by
  obtain ⟨t, ht⟩ := h.released
  obtain ⟨u, hu⟩ := h'.released
  rw [h.rejects.place_unique h'.rejects, hu] at ht
  cases ht
  rfl

theorem append (h : FailsAfter ts k n f) (us : List Token) : FailsAfter (ts ++ us) k n f := by
  obtain ⟨t, ht⟩ := h.released
  refine ⟨?_, t, ?_⟩
  · rw [toRpn_append]
    exact h.rejects.append _
  · rw [Yard.timed_append, List.getElem?_append_left (List.getElem?_eq_some_iff.1 ht).1]
    exact ht

/-- What tokens release after the `n`-th is not the token that fails. -/
theorem of_append (h : FailsAfter (ts ++ us) k n f) (hn : n ≤ ts.length) :
    FailsAfter ts k n f := by
  obtain ⟨t, ht⟩ := h.released
  rw [Yard.timed_append, List.getElem?_append] at ht
  split at ht
  · next hk =>
    rw [Rpn.length_timed] at hk
    exact ⟨(toRpn_append ts us ▸ h.rejects).of_append hk, t, ht⟩
  · have := Yard.lt_of_mem_timed (List.mem_of_getElem? ht)
    simp only [Nat.zero_add] at this
    omega

/-- The evaluation fails as the run does, with as many tokens pulled as it takes to release the
token that fails. -/
theorem evaluate_eq (h : FailsAfter ts k n f) :
    (Calculator.run {} (Rpn.ofStream ts)).1 = .error f ∧
      (evaluate (Rpn.ofStream ts)).1 = .error f ∧ (evaluate (Rpn.ofStream ts)).2.pulled ts = n := by
  obtain ⟨t, ht⟩ := h.released
  have hrun := h.rejects.run_eq
  rw [evaluate_of_run hrun, hrun]
  exact ⟨rfl, rfl, Rpn.pulled_afterPulls ht⟩

end FailsAfter

/-- Where an evaluation fails at a token, the tokens it has pulled by then decide that it fails,
how, and when. Any other tokens may follow them. Fewer of them release nothing that fails. -/
theorem evaluate_take_append (h : (Calculator.run {} (Rpn.ofStream ts)).1 = .error f) :
    let n := (evaluate (Rpn.ofStream ts)).2.pulled ts
    (evaluate (Rpn.ofStream ts)).1 = .error f ∧
      (∀ us, let vs := ts.take n ++ us
        (Calculator.run {} (Rpn.ofStream vs)).1 = .error f ∧
          (evaluate (Rpn.ofStream vs)).1 = .error f ∧
          (evaluate (Rpn.ofStream vs)).2.pulled vs = n) ∧
      ∀ m < n, ∃ c, (Calculator.run {} (Rpn.ofStream (ts.take m))).1 = .ok c := by
  obtain ⟨k, hk⟩ := Calculator.run_fst_eq_error_iff.1 h
  obtain ⟨n, hn⟩ := FailsAfter.of_rejectsAt hk
  obtain ⟨-, he, hp⟩ := hn.evaluate_eq
  rw [hp]
  have hle := hn.le_length
  refine ⟨he, fun us => ?_, fun m hm => ?_⟩
  · have htake : FailsAfter (ts.take n) k n f := by
      rw [← List.take_append_drop n ts] at hn
      exact hn.of_append (by simp [hle])
    exact (htake.append us).evaluate_eq
  · rcases hrun : (Calculator.run {} (Rpn.ofStream (ts.take m))).1 with g | c
    · -- What fails after `m` tokens fails after all of them, and there is one place only.
      obtain ⟨l, hl⟩ := Calculator.run_fst_eq_error_iff.1 hrun
      obtain ⟨i, hi⟩ := FailsAfter.of_rejectsAt hl
      have hall := hi.append (ts.drop m)
      rw [List.take_append_drop] at hall
      have := hn.unique hall
      have := hi.le_length
      simp only [List.length_take] at this
      omega
    · exact ⟨c, rfl⟩

/-- The minus releases the quotient, which fails, and the sum, which nobody pulls. -/
theorem evaluate_take_append_quotient :
    let source := Source.ofText "<input>" "1+2/0-3"
    let o : Operator := ⟨⟨source, 3, 4⟩, .divide⟩
    let ts : List Token := [.number ⟨⟨source, 0, 1⟩, 1⟩, .operator ⟨⟨source, 1, 2⟩, .plus⟩,
      .number ⟨⟨source, 2, 3⟩, 2⟩, .operator o, .number ⟨⟨source, 4, 5⟩, 0⟩,
      .operator ⟨⟨source, 5, 6⟩, .minus⟩, .number ⟨⟨source, 6, 7⟩, 3⟩, .endOfInput]
    (Calculator.run {} (Rpn.ofStream ts)).1 = .error (.divisionByZero o) ∧
      (evaluate (Rpn.ofStream ts)).2.pulled ts = 6 ∧
      (∀ us, (evaluate (Rpn.ofStream (ts.take 6 ++ us))).1 = .error (.divisionByZero o) ∧
        (evaluate (Rpn.ofStream (ts.take 6 ++ us))).2.pulled (ts.take 6 ++ us) = 6) ∧
      ∀ m < 6, ∃ c, (Calculator.run {} (Rpn.ofStream (ts.take m))).1 = .ok c := by
  intro source o ts
  have hrejects : Calculator.RejectsAt {} (toRpn ts) 3 (.divisionByZero o) := by
    rw [toRpn_eq, toList_list]
    exact .later rfl (.later rfl (.later rfl (.here rfl)))
  obtain ⟨hrun, -, hn⟩ := FailsAfter.evaluate_eq (n := 6) ⟨hrejects, _, rfl⟩
  obtain ⟨-, hus, hm⟩ := evaluate_take_append hrun
  rw [hn] at hus hm
  exact ⟨hrun, hn, fun us => (hus us).2, hm⟩

end Reckon
