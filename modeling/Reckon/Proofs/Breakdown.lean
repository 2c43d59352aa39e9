import Reckon.Proofs.Order

/-! Where a list of tokens makes a yard fail, and what the yard still hands out then. -/

namespace Reckon

/-- The parenthesis opened at `a` is not closed before `n`. -/
structure Unclosed (ts : List Token) (n a : Nat) : Prop where
  lt : a < n
  opening : ts[a]?.any Token.isOpening = true
  not_closes : ∀ b < n, ¬ Closes ts a b

/-- The operator at `i` has not been released before `n`. -/
structure Waits (ts : List Token) (n i : Nat) : Prop where
  lt : i < n
  operator : ∃ o, ts[i]? = some (.operator o)
  not_reaches : ∀ j < n, ¬ Reaches ts i j

/-- At place `n` there is a fault, or a closing parenthesis with nothing left to close. -/
inductive Breaks (ts : List Token) (n : Nat) : Prop where
  | fault {e : Fault} (ht : ts[n]? = some (.fault e))
  | unopened {p : Parenthesis} (ht : ts[n]? = some (.parenthesis p)) (hp : p.isOpen = false)
    (h : ∀ a, ¬ Unclosed ts n a)

/-- The first place that breaks, or if there is none the end of input, should a parenthesis be
unclosed there. -/
def FailsAt (ts : List Token) (f : Nat) : Prop :=
  (Breaks ts f ∧ ∀ m < f, ¬ Breaks ts m) ∨
    (∀ m, ¬ Breaks ts m) ∧ ts[f]? = some .endOfInput ∧ ∃ a, Unclosed ts f a

/-- The operators released at the place of a failure, and the fault that follows them. A fault among
the tokens releases nothing, and an unclosed parenthesis holds back what comes before it. -/
inductive Reports (ts : List Token) (f : Nat) : List Nat → Fault → Prop where
  | fault {e : Fault} (ht : ts[f]? = some (.fault e)) : Reports ts f [] e
  | unopened {p : Parenthesis} {places : List Nat} (ht : ts[f]? = some (.parenthesis p))
    (hp : p.isOpen = false) (hw : ∀ i, i ∈ places ↔ Waits ts f i) :
    Reports ts f places (.unopened p)
  | unclosed {p : Parenthesis} {a : Nat} {places : List Nat} (ht : ts[f]? = some .endOfInput)
    (ha : ts[a]? = some (.parenthesis p)) (hu : Unclosed ts f a)
    (hlast : ∀ b, Unclosed ts f b → b ≤ a) (hw : ∀ i, i ∈ places ↔ Waits ts f i ∧ a < i) :
    Reports ts f places (.unclosed p)

variable {ts : List Token} {n f a i : Nat} {t : Token} {q above below : List (Nat × Pending)}
  {order : List (Nat × Nat)}

theorem FailsAt.lt_length (h : FailsAt ts f) : f < ts.length := by
  rcases h with ⟨⟨ht⟩ | ⟨ht, _, _⟩, _⟩ | ⟨_, ht, _⟩ <;> exact (List.getElem?_eq_some_iff.1 ht).1

theorem FailsAt.not_breaks (h : FailsAt ts f) (hn : n < f) : ¬ Breaks ts n := by
  rcases h with ⟨_, h⟩ | ⟨h, _⟩
  · exact h n hn
  · exact h n

namespace Ledger

/-- The opening parentheses on the stack are those that are unclosed. -/
theorem unclosed_iff (h : Ledger ts n q) : Unclosed ts n a ↔ ∃ p, (a, .opening p) ∈ q := by
  constructor
  · intro hu
    obtain ⟨t, ht, ho⟩ := (Option.any_eq_true _ _).1 hu.opening
    cases t with
    | parenthesis p =>
      rcases h.settled a hu.lt _ (pending?_eq_opening_iff.2 ⟨ht, ho⟩) with hq | ⟨j, _, hr⟩ | hc
      · exact ⟨p, hq⟩
      · obtain ⟨o, _, ho, _⟩ := hr.releases
        rw [ht] at ho
        cases ho
      · obtain ⟨b, hb, hc⟩ := hc
        exact (hu.not_closes b hb hc).elim
    | _ => cases ho
  · rintro ⟨p, hq⟩
    obtain ⟨ht, hp⟩ := pending?_eq_opening_iff.1 (h.entry _ hq)
    refine ⟨h.lt hq, ?_, fun b hb => h.not_closes hq hb⟩
    simpa [ht, Token.isOpening] using hp

/-- The operators on the stack are those that wait. -/
theorem waits_iff (h : Ledger ts n q) : Waits ts n i ↔ ∃ o, (i, .operator o) ∈ q := by
  constructor
  · intro hw
    obtain ⟨o, ht⟩ := hw.operator
    rcases h.settled i hw.lt _ (pending?_eq_operator_iff.2 ht) with hq | ⟨j, hj, hr⟩ | ⟨b, _, hc⟩
    · exact ⟨o, hq⟩
    · exact (hw.not_reaches j hj hr).elim
    · have := hc.opening
      rw [ht] at this
      cases this
  · rintro ⟨o, hq⟩
    exact ⟨h.lt hq, ⟨o, pending?_eq_operator_iff.1 (h.entry _ hq)⟩, fun j hj => h.waiting _ hq j hj⟩

theorem passes (h : Ledger ts n q) (ht : ts[n]? = some t) (he : t ≠ .endOfInput)
    (hb : ¬ Breaks ts n) : Passes ts n q := by
  refine ⟨t, ht, ?_, he, ?_⟩
  · cases t with
    | fault e => exact (hb (.fault ht)).elim
    | _ => rfl
  · intro hc
    cases t with
    | parenthesis p =>
      have hp : p.isOpen = false := by simpa [Token.isClosing] using hc
      by_cases hu : ∃ a, Unclosed ts n a
      · obtain ⟨a, hu⟩ := hu
        obtain ⟨p', hq⟩ := h.unclosed_iff.1 hu
        exact ⟨_, hq, rfl⟩
      · exact (hb (.unopened ht hp fun a ha => hu ⟨a, ha⟩)).elim
    | _ => cases hc

/-- With nothing unclosed, the operators that wait are all there is on the stack. -/
theorem mem_places_iff (h : Ledger ts n q) (hu : ∀ a, ¬ Unclosed ts n a) :
    i ∈ q.map Prod.fst ↔ Waits ts n i := by
  rw [h.waits_iff, List.mem_map]
  constructor
  · rintro ⟨⟨i, e⟩, hx, rfl⟩
    cases e with
    | operator o => exact ⟨o, hx⟩
    | opening p => exact (hu i (h.unclosed_iff.2 ⟨p, hx⟩)).elim
  · rintro ⟨o, hx⟩
    exact ⟨_, hx, rfl⟩

/-- Above the innermost parenthesis on the stack stand the operators that came after it. -/
theorem mem_above_iff {p : Parenthesis} (h : Ledger ts n (above ++ (a, .opening p) :: below))
    (ha : ∀ y ∈ above, ∃ o, y.2 = .operator o) :
    i ∈ above.map Prod.fst ↔ Waits ts n i ∧ a < i := by
  have hp := (List.pairwise_cons.1 h.pairwise).2
  rw [List.map_append, List.map_cons] at hp
  obtain ⟨_, hbelow, hcross⟩ := List.pairwise_append.1 hp
  rw [h.waits_iff]
  constructor
  · intro hi
    refine ⟨?_, hcross i hi a List.mem_cons_self⟩
    obtain ⟨y, hy, rfl⟩ := List.mem_map.1 hi
    obtain ⟨o, ho⟩ := ha y hy
    exact ⟨o, List.mem_append_left _ (ho ▸ hy)⟩
  · rintro ⟨⟨o, hq⟩, hlt⟩
    rcases List.mem_append.1 hq with hq | hq
    · exact List.mem_map_of_mem hq
    · rcases List.mem_cons.1 hq with heq | hq
      · cases heq
      · have := List.rel_of_pairwise_cons hbelow (List.mem_map_of_mem hq)
        omega

/-- That parenthesis is the last one unclosed. -/
theorem last_unclosed {p : Parenthesis} (h : Ledger ts n (above ++ (a, .opening p) :: below))
    (ha : ∀ y ∈ above, ∃ o, y.2 = .operator o) :
    Unclosed ts n a ∧ ∀ b, Unclosed ts n b → b ≤ a := by
  refine ⟨h.unclosed_iff.2 ⟨p, List.mem_append_right _ List.mem_cons_self⟩, ?_⟩
  intro b hu
  have hp := (List.pairwise_cons.1 h.pairwise).2
  rw [List.map_append, List.map_cons] at hp
  obtain ⟨p, hq⟩ := h.unclosed_iff.1 hu
  rcases List.mem_append.1 hq with hq | hq
  · obtain ⟨o, ho⟩ := ha _ hq
    cases ho
  · rcases List.mem_cons.1 hq with heq | hq
    · cases heq
      exact Nat.le_refl _
    · exact Nat.le_of_lt (List.rel_of_pairwise_cons (List.pairwise_append.1 hp).2.1
        (List.mem_map_of_mem hq))

/-- A closing parenthesis with nothing to close releases all that waits. -/
theorem reports_unopened (h : Ledger ts n q) {p : Parenthesis}
    (ht : ts[n]? = some (.parenthesis p)) (hp : p.isOpen = false) (hu : ∀ a, ¬ Unclosed ts n a) :
    Reports ts n (q.map Prod.fst) (.unopened p) ∧
      Yard.accept ⟨q.map Prod.snd, true⟩ (.parenthesis p) =
        (tokensAt ts (q.map Prod.fst) ++ [.fault (.unopened p)], ⟨[], false⟩) := by
  rcases h.exists_releaseToOpening with ⟨_, hr⟩ | ⟨above, a, p', below, rfl, ha, _⟩
  · refine ⟨.unopened ht hp fun i => h.mem_places_iff hu, ?_⟩
    simp [Yard.accept, hp, hr]
  · exact (hu a (h.last_unclosed ha).1).elim

/-- The end of input releases what waits after the last unclosed parenthesis. -/
theorem reports_unclosed (h : Ledger ts n q) (ht : ts[n]? = some .endOfInput)
    (hu : ∃ a, Unclosed ts n a) :
    ∃ places p, Reports ts n places (.unclosed p) ∧ places.Pairwise (· > ·) ∧
      Yard.accept ⟨q.map Prod.snd, true⟩ .endOfInput =
        (tokensAt ts places ++ [.fault (.unclosed p)], ⟨[], false⟩) := by
  rcases h.exists_releaseToOpening with ⟨ha, _⟩ | ⟨above, a, p, below, rfl, ha, hr⟩
  · obtain ⟨a, hu⟩ := hu
    obtain ⟨p, hq⟩ := h.unclosed_iff.1 hu
    obtain ⟨o, ho⟩ := ha _ hq
    cases ho
  · have hmem : (a, .opening p) ∈ above ++ (a, .opening p) :: below :=
      List.mem_append_right _ List.mem_cons_self
    have hpar := (pending?_eq_opening_iff.1 (h.entry _ hmem)).1
    obtain ⟨hua, hlast⟩ := h.last_unclosed ha
    refine ⟨above.map Prod.fst, p, ?_, h.pairwise_above, by simp only [Yard.accept, hr]⟩
    exact .unclosed ht hpar hua hlast fun i => h.mem_above_iff ha

end Ledger

/-- Until a place breaks, the account can be kept. -/
theorem exists_account_of_not_breaks (he : ∀ m < n, ∃ t, ts[m]? = some t ∧ t ≠ .endOfInput)
    (hb : ∀ m < n, ¬ Breaks ts m) : ∃ q order, Account ts n q order := by
  refine exists_account fun m hm q hq => ?_
  obtain ⟨t, ht, hne⟩ := he m hm
  exact hq.passes ht hne (hb m hm)

namespace Account

/-- At the place of a failure, the yard releases what is reported, last in first out. -/
theorem exists_reports (h : Account ts f q order) (hf : FailsAt ts f) :
    ∃ t places e, ts[f]? = some t ∧ Reports ts f places e ∧ places.Pairwise (· > ·) ∧
      (Yard.accept ⟨q.map Prod.snd, true⟩ t).1 = tokensAt ts places ++ [.fault e] ∧
      (Yard.accept ⟨q.map Prod.snd, true⟩ t).2.isCorrect = false := by
  rcases hf with ⟨⟨ht⟩ | ⟨ht, hp, hu⟩, _⟩ | ⟨_, ht, hu⟩
  · exact ⟨_, [], _, ht, .fault ht, .nil, rfl, rfl⟩
  · obtain ⟨hr, hacc⟩ := h.ledger.reports_unopened ht hp hu
    exact ⟨_, _, _, ht, hr, (List.pairwise_cons.1 h.ledger.pairwise).2, by rw [hacc], by rw [hacc]⟩
  · obtain ⟨places, p, hr, hp, hacc⟩ := h.ledger.reports_unclosed ht hu
    exact ⟨_, places, _, ht, hr, hp, by rw [hacc], by rw [hacc]⟩

theorem fails (h : Account ts f q order) (ht : ts[f]? = some t)
    (hc : (Yard.accept ⟨q.map Prod.snd, true⟩ t).2.isCorrect = false) : Rpn.Fails ts f t := by
  refine ⟨ht, ?_, ?_⟩
  · rw [h.yard]
  · rw [h.yard]
    exact hc

end Account

/-- A place where the tokens fail is one where the yard does. -/
theorem FailsAt.exists_reports (he : ∀ t ∈ ts.dropLast, t ≠ .endOfInput) (hf : FailsAt ts f) :
    ∃ t places e, Rpn.Fails ts f t ∧ Reports ts f places e ∧ places.Pairwise (· > ·) ∧
      ((({} : Yard).after (ts.take f)).accept t).1 = tokensAt ts places ++ [.fault e] := by
  have hpre : ∀ m < f, ∃ t, ts[m]? = some t ∧ t ≠ .endOfInput := by
    intro m hm
    have hlt := hf.lt_length
    exact exists_ne_endOfInput he (by omega)
  obtain ⟨q, order, ha⟩ := exists_account_of_not_breaks hpre fun m hm => hf.not_breaks hm
  obtain ⟨t, places, e, ht, hr, hp, hout, hc⟩ := ha.exists_reports hf
  exact ⟨t, places, e, ha.fails ht hc, hr, hp, by rw [ha.yard, hout]⟩

/-- Where nothing fails, the yard stays correct to the end. -/
theorem isCorrect_of_not_failsAt (he : ∀ t ∈ ts.dropLast, t ≠ .endOfInput)
    (hf : ∀ f, ¬ FailsAt ts f) : (({} : Yard).after ts).isCorrect = true := by
  have hb : ∀ m, ¬ Breaks ts m := by
    intro m
    induction m using Nat.strongRecOn with
    | _ m ih =>
      intro hm
      exact hf m (Or.inl ⟨hm, ih⟩)
  by_cases hmem : .endOfInput ∈ ts
  · obtain ⟨n, hlen, hlast⟩ := exists_of_mem_endOfInput he hmem
    have hpre : ∀ m < n, ∃ t, ts[m]? = some t ∧ t ≠ .endOfInput := by
      intro m hm
      exact exists_ne_endOfInput he (by omega)
    obtain ⟨q, order, ha⟩ := exists_account_of_not_breaks hpre fun m _ => hb m
    have hafter : ({} : Yard).after ts = (Yard.accept ⟨q.map Prod.snd, true⟩ .endOfInput).2 := by
      rw [← Yard.after_singleton rfl, ← ha.yard, ← Yard.after_append,
        ← take_succ_of_getElem? hlast, ← hlen, List.take_length]
    rw [hafter]
    rcases ha.ledger.exists_releaseToOpening with ⟨_, hr⟩ | ⟨above, a, p, below, rfl, ho, _⟩
    · simp only [Yard.accept, hr]
    · exact (hf n (Or.inr ⟨hb, hlast, a, (ha.ledger.last_unclosed ho).1⟩)).elim
  · have hpre : ∀ m < ts.length, ∃ t, ts[m]? = some t ∧ t ≠ .endOfInput := fun m hm =>
      ⟨ts[m], List.getElem?_eq_getElem hm, fun h => hmem (h ▸ List.getElem_mem hm)⟩
    obtain ⟨q, order, ha⟩ := exists_account_of_not_breaks hpre fun m _ => hb m
    have hyard := ha.yard
    rw [List.take_length] at hyard
    rw [hyard]

/-- The earliest failure decides what a yard hands out last, how much it pulls and from when on it
is incorrect. Without one it stays correct. -/
theorem yields_of_failsAt (he : ∀ t ∈ ts.dropLast, t ≠ .endOfInput) :
    (∀ f, FailsAt ts f → ∃ places e, Reports ts f places e ∧ places.Pairwise (· > ·) ∧
      toRpn ts = toRpn (ts.take f) ++ tokensAt ts places ++ [.fault e] ∧
      (Rpn.ofStream ts).Yields (toRpn ts) ∧
      ∀ k, ((Rpn.ofStream ts).afterPulls k).pulled ts ≤ f + 1 ∧
        (((Rpn.ofStream ts).afterPulls k).isCorrect = false ↔
          ((Rpn.ofStream ts).afterPulls k).pulled ts = f + 1) ∧
        ((toRpn ts).length ≤ k → ((Rpn.ofStream ts).afterPulls k).pulled ts = f + 1)) ∧
    ((∀ f, ¬ FailsAt ts f) → (∀ t ∈ toRpn ts, t.isFault = false) ∧
      ∀ k, ((Rpn.ofStream ts).afterPulls k).isCorrect = true) := by
  constructor
  · intro f hf
    obtain ⟨t, places, e, hfail, hr, hp, hout⟩ := hf.exists_reports he
    refine ⟨places, e, hr, hp, ?_, Rpn.yields_toRpn ts, ?_⟩
    · rw [toRpn_eq, toRpn_eq, toList_list, toList_list, hfail.released_eq, hout,
        List.append_assoc]
    · intro k
      obtain ⟨hle, hiff⟩ := hfail.pulled_le k
      refine ⟨hle, hiff, fun hk => hfail.pulled_eq ?_ hk⟩
      simp [hout]
  · intro hf
    have hc := isCorrect_of_not_failsAt he hf
    refine ⟨?_, fun k => Rpn.isCorrect_afterPulls hc k⟩
    intro t ht
    rw [toRpn_eq, toList_list] at ht
    exact Yard.isFault_of_mem_released hc ht

/-- The minus stands before the parenthesis that is never closed. -/
theorem yields_of_failsAt_unclosed :
    let source := Source.ofText "<input>" "1-(2*3"
    let ts : List Token :=
      [.number ⟨⟨source, 0, 1⟩, 1⟩, .operator ⟨⟨source, 1, 2⟩, .minus⟩,
        .parenthesis ⟨⟨source, 2, 3⟩, true⟩, .number ⟨⟨source, 3, 4⟩, 2⟩,
        .operator ⟨⟨source, 4, 5⟩, .multiply⟩, .number ⟨⟨source, 5, 6⟩, 3⟩, .endOfInput]
    FailsAt ts 6 ∧ ∃ places e, Reports ts 6 places e ∧ places.Pairwise (· > ·) ∧
      toRpn ts = toRpn (ts.take 6) ++ tokensAt ts places ++ [.fault e] ∧
      (Rpn.ofStream ts).Yields (toRpn ts) ∧
      ∀ k, ((Rpn.ofStream ts).afterPulls k).pulled ts ≤ 7 ∧
        (((Rpn.ofStream ts).afterPulls k).isCorrect = false ↔
          ((Rpn.ofStream ts).afterPulls k).pulled ts = 7) ∧
        ((toRpn ts).length ≤ k → ((Rpn.ofStream ts).afterPulls k).pulled ts = 7) := by
  intro source ts
  have hclear : ∀ t ∈ ts, t.isFault = false ∧ t.isClosing = false := by
    intro t ht
    simp only [ts, List.mem_cons, List.not_mem_nil, or_false] at ht
    rcases ht with rfl | rfl | rfl | rfl | rfl | rfl | rfl <;> exact ⟨rfl, rfl⟩
  have hb : ∀ m, ¬ Breaks ts m := by
    rintro m (⟨ht⟩ | ⟨ht, hp, _⟩)
    · cases (hclear _ (List.mem_of_getElem? ht)).1
    · have := (hclear _ (List.mem_of_getElem? ht)).2
      simp [Token.isClosing, hp] at this
  have hu : Unclosed ts 6 2 := by
    refine ⟨by decide, rfl, ?_⟩
    intro b _ hc
    obtain ⟨t, ht, hclosing⟩ := (Option.any_eq_true _ _).1 hc.closing
    rw [(hclear t (List.mem_of_getElem? ht)).2] at hclosing
    cases hclosing
  have hf : FailsAt ts 6 := Or.inr ⟨hb, rfl, 2, hu⟩
  exact ⟨hf, (yields_of_failsAt (by simp [ts])).1 6 hf⟩

end Reckon
