import Reckon.Proofs.Ledger
import Reckon.Proofs.Pulls

/-! The order in which a list of tokens is released, and how far the list has been read by then. -/

namespace Reckon

/-- Places with the places that release them: what is released earlier comes first, and of what is
released together the last to arrive. -/
def Before (x y : Nat × Nat) : Prop := x.2 < y.2 ∨ x.2 = y.2 ∧ y.1 < x.1

/-- A released place with its token, and the number of tokens taken by then. -/
def timedAt (ts : List Token) (x : Nat × Nat) : Option (Nat × Token) :=
  ts[x.1]?.map (x.2 + 1, ·)

/-- The first `n` tokens have gone through a yard without a fault. `q` is what it still holds and
`order` what it has released. -/
structure Account (ts : List Token) (n : Nat) (q : List (Nat × Pending))
    (order : List (Nat × Nat)) : Prop where
  ledger : Ledger ts n q
  yard : ({} : Yard).after (ts.take n) = ⟨q.map Prod.snd, true⟩
  mem : ∀ i r, (i, r) ∈ order ↔ ReleasedAt ts i r ∧ r < n
  sorted : order.Pairwise Before
  timed : (({} : Yard).timed 0 (ts.take n)).map some = order.map (timedAt ts)

/-- The token at place `n` causes no fault in a yard that holds `q`. -/
def Passes (ts : List Token) (n : Nat) (q : List (Nat × Pending)) : Prop :=
  ∃ t, ts[n]? = some t ∧ t.isFault = false ∧ t ≠ .endOfInput ∧
    (t.isClosing = true → ∃ x ∈ q, x.2.isOpening = true)

variable {ts : List Token} {n i j r : Nat} {t : Token} {q : List (Nat × Pending)}
  {order : List (Nat × Nat)} {places : List Nat}

theorem Reaches.place_unique (hi : Reaches ts i j) (hfirst : ∀ k < j, ¬ Reaches ts i k)
    (hr : Reaches ts i r) (hfirst' : ∀ k < r, ¬ Reaches ts i k) : j = r := by
  rcases Nat.lt_trichotomy j r with h | h | h
  · exact (hfirst' j h hi).elim
  · exact h
  · exact (hfirst r h hr).elim

theorem ReleasedAt.unique (h : ReleasedAt ts i j) (h' : ReleasedAt ts i r) : j = r := by
  rcases h with ⟨m, hm, rfl⟩ | ⟨hj, hfirst⟩
  · rcases h' with ⟨_, _, rfl⟩ | ⟨hr, _⟩
    · rfl
    · obtain ⟨o, _, ho, _⟩ := hr.releases
      rw [hm] at ho
      cases ho
  · rcases h' with ⟨m, hm, rfl⟩ | ⟨hr, hfirst'⟩
    · obtain ⟨o, _, ho, _⟩ := hj.releases
      rw [hm] at ho
      cases ho
    · exact hj.place_unique hfirst hr hfirst'

theorem ReleasedAt.lt_length (h : ReleasedAt ts i r) : i < ts.length ∧ r < ts.length := by
  rcases h with ⟨m, hm, rfl⟩ | ⟨hr, _⟩
  · exact ⟨(List.getElem?_eq_some_iff.1 hm).1, (List.getElem?_eq_some_iff.1 hm).1⟩
  · obtain ⟨o, u, ho, hu, _⟩ := hr.releases
    exact ⟨(List.getElem?_eq_some_iff.1 ho).1, (List.getElem?_eq_some_iff.1 hu).1⟩

theorem map_some_tokensAt (h : ∀ i ∈ places, i < ts.length) :
    (tokensAt ts places).map some = places.map (ts[·]?) := by
  induction places with
  | nil => rfl
  | cons i places ih =>
    have hi := List.getElem?_eq_getElem (h i List.mem_cons_self)
    have := ih fun k hk => h k (List.mem_cons_of_mem _ hk)
    simpa [tokensAt, hi] using this

theorem ledger_zero (ts : List Token) : Ledger ts 0 [] where
  entry x hx := by cases hx
  linked := .singleton 0
  tight := .nil
  waiting x hx := by cases hx
  settled i hi := by cases hi
  count := by simp

theorem account_zero (ts : List Token) : Account ts 0 [] [] where
  ledger := ledger_zero ts
  yard := rfl
  mem i r := by simp
  sorted := .nil
  timed := rfl

/-- The places released at `n`, the latest first, come after all that were released before. -/
theorem sorted_append (hs : order.Pairwise Before) (ho : ∀ i r, (i, r) ∈ order → r < n)
    (hp : places.Pairwise (· > ·)) : (order ++ places.map (·, n)).Pairwise Before := by
  refine List.pairwise_append.2 ⟨hs, ?_, ?_⟩
  · exact List.pairwise_map.2 (hp.imp fun h => Or.inr ⟨rfl, h⟩)
  · intro x hx y hy
    obtain ⟨i, _, rfl⟩ := List.mem_map.1 hy
    exact Or.inl (ho x.1 x.2 hx)

theorem mem_append_iff (hm : ∀ i r, (i, r) ∈ order ↔ ReleasedAt ts i r ∧ r < n)
    (hp : ∀ i, i ∈ places ↔ ReleasedAt ts i n) (i r : Nat) :
    (i, r) ∈ order ++ places.map (·, n) ↔ ReleasedAt ts i r ∧ r < n + 1 := by
  rw [List.mem_append, hm, List.mem_map]
  constructor
  · rintro (⟨hr, hlt⟩ | ⟨k, hk, heq⟩)
    · exact ⟨hr, Nat.lt_succ_of_lt hlt⟩
    · cases heq
      exact ⟨(hp i).1 hk, Nat.lt_succ_self n⟩
  · rintro ⟨hr, hlt⟩
    rcases Nat.lt_succ_iff_lt_or_eq.1 hlt with hlt | rfl
    · exact Or.inl ⟨hr, hlt⟩
    · exact Or.inr ⟨i, (hp i).2 hr, rfl⟩

namespace Account

/-- What one more token releases is appended to what has been released. -/
theorem timed_succ (h : Account ts n q order) (ht : ts[n]? = some t) (rest : List Token)
    (hr : (Yard.accept ⟨q.map Prod.snd, true⟩ t).1 = tokensAt ts places ++ rest)
    (hp : ∀ i ∈ places, i < ts.length) :
    (({} : Yard).timed 0 (ts.take (n + 1))).map some =
      (order ++ places.map (·, n)).map (timedAt ts) ++ rest.map fun t => some (n + 1, t) := by
  have hplaces : ((tokensAt ts places).map (n + 1, ·)).map some =
      (places.map (·, n)).map (timedAt ts) := by
    have := congrArg (List.map (Option.map (n + 1, ·))) (map_some_tokensAt hp)
    simpa [Function.comp_def, timedAt] using this
  rw [take_succ_of_getElem? ht, Yard.timed_append, h.yard, Yard.timed_singleton rfl, hr,
    Nat.zero_add, length_take_of_getElem? ht]
  simp only [List.map_append, h.timed, hplaces, List.append_assoc]
  simp

theorem succ (h : Account ts n q order) (hp : Passes ts n q) :
    ∃ q' order', Account ts (n + 1) q' order' := by
  obtain ⟨t, ht, hf, he, hc⟩ := hp
  obtain ⟨places, q', hacc, hdesc, hmem, hl⟩ := h.ledger.takes ht hf he hc
  refine ⟨q', order ++ places.map (·, n), hl, ?_, mem_append_iff h.mem hmem, ?_, ?_⟩
  · rw [take_succ_of_getElem? ht, Yard.after_append, h.yard, Yard.after_singleton rfl, hacc]
  · exact sorted_append h.sorted (fun i r hir => ((h.mem i r).1 hir).2) hdesc
  · have := h.timed_succ ht [] (by rw [hacc, List.append_nil])
      fun i hi => ((hmem i).1 hi).lt_length.1
    simpa using this

end Account

/-- Without a fault before place `n`, the account can be kept up to it. -/
theorem exists_account (h : ∀ m < n, ∀ q, Ledger ts m q → Passes ts m q) :
    ∃ q order, Account ts n q order := by
  induction n with
  | zero => exact ⟨[], [], account_zero ts⟩
  | succ n ih =>
    obtain ⟨q, order, ha⟩ := ih fun m hm => h m (Nat.lt_succ_of_lt hm)
    exact ha.succ (h n (Nat.lt_succ_self n) q ha.ledger)

/-- The end of input is found at the last place only. -/
theorem exists_of_mem_endOfInput (he : ∀ t ∈ ts.dropLast, t ≠ .endOfInput)
    (hmem : .endOfInput ∈ ts) : ∃ n, ts.length = n + 1 ∧ ts[n]? = some .endOfInput := by
  obtain ⟨n, hn⟩ := List.getElem?_of_mem hmem
  refine ⟨n, ?_, hn⟩
  have hlt := (List.getElem?_eq_some_iff.1 hn).1
  refine Nat.le_antisymm (Nat.le_of_not_lt fun hlast => ?_) hlt
  have hdrop : ts.dropLast[n]? = some .endOfInput := by
    rw [List.getElem?_dropLast, if_pos (by omega)]
    exact hn
  exact he _ (List.mem_of_getElem? hdrop) rfl

theorem exists_ne_endOfInput (he : ∀ t ∈ ts.dropLast, t ≠ .endOfInput) (hn : n + 1 < ts.length) :
    ∃ t, ts[n]? = some t ∧ t ≠ .endOfInput := by
  have ht : ts.dropLast[n]? = some ts[n] := by
    rw [List.getElem?_dropLast, if_pos (by omega)]
    exact List.getElem?_eq_getElem _
  exact ⟨ts[n], List.getElem?_eq_getElem _, he _ (List.mem_of_getElem? ht)⟩

/-- In a nested list a closing parenthesis always finds an opening one. -/
theorem passes_of_nested (hf : ∀ t ∈ ts, t.isFault = false) (hn : Nested ts)
    (ht : ts[n]? = some t) (he : t ≠ .endOfInput) (h : Ledger ts n q) : Passes ts n q := by
  refine ⟨t, ht, hf t (List.mem_of_getElem? ht), he, ?_⟩
  intro hc
  have hle := hn (n + 1)
  have hcount := h.count
  have ho := Token.isOpening_of_isClosing hc
  rw [take_succ_of_getElem? ht] at hle
  simp only [openings_append, closings_append, openings_cons, closings_cons, openings_nil,
    closings_nil, hc, ho] at hle
  have hpos : 0 < (q.map Prod.snd).countP Pending.isOpening := by
    simp only [if_true, Bool.false_eq_true, if_false] at hle
    omega
  obtain ⟨e, hmem, hopen⟩ := List.countP_pos_iff.1 hpos
  obtain ⟨x, hx, rfl⟩ := List.mem_map.1 hmem
  exact ⟨x, hx, hopen⟩

/-- At the end of balanced tokens only operators are left, and all of them go. -/
theorem Account.finish (h : Account ts n q order) (ht : ts[n]? = some .endOfInput)
    (hb : openings (ts.take n) = closings (ts.take n)) :
    Yard.accept ⟨q.map Prod.snd, true⟩ .endOfInput =
        (tokensAt ts (q.map Prod.fst) ++ [.endOfInput], ⟨[], true⟩) ∧
      (q.map Prod.fst).Pairwise (· > ·) ∧ ∀ i, i ∈ q.map Prod.fst ↔ ReleasedAt ts i n := by
  have hcount := h.ledger.count
  rcases h.ledger.exists_releaseToOpening with ⟨ha, hr⟩ | ⟨above, a, p, below, rfl, _, _⟩
  · have hl : Ledger ts n (q ++ []) := by
      rw [List.append_nil]
      exact h.ledger
    have hs : Splits ts n q [] := hl.splits_of_closer ht (fun _ => rfl) ha (by simp)
    refine ⟨by simp only [Yard.accept, hr], hl.pairwise_above, ?_⟩
    intro i
    exact (hl.releasedAt_iff hs (by simp [ht])).symm
  · rw [List.map_append, List.countP_append, List.map_cons, List.countP_cons_of_pos rfl] at hcount
    omega

/-- What a list without faults releases and when: the places by the time of their release, and then
the end of input. -/
theorem exists_schedule (hf : ∀ t ∈ ts, t.isFault = false)
    (he : ∀ t ∈ ts.dropLast, t ≠ .endOfInput) (hn : Nested ts)
    (hb : .endOfInput ∈ ts → Balanced ts) :
    ∃ order : List (Nat × Nat), (∀ i r, (i, r) ∈ order ↔ ReleasedAt ts i r) ∧
      order.Pairwise Before ∧
      (({} : Yard).timed 0 ts).map some = order.map (timedAt ts) ++
        (if .endOfInput ∈ ts then [(ts.length, .endOfInput)] else []).map some := by
  by_cases hmem : .endOfInput ∈ ts
  · obtain ⟨n, hlen, hlast⟩ := exists_of_mem_endOfInput he hmem
    have hpass : ∀ m < n, ∀ q, Ledger ts m q → Passes ts m q := by
      intro m hm q hq
      obtain ⟨t, ht, hne⟩ := exists_ne_endOfInput he (by omega : m + 1 < ts.length)
      exact passes_of_nested hf hn ht hne hq
    obtain ⟨q, order, ha⟩ := exists_account hpass
    have htake : ts.take n ++ [.endOfInput] = ts := by
      rw [← take_succ_of_getElem? hlast, ← hlen, List.take_length]
    have hbal : openings (ts.take n) = closings (ts.take n) := by
      have := (hb hmem).2
      rw [← htake] at this
      simpa [Token.isOpening, Token.isClosing] using this
    obtain ⟨hacc, hdesc, hplaces⟩ := ha.finish hlast hbal
    refine ⟨order ++ (q.map Prod.fst).map (·, n), ?_, ?_, ?_⟩
    · intro i r
      rw [mem_append_iff ha.mem hplaces, ← hlen]
      exact ⟨And.left, fun h => ⟨h, h.lt_length.2⟩⟩
    · exact sorted_append ha.sorted (fun i r hir => ((ha.mem i r).1 hir).2) hdesc
    · have := ha.timed_succ hlast [.endOfInput] (by rw [hacc])
        fun i hi => ((hplaces i).1 hi).lt_length.1
      rw [← hlen, List.take_length] at this
      rw [this, if_pos hmem]
      rfl
  · have hpass : ∀ m < ts.length, ∀ q, Ledger ts m q → Passes ts m q := by
      intro m hm q hq
      exact passes_of_nested hf hn (List.getElem?_eq_getElem hm)
        (fun h => hmem (h ▸ List.getElem_mem hm)) hq
    obtain ⟨q, order, ha⟩ := exists_account hpass
    refine ⟨order, ?_, ha.sorted, ?_⟩
    · intro i r
      rw [ha.mem]
      exact ⟨And.left, fun h => ⟨h, h.lt_length.2⟩⟩
    · have := ha.timed
      rw [List.take_length] at this
      rw [this, if_neg hmem, List.map_nil, List.append_nil]

theorem nodup_places (hm : ∀ i r, (i, r) ∈ order ↔ ReleasedAt ts i r)
    (hs : order.Pairwise Before) : (order.map Prod.fst).Nodup := by
  refine List.pairwise_map.2 (hs.imp_of_mem ?_)
  intro x y hx hy hxy heq
  have hr := ((hm x.1 x.2).1 hx).unique (heq ▸ (hm y.1 y.2).1 hy)
  rcases hxy with hlt | ⟨_, hlt⟩ <;> omega

/-- The tokens of a schedule, without their times. -/
theorem released_of_timed {rest : List (Nat × Token)}
    (h : (({} : Yard).timed 0 ts).map some = order.map (timedAt ts) ++ rest.map some) :
    ({} : Yard).released ts = tokensAt ts (order.map Prod.fst) ++ rest.map Prod.snd := by
  have := congrArg (fun l => (l.filterMap id).map Prod.snd) h
  simpa [Yard.map_snd_timed, List.filterMap_map, List.map_filterMap, tokensAt, timedAt,
    Function.comp_def] using this

/-- A shunting yard without its stack. The places that are released, each once, come out by the
place that releases them, the last to arrive first, and each as soon as that place is pulled. -/
theorem yields_of_nested (hf : ∀ t ∈ ts, t.isFault = false)
    (he : ∀ t ∈ ts.dropLast, t ≠ .endOfInput) (hn : Nested ts)
    (hb : .endOfInput ∈ ts → Balanced ts) :
    ∃ order : List (Nat × Nat), (∀ i r, (i, r) ∈ order ↔ ReleasedAt ts i r) ∧
      (order.map Prod.fst).Nodup ∧ order.Pairwise Before ∧
      (Rpn.ofStream ts).Yields (tokensAt ts (order.map Prod.fst) ++
        if .endOfInput ∈ ts then [.endOfInput] else []) ∧
      ∀ k i r, order[k]? = some (i, r) →
        ((Rpn.ofStream ts).afterPulls k).next.1 = ts[i]? ∧
        ((Rpn.ofStream ts).afterPulls (k + 1)).pulled ts = r + 1 := by
  obtain ⟨order, hm, hs, ht⟩ := exists_schedule hf he hn hb
  refine ⟨order, hm, nodup_places hm hs, hs, ?_, ?_⟩
  · have hy := Rpn.yields_toRpn ts
    rw [toRpn_eq, toList_list, released_of_timed ht] at hy
    by_cases hmem : .endOfInput ∈ ts
    · simpa [hmem] using hy
    · simpa [hmem] using hy
  · intro k i r hk
    have hlt := ((hm i r).1 (List.mem_of_getElem? hk)).lt_length.1
    have hx : (({} : Yard).timed 0 ts)[k]? = some (r + 1, ts[i]) := by
      have hlen : k < (order.map (timedAt ts)).length := by
        rw [List.length_map]
        exact (List.getElem?_eq_some_iff.1 hk).1
      have hget := congrArg (·[k]?) ht
      simp only [List.getElem?_append_left hlen, List.getElem?_map, hk, Option.map_some,
        timedAt, List.getElem?_eq_getElem hlt] at hget
      simpa using hget
    refine ⟨?_, Rpn.pulled_afterPulls hx⟩
    rw [Rpn.next_afterPulls, hx, List.getElem?_eq_getElem hlt]
    rfl

/-- An operator inside parentheses need not have operands there. -/
theorem yields_of_nested_dangling :
    let source := Source.ofText "<input>" "7-(2+)3*"
    let ts : List Token :=
      [.number ⟨⟨source, 0, 1⟩, 7⟩, .operator ⟨⟨source, 1, 2⟩, .minus⟩,
        .parenthesis ⟨⟨source, 2, 3⟩, true⟩, .number ⟨⟨source, 3, 4⟩, 2⟩,
        .operator ⟨⟨source, 4, 5⟩, .plus⟩, .parenthesis ⟨⟨source, 5, 6⟩, false⟩,
        .number ⟨⟨source, 6, 7⟩, 3⟩, .operator ⟨⟨source, 7, 8⟩, .multiply⟩, .endOfInput]
    ∃ order : List (Nat × Nat), (∀ i r, (i, r) ∈ order ↔ ReleasedAt ts i r) ∧
      (order.map Prod.fst).Nodup ∧ order.Pairwise Before ∧
      (Rpn.ofStream ts).Yields (tokensAt ts (order.map Prod.fst) ++ [.endOfInput]) ∧
      ∀ k i r, order[k]? = some (i, r) →
        ((Rpn.ofStream ts).afterPulls k).next.1 = ts[i]? ∧
        ((Rpn.ofStream ts).afterPulls (k + 1)).pulled ts = r + 1 := by
  intro source ts
  have hf : ∀ t ∈ ts, t.isFault = false := by
    intro t ht
    simp only [ts, List.mem_cons, List.not_mem_nil, or_false] at ht
    rcases ht with rfl | rfl | rfl | rfl | rfl | rfl | rfl | rfl | rfl <;> rfl
  have hmem : .endOfInput ∈ ts := by simp [ts]
  have h := yields_of_nested hf (by simp [ts]) (by decide) (fun _ => by decide)
  rw [if_pos hmem] at h
  exact h

end Reckon
