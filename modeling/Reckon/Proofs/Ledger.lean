import Reckon.Proofs.Release

/-! One token in a yard: what it releases, by places, and how the ledger of the stack goes on. -/

namespace Reckon

/-- The token at place `n` reaches the upper entries of a stack and none of the lower ones. -/
structure Splits (ts : List Token) (n : Nat) (above below : List (Nat × Pending)) : Prop where
  reached : ∀ x ∈ above, Reaches ts x.1 n
  kept : ∀ x ∈ below, ¬ Reaches ts x.1 n

/-- The tokens at the given places. -/
def tokensAt (ts : List Token) (places : List Nat) : List Token := places.filterMap (ts[·]?)

variable {ts : List Token} {n i : Nat} {t : Token} {e : Pending} {x : Nat × Pending}
  {q q' above below : List (Nat × Pending)} {os : List Operator}

theorem releasedAt_number_iff {m : Number} (ht : ts[n]? = some (.number m)) :
    ReleasedAt ts i n ↔ i = n := by
  constructor
  · rintro (⟨_, _, rfl⟩ | ⟨hr, _⟩)
    · rfl
    · obtain ⟨o, t, _, hn, hrel⟩ := hr.releases
      rw [ht] at hn
      cases hn
      cases hrel
  · rintro rfl
    exact Or.inl ⟨m, ht, rfl⟩

theorem exists_operator_of_mem (h : above.map Prod.snd = os.map .operator) (hx : x ∈ above) :
    ∃ o ∈ os, x.2 = .operator o := by
  have hm : x.2 ∈ above.map Prod.snd := List.mem_map_of_mem hx
  rw [h] at hm
  obtain ⟨o, ho, he⟩ := List.mem_map.1 hm
  exact ⟨o, ho, he.symm⟩

theorem countP_above (ha : ∀ x ∈ above, ∃ o, x.2 = .operator o) :
    (above.map Prod.snd).countP Pending.isOpening = 0 := by
  rw [List.countP_eq_zero]
  intro y hy
  obtain ⟨x, hx, rfl⟩ := List.mem_map.1 hy
  obtain ⟨o, ho⟩ := ha x hx
  simp [ho, Pending.isOpening]

theorem tokensAt_above (he : ∀ x ∈ above, ts[x.1]?.bind Token.pending? = some x.2)
    (h : above.map Prod.snd = os.map .operator) :
    tokensAt ts (above.map Prod.fst) = os.map .operator := by
  induction above generalizing os with
  | nil =>
    cases os with
    | nil => rfl
    | cons o os => cases h
  | cons x above ih =>
    cases os with
    | nil => cases h
    | cons o os =>
      obtain ⟨ho, hos⟩ := List.cons.inj h
      have ht := pending?_eq_operator_iff.1 (ho ▸ he x List.mem_cons_self)
      have := ih (fun y hy => he y (List.mem_cons_of_mem _ hy)) hos
      simpa [tokensAt, ht] using this

namespace Ledger

theorem splits (h : Ledger ts n (above ++ below)) (ht : ts[n]? = some t)
    (ha : ∀ x ∈ above, ∃ o, x.2 = .operator o ∧ t.releases o = true)
    (hb : ∀ x ∈ below, ∀ o, x.2 = .operator o → t.releases o = false ∨
      ∃ y ∈ below, x.1 < y.1 ∧ y.2.isOpening = true) : Splits ts n above below where
  reached x hx := by
    obtain ⟨o, ho, hr⟩ := ha x hx
    have hmem := List.mem_append_left below hx
    refine ⟨h.lt hmem, ?_, o, t, pending?_eq_operator_iff.1 (ho ▸ h.entry x hmem), ht, hr⟩
    exact h.sealed_of_above (fun y hy => (ha y hy).imp fun _ hy => hy.1) hx
  kept x hx hr := by
    have hmem := List.mem_append_right above hx
    obtain ⟨o, u, ho, hu, hrel⟩ := hr.releases
    have he := (h.entry x hmem).symm.trans (pending?_eq_operator_iff.2 ho)
    rw [ht] at hu
    cases hu
    rcases hb x hx o (Option.some.inj he) with hno | ⟨y, hy, hxy, hopen⟩
    · rw [hrel] at hno
      cases hno
    · exact h.not_sealed (List.mem_append_right above hy) hopen hxy hr.clear

/-- What a token other than a number releases. -/
theorem releasedAt_iff (h : Ledger ts n (above ++ below)) (hs : Splits ts n above below)
    (hn : ∀ m, ts[n]? ≠ some (.number m)) : ReleasedAt ts i n ↔ i ∈ above.map Prod.fst := by
  constructor
  · rintro (⟨m, hm, rfl⟩ | ⟨hr, hfirst⟩)
    · exact (hn m hm).elim
    · obtain ⟨o, _, ho, _⟩ := hr.releases
      have hp := pending?_eq_operator_iff.2 ho
      rcases h.settled i hr.lt _ hp with hq | ⟨j, hj, hrj⟩ | ⟨b, _, hc⟩
      · rcases List.mem_append.1 hq with hq | hq
        · exact List.mem_map_of_mem hq
        · exact (hs.kept _ hq hr).elim
      · exact (hfirst j hj hrj).elim
      · have := hc.opening
        rw [ho] at this
        cases this
  · intro hi
    obtain ⟨x, hx, rfl⟩ := List.mem_map.1 hi
    exact Or.inr ⟨hs.reached x hx, h.waiting x (List.mem_append_left below hx)⟩

theorem pairwise_above (h : Ledger ts n (above ++ below)) :
    (above.map Prod.fst).Pairwise (· > ·) := by
  have hp := (List.pairwise_cons.1 h.pairwise).2
  rw [List.map_append] at hp
  exact (List.pairwise_append.1 hp).1

theorem succ (h : Ledger ts n (above ++ below)) (hs : Splits ts n above below)
    (hentry : ∀ x ∈ q', x ∈ below ∨ x.1 = n ∧ ts[n]?.bind Token.pending? = some x.2)
    (hgone : ∀ x ∈ below, x ∈ q' ∨ Closes ts x.1 n)
    (hnew : ∀ e, ts[n]?.bind Token.pending? = some e → (n, e) ∈ q')
    (hlinked : ((n + 1) :: q'.map Prod.fst).IsChain (Linked ts))
    (htight : (q'.map Prod.snd).IsChain Tight)
    (hcount : openings (ts.take (n + 1)) =
      closings (ts.take (n + 1)) + (q'.map Prod.snd).countP Pending.isOpening) :
    Ledger ts (n + 1) q' where
  entry x hx := by
    rcases hentry x hx with hb | ⟨hn, he⟩
    · exact h.entry x (List.mem_append_right above hb)
    · rw [hn, he]
  linked := hlinked
  tight := htight
  waiting x hx j hj hr := by
    rcases hentry x hx with hb | ⟨hn, _⟩
    · rcases Nat.lt_succ_iff_lt_or_eq.1 hj with hj | rfl
      · exact h.waiting x (List.mem_append_right above hb) j hj hr
      · exact hs.kept x hb hr
    · have := hr.lt
      omega
  settled i hi e he := by
    rcases Nat.lt_succ_iff_lt_or_eq.1 hi with hi | rfl
    · rcases h.settled i hi e he with hq | ⟨j, hj, hr⟩ | ⟨b, hb, hc⟩
      · rcases List.mem_append.1 hq with hq | hq
        · exact Or.inr (Or.inl ⟨n, Nat.lt_succ_self n, hs.reached _ hq⟩)
        · rcases hgone _ hq with hq | hc
          · exact Or.inl hq
          · exact Or.inr (Or.inr ⟨n, Nat.lt_succ_self n, hc⟩)
      · exact Or.inr (Or.inl ⟨j, Nat.lt_succ_of_lt hj, hr⟩)
      · exact Or.inr (Or.inr ⟨b, Nat.lt_succ_of_lt hb, hc⟩)
    · exact Or.inl (hnew e he)
  count := hcount

/-- A token that neither stays on the stack nor closes anything. -/
theorem pass (h : Ledger ts n q) (hs : Splits ts n [] q) (ht : ts[n]? = some t)
    (hp : t.pending? = none) (hc : t.isClosing = false) (ho : t.isOpening = false) :
    Ledger ts (n + 1) q := by
  refine h.succ hs (fun x hx => Or.inl hx) (fun x hx => Or.inl hx) ?_ ?_ h.tight ?_
  · intro e he
    rw [ht, Option.bind_some, hp] at he
    cases he
  · refine h.linked.imp_head fun hz => ⟨Nat.lt_succ_of_lt hz.1, ?_⟩
    rw [between_succ hz.1 ht]
    exact hz.2.append (balanced_singleton ho hc)
  · have := h.count
    simp [take_succ_of_getElem? ht, ho, hc, this]

/-- A token that stays on the stack. -/
theorem push (h : Ledger ts n (above ++ below)) (hs : Splits ts n above below)
    (ha : ∀ x ∈ above, ∃ o, x.2 = .operator o) (ht : ts[n]? = some t)
    (hp : t.pending? = some e) (htight : ∀ y ∈ (below.map Prod.snd).head?, Tight e y) :
    Ledger ts (n + 1) ((n, e) :: below) := by
  have he : ts[n]?.bind Token.pending? = some e := by rw [ht]; exact hp
  refine h.succ hs ?_ (fun x hx => Or.inl (List.mem_cons_of_mem _ hx)) ?_ ?_ ?_ ?_
  · intro x hx
    rcases List.mem_cons.1 hx with rfl | hx
    · exact Or.inr ⟨rfl, he⟩
    · exact Or.inl hx
  · intro e' he'
    rw [Option.some.inj (he.symm.trans he')]
    exact List.mem_cons_self
  · refine List.isChain_cons_cons.2 ⟨⟨Nat.lt_succ_self n, ?_⟩, h.linked_below ha⟩
    rw [between_self]
    exact balanced_nil
  · have hc := h.tight
    rw [List.map_append] at hc
    exact hc.right_of_append.cons htight
  · obtain ⟨u, hu, hclose, hopen⟩ := exists_of_pending? he
    rw [ht] at hu
    cases hu
    have := h.count
    rw [List.map_append, List.countP_append, countP_above ha] at this
    simp [take_succ_of_getElem? ht, hclose, hopen, this, List.countP_cons]
    omega

/-- A closing parenthesis takes the innermost opening one with it. -/
theorem close (h : Ledger ts n (above ++ x :: below)) (hs : Splits ts n above (x :: below))
    (ha : ∀ x ∈ above, ∃ o, x.2 = .operator o) (hx : x.2.isOpening = true)
    (ht : ts[n]? = some t) (hc : t.isClosing = true) : Ledger ts (n + 1) below := by
  have hlinked := h.linked_below ha
  obtain ⟨hxn, hbelow⟩ := List.isChain_cons_cons.1 hlinked
  have hmem : x ∈ above ++ x :: below := List.mem_append_right above List.mem_cons_self
  obtain ⟨u, hu, huc, huo⟩ := exists_of_pending? (h.entry x hmem)
  have ho := Token.isOpening_of_isClosing hc
  refine h.succ hs (fun y hy => Or.inl (List.mem_cons_of_mem _ hy)) ?_ ?_ ?_ ?_ ?_
  · intro y hy
    rcases List.mem_cons.1 hy with rfl | hy
    · exact Or.inr ⟨hxn.1, by simp [hu, huo, hx], by simp [ht, hc], hxn.2⟩
    · exact Or.inl hy
  · intro e he
    obtain ⟨v, hv, hvc, _⟩ := exists_of_pending? he
    rw [ht] at hv
    cases hv
    rw [hc] at hvc
    cases hvc
  · refine hbelow.imp_head fun {z} hz => ⟨Nat.lt_trans hz.1 (Nat.lt_succ_of_lt hxn.1), ?_⟩
    rw [between_succ (Nat.lt_trans hz.1 hxn.1) ht, between_append hz.1 hxn.1 hu, List.append_assoc]
    exact hz.2.append (hxn.2.group (huo.trans hx) hc)
  · have hc := h.tight
    rw [List.map_append] at hc
    exact hc.right_of_append.tail
  · have := h.count
    rw [List.map_append, List.countP_append, countP_above ha] at this
    simp [take_succ_of_getElem? ht, hc, ho, this, hx]
    omega

/-- Every operator that stays binds looser than the one that stopped at the top, unless an opening
parenthesis shields it. -/
theorem precedence_lt {level : Int} (h : Ledger ts n (above ++ below))
    (hhead : ∀ o rest, below.map Prod.snd = .operator o :: rest → o.precedence < level)
    (hx : x ∈ below) {o : Operator} (ho : x.2 = .operator o) :
    o.precedence < level ∨ ∃ y ∈ below, x.1 < y.1 ∧ y.2.isOpening = true := by
  have htight := h.tight
  have hpw := (List.pairwise_cons.1 h.pairwise).2
  rw [List.map_append] at htight hpw
  replace htight := htight.right_of_append
  replace hpw := (List.pairwise_append.1 hpw).2.1
  clear h
  induction below with
  | nil => cases hx
  | cons y below ih =>
    obtain ⟨hlt, hpw⟩ := List.pairwise_cons.1 hpw
    rcases List.mem_cons.1 hx with rfl | hx
    · exact Or.inl (hhead o (below.map Prod.snd) (by rw [List.map_cons, ho]))
    · cases hy : y.2 with
      | opening p =>
        refine Or.inr ⟨y, List.mem_cons_self, hlt x.1 (List.mem_map_of_mem hx), ?_⟩
        rw [hy]
        rfl
      | operator o' =>
        have ho' := hhead o' (below.map Prod.snd) (by rw [List.map_cons, hy])
        have hhead' : ∀ o rest, below.map Prod.snd = .operator o :: rest →
            o.precedence < level := by
          intro o'' rest hrest
          rw [List.map_cons, hrest, hy] at htight
          exact Int.lt_trans ((List.isChain_cons_cons.1 htight).1 o' o'' rfl rfl) ho'
        rcases ih hhead' hx htight.tail hpw with hl | ⟨z, hz, hxz, hopen⟩
        · exact Or.inl hl
        · exact Or.inr ⟨z, List.mem_cons_of_mem _ hz, hxz, hopen⟩

/-- The entries above the innermost opening parenthesis, or all of them, are what a closing
parenthesis or the end of input reaches. -/
theorem splits_of_closer (h : Ledger ts n (above ++ below)) (ht : ts[n]? = some t)
    (hr : ∀ o, t.releases o = true) (ha : ∀ x ∈ above, ∃ o, x.2 = .operator o)
    (hb : ∀ x ∈ below.head?, x.2.isOpening = true) : Splits ts n above below := by
  refine h.splits ht (fun x hx => (ha x hx).imp fun o ho => ⟨ho, hr o⟩) ?_
  intro x hx o ho
  cases below with
  | nil => cases hx
  | cons y below =>
    have hy := hb y rfl
    rcases List.mem_cons.1 hx with rfl | hx
    · rw [ho] at hy
      cases hy
    · have hpw := (List.pairwise_cons.1 h.pairwise).2
      rw [List.map_append] at hpw
      have hlt := List.rel_of_pairwise_cons (List.pairwise_append.1 hpw).2.1
        (List.mem_map_of_mem hx)
      exact Or.inr ⟨y, List.mem_cons_self, hlt, hy⟩

/-- What lies above the innermost opening parenthesis, or the whole stack, and its tokens. -/
theorem exists_releaseToOpening (h : Ledger ts n q) :
    ((∀ x ∈ q, ∃ o, x.2 = .operator o) ∧
      Yard.releaseToOpening (q.map Prod.snd) = (tokensAt ts (q.map Prod.fst), none)) ∨
    ∃ above a p below, q = above ++ (a, .opening p) :: below ∧
      (∀ x ∈ above, ∃ o, x.2 = .operator o) ∧
      Yard.releaseToOpening (q.map Prod.snd) =
        (tokensAt ts (above.map Prod.fst), some (p, below.map Prod.snd)) := by
  obtain ⟨os, ⟨hq, hr⟩ | ⟨p, rest, hq, hr⟩⟩ := Yard.exists_releaseToOpening (q.map Prod.snd)
  · refine Or.inl ⟨fun x hx => (exists_operator_of_mem hq hx).imp fun _ ho => ho.2, ?_⟩
    rw [tokensAt_above h.entry hq, hr]
  · obtain ⟨above, below', rfl, ha, hb⟩ := List.map_eq_append_iff.1 hq
    obtain ⟨⟨a, _⟩, below, rfl, rfl, rfl⟩ := List.map_eq_cons_iff.1 hb
    refine Or.inr ⟨above, a, p, below, rfl, ?_, ?_⟩
    · exact fun x hx => (exists_operator_of_mem ha hx).imp fun _ ho => ho.2
    · rw [tokensAt_above (fun x hx => h.entry x (List.mem_append_left _ hx)) ha, hr]

/-- A yard with the entries of `q` takes the token at place `n`: it releases the places that are
released there, the latest first, and the ledger goes on. -/
def Takes (ts : List Token) (n : Nat) (q : List (Nat × Pending)) (t : Token) : Prop :=
  ∃ places q', Yard.accept ⟨q.map Prod.snd, true⟩ t =
      (tokensAt ts places, ⟨q'.map Prod.snd, true⟩) ∧
    places.Pairwise (· > ·) ∧ (∀ i, i ∈ places ↔ ReleasedAt ts i n) ∧ Ledger ts (n + 1) q'

theorem takes_number (h : Ledger ts n q) {m : Number} (ht : ts[n]? = some (.number m)) :
    Takes ts n q (.number m) := by
  have hs : Splits ts n [] q :=
    h.splits ht (fun x hx => by cases hx) (fun x _ o _ => Or.inl rfl)
  refine ⟨[n], q, by simp [Yard.accept, tokensAt, ht], by simp, ?_, h.pass hs ht rfl rfl rfl⟩
  intro i
  rw [releasedAt_number_iff ht, List.mem_singleton]

theorem takes_operator (h : Ledger ts n q) {o : Operator} (ht : ts[n]? = some (.operator o)) :
    Takes ts n q (.operator o) := by
  obtain ⟨os, rest, hq, hos, hrest, hr⟩ := Yard.exists_releaseFrom o.precedence (q.map Prod.snd)
  obtain ⟨above, below, rfl, ha, rfl⟩ := List.map_eq_append_iff.1 hq
  have hab : ∀ x ∈ above, ∃ o', x.2 = .operator o' ∧ o.precedence ≤ o'.precedence := by
    intro x hx
    obtain ⟨o', ho', hx⟩ := exists_operator_of_mem ha hx
    exact ⟨o', hx, hos o' ho'⟩
  have hs : Splits ts n above below := by
    refine h.splits ht ?_ ?_
    · intro x hx
      obtain ⟨o', hx, ho'⟩ := hab x hx
      exact ⟨o', hx, by simpa [Token.releases] using ho'⟩
    -- What stopped the release stops it for all below: they bind looser still, or are shielded.
    · intro x hx o' ho'
      rcases h.precedence_lt hrest hx ho' with hlt | hy
      · exact Or.inl (by simpa [Token.releases] using hlt)
      · exact Or.inr hy
  refine ⟨above.map Prod.fst, (n, .operator o) :: below, ?_, h.pairwise_above, ?_, ?_⟩
  · rw [tokensAt_above (fun x hx => h.entry x (List.mem_append_left _ hx)) ha]
    simp only [Yard.accept, hr]
    rfl
  · intro i
    exact (h.releasedAt_iff hs (by simp [ht])).symm
  · refine h.push hs (fun x hx => (hab x hx).imp fun _ hy => hy.1) ht rfl ?_
    rintro y hy _ o' ⟨⟩ rfl
    obtain ⟨rest, hrest'⟩ := List.head?_eq_some_iff.1 (Option.mem_def.1 hy)
    exact hrest o' rest hrest'

theorem takes_opening (h : Ledger ts n q) {p : Parenthesis} (ht : ts[n]? = some (.parenthesis p))
    (hp : p.isOpen = true) : Takes ts n q (.parenthesis p) := by
  have hs : Splits ts n [] q :=
    h.splits ht (fun x hx => by cases hx) (fun x _ o _ => Or.inl (by simp [Token.releases, hp]))
  refine ⟨[], (n, .opening p) :: q, by simp [Yard.accept, hp, tokensAt], by simp, ?_, ?_⟩
  · intro i
    exact (h.releasedAt_iff hs (by simp [ht])).symm
  · refine h.push hs (fun x hx => by cases hx) ht (by simp [Token.pending?, hp]) ?_
    rintro y _ o o' ⟨⟩

theorem takes_closing (h : Ledger ts n q) {p : Parenthesis} (ht : ts[n]? = some (.parenthesis p))
    (hp : p.isOpen = false) (hq : ∃ x ∈ q, x.2.isOpening = true) :
    Takes ts n q (.parenthesis p) := by
  obtain ⟨z, hz, hopen⟩ := hq
  rcases h.exists_releaseToOpening with ⟨hab, _⟩ | ⟨above, a, p', below, rfl, hab, hr⟩
  · obtain ⟨o, ho⟩ := hab z hz
    rw [ho] at hopen
    cases hopen
  · have hs : Splits ts n above ((a, .opening p') :: below) :=
      h.splits_of_closer ht (by simp [Token.releases, hp]) hab (by simp [Pending.isOpening])
    refine ⟨above.map Prod.fst, below, by simp only [Yard.accept, hp, hr]; rfl, h.pairwise_above,
      ?_, h.close hs hab rfl ht (by simp [Token.isClosing, hp])⟩
    intro i
    exact (h.releasedAt_iff hs (by simp [ht])).symm

/-- A token that is no fault, ends nothing and closes only what is open causes no fault. -/
theorem takes (h : Ledger ts n q) (ht : ts[n]? = some t) (hf : t.isFault = false)
    (he : t ≠ .endOfInput) (hc : t.isClosing = true → ∃ x ∈ q, x.2.isOpening = true) :
    Takes ts n q t := by
  cases t with
  | number m => exact h.takes_number ht
  | operator o => exact h.takes_operator ht
  | parenthesis p =>
    cases hp : p.isOpen with
    | true => exact h.takes_opening ht hp
    | false => exact h.takes_closing ht hp (hc (by simp [Token.isClosing, hp]))
  | fault f => cases hf
  | endOfInput => exact (he rfl).elim

end Ledger

end Reckon
