import Reckon.Proofs.Stream

/-! What the tokens of a text are, said without a machine, and the scanner finds just these. -/

namespace Reckon

open Text

/-- The characters from byte `i` of a source on, read as tokens: blanks separate, digits go together
as far as they reach, and nothing follows a fault. -/
inductive Lexes (source : Source) : Nat → List Char → List Token → Prop where
  | stop {i : Nat} : Lexes source i [] [.endOfInput]
  | blank {i : Nat} {c : Char} {cs : List Char} {ts : List Token} (hc : isBlank c) :
      Lexes source (i + c.utf8Size) cs ts → Lexes source i (c :: cs) ts
  | number {i : Nat} {ds cs : List Char} {v : Int32} {ts : List Token} (hne : ds ≠ [])
      (hds : ∀ d ∈ ds, d.isDigit) (hcs : ∀ c ∈ cs.head?, c.isDigit = false)
      (hv : v.toInt = digitsValue ds) :
      Lexes source (i + ds.length) cs ts →
      Lexes source i (ds ++ cs) (.number ⟨⟨source, i, i + ds.length⟩, v⟩ :: ts)
  | outOfRange {i : Nat} {ds cs : List Char} (hne : ds ≠ []) (hds : ∀ d ∈ ds, d.isDigit)
      (hcs : ∀ c ∈ cs.head?, c.isDigit = false) (hv : 2147483647 < digitsValue ds) :
      Lexes source i (ds ++ cs) [.fault (.outOfRange ⟨source, i, i + ds.length⟩)]
  | operator {i : Nat} {cs : List Char} {ts : List Token} (k : OperatorKind) :
      Lexes source (i + 1) cs ts →
      Lexes source i (k.char :: cs) (.operator ⟨⟨source, i, i + 1⟩, k⟩ :: ts)
  | opening {i : Nat} {cs : List Char} {ts : List Token} :
      Lexes source (i + 1) cs ts →
      Lexes source i ('(' :: cs) (.parenthesis ⟨⟨source, i, i + 1⟩, true⟩ :: ts)
  | closing {i : Nat} {cs : List Char} {ts : List Token} :
      Lexes source (i + 1) cs ts →
      Lexes source i (')' :: cs) (.parenthesis ⟨⟨source, i, i + 1⟩, false⟩ :: ts)
  | unexpected {i : Nat} {c : Char} {cs : List Char} (hb : isBlank c = false)
      (hd : c.isDigit = false) (hk : ∀ k : OperatorKind, c ≠ k.char) (ho : c ≠ '(') (hp : c ≠ ')') :
      Lexes source i (c :: cs) [.fault (.unexpectedChar ⟨source, i, i + c.utf8Size⟩ c)]

namespace OperatorKind

theorem utf8Size_char (k : OperatorKind) : k.char.utf8Size = 1 := by cases k <;> rfl

theorem isBlank_char (k : OperatorKind) : isBlank k.char = false := by cases k <;> rfl

theorem isDigit_char (k : OperatorKind) : k.char.isDigit = false := by cases k <;> rfl

end OperatorKind

theorem Text.utf8Size_of_isDigit {c : Char} (h : c.isDigit) : c.utf8Size = 1 := by
  simp only [Char.isDigit, Bool.and_eq_true, decide_eq_true_eq] at h
  have hc : c.val ≤ 0x7f := Nat.le_trans h.2 (by decide)
  simp [Char.utf8Size, hc]

theorem Text.byteLength_of_isDigit {ds : List Char} (h : ∀ d ∈ ds, d.isDigit) :
    byteLength ds = ds.length := by
  induction ds with
  | nil => rfl
  | cons d ds ih =>
    rw [byteLength_cons, utf8Size_of_isDigit (h d (by simp)),
      ih (fun x hx => h x (by simp [hx])), List.length_cons, Nat.add_comm]

namespace Scanner

open TokenStream

variable {s : Scanner} {t : Transition} {tok : Token} {i first stop : Nat} {c : Char}
  {cs ds : List Char}

theorem step_ok (h : s.state ≠ .ended) : ∃ r, s.step = .ok r := by
  fun_induction step s with
  | case1 s e he => exact (h (accept_eq_error_iff.1 he)).elim
  | case2 => exact ⟨_, rfl⟩
  | case3 s t ht _ _ hgo ih =>
    obtain ⟨r, hr⟩ := ih (fun he => hgo (Or.inr he))
    exact ⟨_, by rw [hr]; rfl⟩

/-- The machine ends only with a token. -/
theorem exists_token_of_ended {source : Source} {state : State} {input : Input}
    (h : state.accept source input = .ok t) (he : t.state = .ended) :
    ∃ tok, t.token = some tok := by
  cases accepts h with
  | blank | digit | more => cases he
  | _ => exact ⟨_, rfl⟩

/-- A step that is taken makes a token. -/
theorem exists_token_of_step {r : Step} (h : s.step = .ok r) : ∃ tok, r.token = some tok := by
  induction h using step_induction with
  | stop s t ht hstop =>
    rcases hstop with hstop | hstop
    · exact Option.isSome_iff_exists.1 hstop
    · exact exists_token_of_ended ht hstop
  | go _ _ _ _ _ _ ih => exact ih

/-- Only where it has ended, a scanner has no token to give. -/
theorem ended_of_next {s' : Scanner} (h : TokenStream.next s = (none, s')) :
    s' = s ∧ s.state = .ended := by
  by_cases hs : s.state = .ended
  · have hn : TokenStream.next s = (none, s) := by simp [TokenStream.next, Scanner.next, hs]
    cases hn.symm.trans h
    exact ⟨rfl, hs⟩
  · obtain ⟨r, hr⟩ := step_ok hs
    obtain ⟨tok, ht⟩ := exists_token_of_step hr
    simp [TokenStream.next, Scanner.next, hs, hr, ht] at h

instance : FusedTokenStream Scanner where
  next_of_none {s s'} h := by
    obtain ⟨rfl, _⟩ := ended_of_next h
    exact h

theorem toList_of_ended (h : s.state = .ended) : toList s = [] := by
  have hn : TokenStream.next s = (none, s) := by simp [TokenStream.next, Scanner.next, h]
  exact toList_of_none hn

theorem toList_of_token (hs : s.state ≠ .ended) (h : s.state.accept s.source s.read.1 = .ok t)
    (ht : t.token = some tok) : toList s = tok :: toList (s.move t) := by
  apply toList_of_some
  simp [TokenStream.next, Scanner.next, hs, step_of_stop h (Or.inl (by simp [ht])), ht]

theorem toList_of_go (hs : s.state ≠ .ended) (h : s.state.accept s.source s.read.1 = .ok t)
    (ht : t.token = none) (he : t.state ≠ .ended) : toList s = toList (s.move t) := by
  apply toList_congr
  have hm : (s.move t).state ≠ .ended := he
  obtain ⟨r, hr⟩ := step_ok hm
  simp [TokenStream.next, Scanner.next, hs, hm, step_of_go h (by simp [ht, he]), hr, Except.map]

/-- What the scanner has not used up are the characters `cs`, which start at byte `i`. -/
def Faces (s : Scanner) (i : Nat) (cs : List Char) : Prop :=
  (∃ pre, s.source.chars = pre ++ cs ∧ byteLength pre = i) ∧
    s.read = (match cs with | [] => (.endOfInput, i) | c :: _ => (.char i c, i + c.utf8Size))

theorem faces_of_position {pre : List Char} (hc : s.source.chars = pre ++ cs)
    (hp : s.position = byteLength pre) (hn : s.pending = none) : Faces s (byteLength pre) cs := by
  refine ⟨⟨pre, hc, rfl⟩, ?_⟩
  unfold read Source.charAt? charAt?
  rw [hn, hp, hc, dropBytes?_append]
  cases cs <;> rfl

theorem faces_ofSource (source : Source) : Faces (ofSource source) 0 source.chars := by
  have hc : source.chars = [] ++ source.chars := rfl
  exact @faces_of_position (ofSource source) _ [] hc rfl rfl

theorem faces_consume (h : Faces s i (c :: cs)) (ht : t.isConsumed = true) :
    Faces (s.move t) (i + c.utf8Size) cs := by
  obtain ⟨⟨pre, hc, rfl⟩, hr⟩ := h
  have hc' : (s.move t).source.chars = (pre ++ [c]) ++ cs := by simp [move, hc]
  have := faces_of_position hc' (by simp [move, hr]) (by simp [move, ht])
  simpa using this

theorem faces_keep (h : Faces s i (c :: cs)) (ht : t.isConsumed = false) :
    Faces (s.move t) i (c :: cs) := by
  obtain ⟨hpre, hr⟩ := h
  have hp : (s.move t).pending = some (i, c) := by simp [move, ht, hr, Input.char?]
  refine ⟨hpre, ?_⟩
  unfold read
  rw [hp]
  simp [move, hr]

theorem faces_end (h : Faces s i []) (ht : t.isConsumed = true) : Faces (s.move t) i [] := by
  obtain ⟨⟨pre, hc, rfl⟩, hr⟩ := h
  exact faces_of_position hc (by simp [move, hr]) (by simp [move, ht])

theorem toList_digits (h : Faces s stop (ds ++ cs)) (hs : s.state = .inNumber first stop)
    (hd : ∀ d ∈ ds, d.isDigit) :
    ∃ s', Faces s' (stop + ds.length) cs ∧ s'.source = s.source ∧
      s'.state = .inNumber first (stop + ds.length) ∧ toList s = toList s' := by
  induction ds generalizing s stop with
  | nil => exact ⟨s, h, rfl, hs, rfl⟩
  | cons d ds ih =>
    have hd1 : d.isDigit := hd d (by simp)
    have hsize := utf8Size_of_isDigit hd1
    have ha : s.state.accept s.source s.read.1 =
        .ok (.consume (.inNumber first (stop + 1)) none) := by
      rw [h.2, hs]
      simp [State.accept, hd1, hsize]
    have hf := faces_consume h (t := .consume (.inNumber first (stop + 1)) none) rfl
    rw [hsize] at hf
    obtain ⟨s', hs', hsrc, hst, hl⟩ := ih hf rfl (fun x hx => hd x (by simp [hx]))
    have hlen : stop + (d :: ds).length = stop + 1 + ds.length := by simp; omega
    refine ⟨s', hlen ▸ hs', hsrc, hlen ▸ hst, ?_⟩
    rw [toList_of_go (by simp [hs]) ha rfl (by simp), hl]

theorem toList_finish {n : Number} (h : Faces s stop cs) (hs : s.state = .inNumber first stop)
    (hcs : ∀ c ∈ cs.head?, c.isDigit = false) (hn : number? ⟨s.source, first, stop⟩ = some n) :
    ∃ s', Faces s' stop cs ∧ s'.source = s.source ∧ s'.state = .start ∧
      toList s = .number n :: toList s' := by
  cases cs with
  | nil =>
    have ha : s.state.accept s.source s.read.1 = .ok (.consume .start (some (.number n))) := by
      rw [h.2, hs]
      simp [State.accept, finishNumber, hn]
    exact ⟨_, faces_end h rfl, rfl, rfl, toList_of_token (by simp [hs]) ha rfl⟩
  | cons c cs =>
    have ha : s.state.accept s.source s.read.1 = .ok (.keep .start (.number n)) := by
      rw [h.2, hs]
      simp [State.accept, finishNumber, hn, hcs c (by simp)]
    exact ⟨_, faces_keep h rfl, rfl, rfl, toList_of_token (by simp [hs]) ha rfl⟩

theorem toList_finish_none (h : Faces s stop cs) (hs : s.state = .inNumber first stop)
    (hcs : ∀ c ∈ cs.head?, c.isDigit = false) (hn : number? ⟨s.source, first, stop⟩ = none) :
    toList s = [.fault (.outOfRange ⟨s.source, first, stop⟩)] := by
  have ha : s.state.accept s.source s.read.1 =
      .ok (.consume .ended (some (.fault (.outOfRange ⟨s.source, first, stop⟩)))) := by
    rw [h.2, hs]
    cases cs with
    | nil => simp [State.accept, finishNumber, hn]
    | cons c cs => simp [State.accept, finishNumber, hn, hcs c (by simp)]
  rw [toList_of_token (by simp [hs]) ha rfl, toList_of_ended rfl]

/-- The digits that a number is read from are those under its span. -/
theorem number?_eq (h : Faces s i (ds ++ cs)) (hne : ds ≠ []) (hd : ∀ d ∈ ds, d.isDigit) :
    number? ⟨s.source, i, i + ds.length⟩ =
      (narrow? (digitsValue ds)).map (⟨⟨s.source, i, i + ds.length⟩, ·⟩) := by
  obtain ⟨⟨pre, hc, rfl⟩, -⟩ := h
  have hall : ds.all Char.isDigit := by simpa using hd
  have hslice : slice? s.source.chars (byteLength pre) (byteLength pre + ds.length) = some ds := by
    rw [← byteLength_of_isDigit hd, hc]
    simp [slice?]
  have hread : readNatural? ds = some (digitsValue ds) := if_pos ⟨hne, hall⟩
  simp only [number?, Span.text?, hslice, Option.map_some, Option.bind_eq_bind, Option.bind_some,
    String.toList_ofList, readWord?_eq hall, hread]
  cases narrow? (digitsValue ds) <;> rfl

theorem toList_number (h : Faces s i (ds ++ cs)) (hs : s.state = .start) (hne : ds ≠ [])
    (hd : ∀ d ∈ ds, d.isDigit) :
    ∃ s', Faces s' (i + ds.length) cs ∧ s'.source = s.source ∧
      s'.state = .inNumber i (i + ds.length) ∧ toList s = toList s' := by
  cases ds with
  | nil => exact (hne rfl).elim
  | cons d ds =>
    have hd1 : d.isDigit := hd d (by simp)
    have hsize := utf8Size_of_isDigit hd1
    have ha : s.state.accept s.source s.read.1 = .ok (.consume (.inNumber i (i + 1)) none) := by
      rw [h.2, hs]
      simp [State.accept, hd1, hsize, isBlank_eq_false_of_isDigit hd1]
    have hf := faces_consume h (t := .consume (.inNumber i (i + 1)) none) rfl
    rw [hsize] at hf
    obtain ⟨s', hs', hsrc, hst, hl⟩ := toList_digits hf rfl (fun x hx => hd x (by simp [hx]))
    have hlen : i + (d :: ds).length = i + 1 + ds.length := by simp; omega
    refine ⟨s', hlen ▸ hs', hsrc, hlen ▸ hst, ?_⟩
    rw [toList_of_go (by simp [hs]) ha rfl (by simp), hl]

/-- A character that is a token on its own is used up at once. -/
theorem toList_sign (h : Faces s i (c :: cs)) (hs : s.state = .start) (hb : isBlank c = false)
    (hd : c.isDigit = false) (hc : c.utf8Size = 1)
    (ht : Token.ofChar? ⟨s.source, i, i + 1⟩ c = some tok) :
    ∃ s', Faces s' (i + 1) cs ∧ s'.source = s.source ∧ s'.state = .start ∧
      toList s = tok :: toList s' := by
  have ha : s.state.accept s.source s.read.1 = .ok (.consume .start (some tok)) := by
    rw [h.2, hs]
    simp [State.accept, hb, hd, Span.ofChar, hc, ht]
  have hf := faces_consume h (t := .consume .start (some tok)) rfl
  rw [hc] at hf
  exact ⟨_, hf, rfl, rfl, toList_of_token (by simp [hs]) ha rfl⟩

theorem toList_of_lexes {source : Source} {ts : List Token} (h : Lexes source i cs ts)
    (hsrc : s.source = source) (hs : s.state = .start) (hf : Faces s i cs) : toList s = ts := by
  induction h generalizing s with
  | stop =>
    have ha : s.state.accept s.source s.read.1 = .ok (.consume .ended (some .endOfInput)) := by
      rw [hf.2, hs]
      rfl
    rw [toList_of_token (by simp [hs]) ha rfl, toList_of_ended rfl]
  | blank hc _ ih =>
    have ha : s.state.accept s.source s.read.1 = .ok (.consume .start none) := by
      rw [hf.2, hs]
      simp [State.accept, hc]
    rw [toList_of_go (by simp [hs]) ha rfl (by simp)]
    exact ih hsrc rfl (faces_consume hf rfl)
  | number hne hds hcs hv _ ih =>
    obtain ⟨s₁, hf₁, hsrc₁, hs₁, hl₁⟩ := toList_number hf hs hne hds
    have hn := number?_eq hf hne hds
    rw [narrow?_eq_some_iff.2 hv, ← hsrc₁] at hn
    obtain ⟨s₂, hf₂, hsrc₂, hs₂, hl₂⟩ := toList_finish hf₁ hs₁ hcs hn
    rw [hl₁, hl₂, ih (hsrc₂.trans (hsrc₁.trans hsrc)) hs₂ hf₂, hsrc₁, hsrc]
  | outOfRange hne hds hcs hv =>
    obtain ⟨s₁, hf₁, hsrc₁, hs₁, hl₁⟩ := toList_number hf hs hne hds
    have hn := number?_eq hf hne hds
    rw [narrow?_eq_none_iff.2 (Or.inr (by omega)), ← hsrc₁] at hn
    rw [hl₁, toList_finish_none hf₁ hs₁ hcs hn, hsrc₁, hsrc]
  | @operator i cs ts k _ ih =>
    have ht : Token.ofChar? ⟨s.source, i, i + 1⟩ k.char =
        some (.operator ⟨⟨s.source, i, i + 1⟩, k⟩) := by
      cases k <;> rfl
    obtain ⟨s', hf', hsrc', hs', hl⟩ :=
      toList_sign hf hs k.isBlank_char k.isDigit_char k.utf8Size_char ht
    rw [hl, ih (hsrc'.trans hsrc) hs' hf', hsrc]
  | opening _ ih =>
    obtain ⟨s', hf', hsrc', hs', hl⟩ := toList_sign hf hs rfl rfl rfl rfl
    rw [hl, ih (hsrc'.trans hsrc) hs' hf', hsrc]
  | closing _ ih =>
    obtain ⟨s', hf', hsrc', hs', hl⟩ := toList_sign hf hs rfl rfl rfl rfl
    rw [hl, ih (hsrc'.trans hsrc) hs' hf', hsrc]
  | @unexpected i c cs hb hd hk ho hp =>
    have hnone : OperatorKind.ofChar? c = none := by
      rw [OperatorKind.ofChar?, List.find?_eq_none]
      intro k _
      simpa using (hk k).symm
    have ha : s.state.accept s.source s.read.1 = .ok (.consume .ended
        (some (.fault (.unexpectedChar ⟨s.source, i, i + c.utf8Size⟩ c)))) := by
      rw [hf.2, hs]
      simp [State.accept, hb, hd, Token.ofChar?, ho, hp, hnone, Span.ofChar]
    rw [toList_of_token (by simp [hs]) ha rfl, toList_of_ended rfl, hsrc]

end Scanner

theorem lexes_nil {source : Source} {i : Nat} {ts : List Token} (h : Lexes source i [] ts) :
    ts = [.endOfInput] := by
  generalize hcs : ([] : List Char) = cs at h
  cases h with
  | stop => rfl
  | number hne | outOfRange hne => exact (hne (List.append_eq_nil_iff.1 hcs.symm).1).elim
  | blank | operator | opening | closing | unexpected => cases hcs

theorem exists_lexes_number {source : Source} {i : Nat} {c : Char} {cs : List Char}
    (hc : c.isDigit = true)
    (ih : ∀ n < (c :: cs).length, ∀ (i : Nat) (ds : List Char), ds.length = n →
      ∃ ts, Lexes source i ds ts) :
    ∃ ts, Lexes source i (c :: cs) ts := by
  have hds : ∀ d ∈ (c :: cs).takeWhile Char.isDigit, d.isDigit :=
    List.all_eq_true.1 List.all_takeWhile
  have hne : (c :: cs).takeWhile Char.isDigit ≠ [] := by simp [hc]
  have hcs : ∀ d ∈ ((c :: cs).dropWhile Char.isDigit).head?, d.isDigit = false := by
    intro d hd
    have := List.head?_dropWhile_not Char.isDigit (c :: cs)
    rw [Option.mem_def.1 hd] at this
    simpa using this
  have hlt : ((c :: cs).dropWhile Char.isDigit).length < (c :: cs).length := by
    rw [List.dropWhile_cons_of_pos hc]
    exact Nat.lt_succ_of_le (List.dropWhile_suffix _).length_le
  have hsplit := @List.takeWhile_append_dropWhile _ Char.isDigit (c :: cs)
  rw [← hsplit]
  cases hv : narrow? (digitsValue ((c :: cs).takeWhile Char.isDigit)) with
  | none =>
    rcases narrow?_eq_none_iff.1 hv with hv | hv
    · omega
    · exact ⟨_, .outOfRange hne hds hcs (by omega)⟩
  | some v =>
    obtain ⟨ts, h⟩ := ih _ hlt _ _ rfl
    exact ⟨_, .number hne hds hcs (narrow?_eq_some_iff.1 hv) h⟩

/-- Every text can be read. -/
theorem exists_lexes (source : Source) (i : Nat) (cs : List Char) :
    ∃ ts, Lexes source i cs ts := by
  induction hn : cs.length using Nat.strongRecOn generalizing i cs with
  | _ n ih =>
    subst hn
    cases cs with
    | nil => exact ⟨_, .stop⟩
    | cons c cs =>
      have hlt : cs.length < (c :: cs).length := Nat.lt_succ_self _
      by_cases hb : isBlank c = true
      · obtain ⟨ts, h⟩ := ih _ hlt (i + c.utf8Size) cs rfl
        exact ⟨ts, .blank hb h⟩
      by_cases hd : c.isDigit = true
      · exact exists_lexes_number hd ih
      by_cases hk : ∃ k : OperatorKind, c = k.char
      · obtain ⟨k, rfl⟩ := hk
        obtain ⟨ts, h⟩ := ih _ hlt (i + 1) cs rfl
        exact ⟨_, .operator k h⟩
      obtain ⟨ts, h⟩ := ih _ hlt (i + 1) cs rfl
      by_cases ho : c = '('
      · subst ho
        exact ⟨_, .opening h⟩
      by_cases hp : c = ')'
      · subst hp
        exact ⟨_, .closing h⟩
      exact ⟨_, .unexpected (by simpa using hb) (by simpa using hd) (by simpa using hk) ho hp⟩

theorem tokenize_of_lexes {text : String} {ts : List Token} (hne : text ≠ "")
    (h : Lexes (Source.ofText "<input>" text) 0 text.toList ts) : tokenize text = ts :=
  Scanner.toList_of_lexes h rfl (if_neg hne) (Scanner.faces_ofSource _)

/-- The tokens of a text are what it is read as. -/
theorem lexes_tokenize {text : String} (hne : text ≠ "") :
    Lexes (Source.ofText "<input>" text) 0 text.toList (tokenize text) := by
  obtain ⟨ts, h⟩ := exists_lexes (Source.ofText "<input>" text) 0 text.toList
  rw [tokenize_of_lexes hne h]
  exact h

theorem tokenize_empty : tokenize "" = [] := Scanner.toList_of_ended rfl

/-- One token is the end of input or a fault, and it is the last. -/
def Ends (ts : List Token) : Prop :=
  ∃ (us : List Token) (t : Token), ts = us ++ [t] ∧
    (∀ u ∈ us, u.isFault = false ∧ u ≠ .endOfInput) ∧ (t.isFault = true ∨ t = .endOfInput)

theorem ends_singleton {t : Token} (h : t.isFault = true ∨ t = .endOfInput) : Ends [t] :=
  ⟨[], t, rfl, by simp, h⟩

theorem Ends.cons {ts : List Token} {t : Token} (h : Ends ts) (hf : t.isFault = false)
    (he : t ≠ .endOfInput) : Ends (t :: ts) := by
  obtain ⟨us, u, rfl, hus, hu⟩ := h
  exact ⟨t :: us, u, rfl, List.forall_mem_cons.2 ⟨⟨hf, he⟩, hus⟩, hu⟩

theorem Lexes.ends {source : Source} {i : Nat} {cs : List Char} {ts : List Token}
    (h : Lexes source i cs ts) : Ends ts := by
  induction h with
  | stop => exact ends_singleton (Or.inr rfl)
  | outOfRange | unexpected => exact ends_singleton (Or.inl rfl)
  | blank _ _ ih => exact ih
  | number _ _ _ _ _ ih => exact ih.cons rfl nofun
  | operator _ _ ih => exact ih.cons rfl nofun
  | opening _ ih | closing _ ih => exact ih.cons rfl nofun

theorem ends_tokenize {text : String} (hne : text ≠ "") : Ends (tokenize text) :=
  (lexes_tokenize hne).ends

end Reckon
