import Reckon.Proofs.Blame
import Reckon.Proofs.Breakdown
import Reckon.Proofs.Lexemes
import Reckon.Proofs.Lines

/-! What a calculation reports is about a token of its text, and that token can be shown. -/

namespace Reckon

open Text

/-- The parenthesis at place `k` closes nothing, and nothing closes it. -/
def Unmatched (ts : List Token) (k : Nat) : Prop := ∀ j, ¬ Closes ts j k ∧ ¬ Closes ts k j

/-- The span is that of the token which fails: an operator, a fault among the tokens, or a
parenthesis without a partner. -/
inductive Failure.PointsAt (ts : List Token) : Failure → Span → Prop where
  | operator {o : Operator} {f : Failure} (h : .operator o ∈ ts) (hf : f.IsAt o)
    (hz : f = .divisionByZero o → o.kind = .divide) : PointsAt ts f o.span
  | fault {e : Fault} (h : .fault e ∈ ts) : PointsAt ts (.malformed e) e.span
  | unopened {p : Parenthesis} {k : Nat} (h : ts[k]? = some (.parenthesis p))
    (hp : p.isOpen = false) (hu : Unmatched ts k) : PointsAt ts (.malformed (.unopened p)) p.span
  | unclosed {p : Parenthesis} {k : Nat} (h : ts[k]? = some (.parenthesis p))
    (hp : p.isOpen = true) (hu : Unmatched ts k) : PointsAt ts (.malformed (.unclosed p)) p.span

/-- Characters of the source stand under the span, none of them blank. -/
def Span.IsWordOf (source : Source) (s : Span) : Prop :=
  ∃ pre ds post, source.chars = pre ++ ds ++ post ∧ ds ≠ [] ∧ (∀ d ∈ ds, isBlank d = false) ∧
    s = ⟨source, byteLength pre, byteLength pre + byteLength ds⟩

/-- Something stands under the span, all of it on the line with index `k`, and there it is found. -/
structure Span.LiesOn (s : Span) (k : Nat) : Prop where
  nonempty : s.start < s.stop
  within : ∃ e, s.source.lines[k]? = some e ∧ e.start ≤ s.start ∧ s.stop ≤ e.stop
  unbroken : ∃ x, s.text? = some x ∧ ∀ c ∈ x.toList, c ≠ '\n' ∧ c ≠ '\r'
  located : ∃ column, s.location? = some { line := k + 1, column }
  shown : (s.source.line? (k + 1)).isSome = true

variable {ts : List Token} {t : Token} {e : Fault} {p : Parenthesis} {f i a : Nat}
  {places : List Nat} {text : String} {source : Source} {cs ds pre : List Char} {s : Span}

theorem unmatched_of_unopened (ht : ts[f]? = some (.parenthesis p)) (hp : p.isOpen = false)
    (hu : ∀ a, ¬ Unclosed ts f a) : Unmatched ts f := by
  intro j
  constructor
  · intro hc
    apply hu j
    refine ⟨hc.lt, hc.opening, fun b hb hcb => ?_⟩
    exact hcb.not_nested hb hc.balanced.1
  · intro hc
    have := hc.opening
    simp [ht, Token.isOpening, hp] at this

/-- What is open at the end of input stays open. -/
theorem unmatched_of_unclosed (hlen : f + 1 = ts.length) (ht : ts[f]? = some .endOfInput)
    (hu : Unclosed ts f a) : Unmatched ts a := by
  intro j
  constructor
  · intro hc
    obtain ⟨t, ht, ho⟩ := (Option.any_eq_true _ _).1 hu.opening
    have := hc.closing
    simp [ht, Token.isClosing_of_isOpening ho] at this
  · intro hc
    obtain ⟨t, htj, hclosing⟩ := (Option.any_eq_true _ _).1 hc.closing
    have hj := (List.getElem?_eq_some_iff.1 htj).1
    rcases Nat.lt_or_ge j f with hlt | hge
    · exact hu.not_closes j hlt hc
    · obtain rfl : j = f := by omega
      rw [ht] at htj
      cases htj
      cases hclosing

theorem Reports.exists_operator (h : Reports ts f places e) (hi : i ∈ places) :
    ∃ o, ts[i]? = some (.operator o) := by
  cases h with
  | fault => cases hi
  | unopened _ _ hw => exact ((hw i).1 hi).operator
  | unclosed _ _ _ _ hw => exact ((hw i).1 hi).1.operator

/-- A released fault is the one that the place of the failure reports. -/
theorem exists_reports_of_mem_released (he : ∀ t ∈ ts.dropLast, t ≠ .endOfInput)
    (h : .fault e ∈ ({} : Yard).released ts) :
    ∃ f places, FailsAt ts f ∧ Reports ts f places e := by
  by_cases hf : ∃ f, FailsAt ts f
  · obtain ⟨f, hf⟩ := hf
    obtain ⟨t, places, e', hfail, hr, _, hout⟩ := hf.exists_reports he
    refine ⟨f, places, hf, ?_⟩
    rw [hfail.released_eq, hout] at h
    rcases List.mem_append.1 h with h | h
    · cases Yard.isFault_of_mem_released hfail.correct h
    · rcases List.mem_append.1 h with h | h
      · obtain ⟨i, hi, hti⟩ := List.mem_filterMap.1 h
        obtain ⟨o, ho⟩ := hr.exists_operator hi
        rw [hti] at ho
        cases ho
      · cases List.mem_singleton.1 h
        exact hr
  · have hc := isCorrect_of_not_failsAt he fun f hfail => hf ⟨f, hfail⟩
    cases Yard.isFault_of_mem_released hc h

theorem Reports.pointsAt (he : ∀ t ∈ ts.dropLast, t ≠ .endOfInput) (hf : FailsAt ts f)
    (h : Reports ts f places e) : (Failure.malformed e).PointsAt ts e.span := by
  cases h with
  | fault ht => exact .fault (List.mem_of_getElem? ht)
  | unopened ht hp =>
    rcases hf with ⟨⟨ht'⟩ | ⟨_, _, hu⟩, _⟩ | ⟨_, ht', _⟩
    · rw [ht] at ht'
      cases ht'
    · exact .unopened ht hp (unmatched_of_unopened ht hp hu)
    · rw [ht] at ht'
      cases ht'
  | @unclosed p a _ ht ha hu =>
    have hlen : f + 1 = ts.length := by
      have hlt := hf.lt_length
      rcases Nat.lt_or_ge (f + 1) ts.length with h | h
      · obtain ⟨t, ht', hne⟩ := exists_ne_endOfInput he h
        rw [ht] at ht'
        cases ht'
        exact (hne rfl).elim
      · omega
    have hp : p.isOpen = true := by simpa [ha, Token.isOpening] using hu.opening
    exact .unclosed ha hp (unmatched_of_unclosed hlen ht hu)

/-- A failure with a span is about a token. -/
theorem pointsAt_of_foldlM (he : ∀ t ∈ ts.dropLast, t ≠ .endOfInput) {g : Failure}
    (h : ((({} : Yard).released ts).foldlM Calculator.accept {} >>= Calculator.result) =
      .error g) (hs : g.span? = some s) : g.PointsAt ts s := by
  rcases cause_of_foldlM h with ⟨o, ho, hg, hz⟩ | ⟨e, he', rfl⟩ | rfl | rfl
  · have hspan : o.span = s := by
      rcases hg with rfl | rfl | rfl <;> exact Option.some.inj hs
    exact hspan ▸ .operator ho hg hz
  · cases hs
    obtain ⟨f, places, hf, hr⟩ := exists_reports_of_mem_released he he'
    exact hr.pointsAt he hf
  · cases hs
  · cases hs

theorem Failure.PointsAt.exists_token {g : Failure} (h : g.PointsAt ts s) :
    ∃ t ∈ ts, t.span? = some s := by
  cases h with
  | operator h | fault h => exact ⟨_, h, rfl⟩
  | unopened h | unclosed h => exact ⟨_, List.mem_of_getElem? h, rfl⟩

theorem isWordOf_digits (hs : source.chars = pre ++ (ds ++ cs)) (hne : ds ≠ [])
    (hds : ∀ d ∈ ds, d.isDigit) :
    Span.IsWordOf source ⟨source, byteLength pre, byteLength pre + ds.length⟩ := by
  refine ⟨pre, ds, cs, by simpa using hs, hne, ?_, by rw [byteLength_of_isDigit hds]⟩
  intro d hd
  exact isBlank_eq_false_of_isDigit (hds d hd)

theorem isWordOf_char {c : Char} (hs : source.chars = pre ++ c :: cs) (hb : isBlank c = false) :
    Span.IsWordOf source ⟨source, byteLength pre, byteLength pre + c.utf8Size⟩ :=
  ⟨pre, [c], cs, by simpa using hs, by simp, by simpa using hb, by simp⟩

/-- Under each token stand characters of the text. -/
theorem Lexes.isWordOf (h : Lexes source i cs ts) (pre : List Char)
    (hs : source.chars = pre ++ cs) (hi : byteLength pre = i) :
    ∀ t ∈ ts, ∀ s, t.span? = some s → s.IsWordOf source := by
  induction h generalizing pre with
  | stop => simp [Token.span?]
  | @blank i c cs ts _ _ ih => exact ih (pre ++ [c]) (by simp [hs]) (by simp [hi])
  | @number i ds cs v ts hne hds _ _ _ ih =>
    subst hi
    refine List.forall_mem_cons.2 ⟨?_, ?_⟩
    · rintro _ ⟨⟩
      exact isWordOf_digits hs hne hds
    · exact ih (pre ++ ds) (by simpa using hs) (by simp [byteLength_of_isDigit hds])
  | outOfRange hne hds =>
    subst hi
    refine List.forall_mem_singleton.2 ?_
    rintro _ ⟨⟩
    exact isWordOf_digits hs hne hds
  | @operator i cs ts k _ ih =>
    subst hi
    refine List.forall_mem_cons.2 ⟨?_, ?_⟩
    · rintro _ ⟨⟩
      have := isWordOf_char hs k.isBlank_char
      rwa [k.utf8Size_char] at this
    · exact ih (pre ++ [k.char]) (by simpa using hs) (by simp [k.utf8Size_char])
  | opening _ ih | closing _ ih =>
    subst hi
    refine List.forall_mem_cons.2 ⟨?_, ?_⟩
    · rintro _ ⟨⟩
      exact isWordOf_char hs rfl
    · exact ih (pre ++ [_]) (by simpa using hs) (by simp; rfl)
  | unexpected hb =>
    subst hi
    refine List.forall_mem_singleton.2 ?_
    rintro _ ⟨⟩
    exact isWordOf_char hs hb

theorem isWordOf_of_mem_tokenize (ht : t ∈ tokenize text) (hs : t.span? = some s) :
    s.IsWordOf (Source.ofText "<input>" text) := by
  by_cases hne : text = ""
  · subst hne
    simp [tokenize_empty] at ht
  · exact (lexes_tokenize hne).isWordOf [] rfl rfl t ht s hs

theorem ne_endOfInput_of_mem_dropLast (ht : t ∈ (tokenize text).dropLast) : t ≠ .endOfInput := by
  by_cases hne : text = ""
  · subst hne
    simp [tokenize_empty] at ht
  · obtain ⟨us, u, heq, hus, _⟩ := ends_tokenize hne
    rw [heq, List.dropLast_concat] at ht
    exact (hus t ht).2

/-- What has no blank in it lies on a single line. -/
theorem Span.IsWordOf.exists_liesOn {name : String}
    (h : s.IsWordOf (Source.ofText name text)) : ∃ k, s.LiesOn k := by
  obtain ⟨pre, ds, post, hchars, hne, hds, rfl⟩ := h
  have hunbroken : Lines.Unbroken ds := by
    intro d hd
    have hb := hds d hd
    constructor <;> rintro rfl <;> cases hb
  have htext := Span.text?_eq hchars
  obtain ⟨ls, hs, hl⟩ := Source.exists_splits name text
  obtain ⟨k, _, before, after, hk, rfl, rfl⟩ := hs.exists_line hchars hunbroken
  have hpos := byteLength_pos hne
  refine ⟨k, ?_, ⟨_, Source.lines_eq_of_line hl hk, ?_⟩, ⟨_, htext, ?_⟩, ?_, ?_⟩
  · simp only
    omega
  · simp only [byteLength_append]
    omega
  · rw [String.toList_ofList]
    exact hunbroken
  · rw [List.append_assoc] at hk
    exact ⟨_, Source.location?_eq hs hl hk (by simp [hne])⟩
  · simp [Source.line?_eq hs hl hk]

/-- An error without a span is about the whole text. Any other is about a token of it, and that
token is found on a line of the text and does not reach beyond that line. -/
theorem calculate_points {r : Reporter} {err : Error} (h : (calculate text r).1 = .error err) :
    (err.span? = none ↔
      err = .evaluation .emptyExpression ∨ err = .evaluation .expectedOperator) ∧
    ∀ s, err.span? = some s →
      (∃ f, err = .evaluation f ∧ f.PointsAt (tokenize text) s) ∧
      (∃ t ∈ tokenize text, t.span? = some s) ∧ s.source = Source.ofText "<input>" text ∧
      ∃ k, s.LiesOn k := by
  rw [calculate_fst] at h
  rcases hx : ((({} : Yard).released (tokenize text)).foldlM Calculator.accept {} >>=
    Calculator.result) with f | v
  · rw [hx] at h
    cases h
    refine ⟨?_, ?_⟩
    · cases f <;> simp [Error.span?, Failure.span?]
    · intro s hs
      have hpoints : f.PointsAt (tokenize text) s :=
        pointsAt_of_foldlM (fun t ht => ne_endOfInput_of_mem_dropLast ht) hx hs
      obtain ⟨t, ht, hspan⟩ := hpoints.exists_token
      have hword := isWordOf_of_mem_tokenize ht hspan
      have hsource : s.source = Source.ofText "<input>" text := by
        obtain ⟨pre, ds, post, _, _, _, rfl⟩ := hword
        rfl
      exact ⟨⟨f, rfl, hpoints⟩, ⟨t, ht, hspan⟩, hsource, hword.exists_liesOn⟩
  · rw [hx] at h
    cases h

/-- The parenthesis is never closed. It stands on the second line. -/
theorem calculate_points_unclosed :
    let p : Parenthesis := ⟨⟨Source.ofText "<input>" "1+\n(2", 3, 4⟩, true⟩
    let err : Error := .evaluation (.malformed (.unclosed p))
    (calculate "1+\n(2" { policy := .discard }).1 = .error err ∧
    (err.span? = none ↔
      err = .evaluation .emptyExpression ∨ err = .evaluation .expectedOperator) ∧
    ∀ s, err.span? = some s →
      (∃ f, err = .evaluation f ∧ f.PointsAt (tokenize "1+\n(2") s) ∧
      (∃ t ∈ tokenize "1+\n(2", t.span? = some s) ∧
      s.source = Source.ofText "<input>" "1+\n(2" ∧ ∃ k, s.LiesOn k := by
  intro p err
  let source := Source.ofText "<input>" "1+\n(2"
  have htext : tokenize "1+\n(2" = [.number ⟨⟨source, 0, 1⟩, 1⟩, .operator ⟨⟨source, 1, 2⟩, .plus⟩,
      .parenthesis p, .number ⟨⟨source, 4, 5⟩, 2⟩, .endOfInput] := by
    refine tokenize_of_lexes (by decide) ?_
    exact @Lexes.number _ 0 ['1'] ['+', '\n', '(', '2'] _ _ (by simp) (by simp) (by simp) rfl <|
      .operator .plus <| .blank rfl <| .opening <|
      @Lexes.number _ 4 ['2'] [] _ _ (by simp) (by simp) (by simp) rfl .stop
  have h : (calculate "1+\n(2" { policy := .discard }).1 = .error err := by
    rw [calculate_fst, htext]
    rfl
  exact ⟨h, calculate_points h⟩

end Reckon
