import Reckon.Proofs.Pointing
import Reckon.Proofs.Relocation

/-! Two texts put together have the tokens of the one, without its end of input, and then those of
the other. A number at the seam must not go on behind it, and nothing follows a fault. -/

namespace Reckon

open Text

/-- The span as it is in another source, `n` bytes further on. -/
def Span.shift (source : Source) (n : Nat) (s : Span) : Span := ⟨source, s.start + n, s.stop + n⟩

/-- No run of digits goes on from the one text into the other. -/
def Seam (cs ds : List Char) : Prop :=
  (∀ c ∈ cs.getLast?, c.isDigit = false) ∨ ∀ d ∈ ds.head?, d.isDigit = false

/-- Reading on at the end of input, where the tokens `us` are found. -/
def resume (us : List Token) : List Token → List Token
  | [] => us
  | .endOfInput :: _ => us
  | .fault e :: _ => [.fault e]
  | t :: ts => t :: resume us ts

variable {source source' : Source} {cs ds pre post : List Char} {t : Token} {ts us : List Token}
  {i n : Nat}

theorem Seam.of_append (h : Seam (pre ++ cs) ds) : Seam cs ds := by
  refine h.imp (fun hlast c hc => hlast c ?_) id
  rw [List.getLast?_append, Option.mem_def.1 hc]
  rfl

theorem Seam.of_cons {c : Char} (h : Seam (c :: cs) ds) : Seam cs ds :=
  of_append (show Seam ([c] ++ cs) ds from h)

/-- What follows digits is still no digit when more follows. -/
theorem Seam.head?_append {xs : List Char} (h : Seam (xs ++ cs) ds) (hne : xs ≠ [])
    (hxs : ∀ x ∈ xs, x.isDigit) (hcs : ∀ c ∈ cs.head?, c.isDigit = false) :
    ∀ c ∈ (cs ++ ds).head?, c.isDigit = false := by
  cases cs with
  | cons c cs => exact hcs
  | nil =>
    rcases h with hlast | hhead
    · rw [List.append_nil] at hlast
      have hdigit := hxs _ (List.getLast_mem hne)
      rw [hlast _ (List.getLast?_eq_some_getLast hne)] at hdigit
      cases hdigit
    · exact hhead

theorem resume_cons (hf : t.isFault = false) (he : t ≠ .endOfInput) :
    resume us (t :: ts) = t :: resume us ts := by
  cases t with
  | fault e => cases hf
  | endOfInput => exact (he rfl).elim
  | _ => rfl

theorem resume_append {vs : List Token} (h : ∀ v ∈ vs, v.isFault = false ∧ v ≠ .endOfInput) :
    resume us (vs ++ ts) = vs ++ resume us ts := by
  induction vs with
  | nil => rfl
  | cons v vs ih =>
    obtain ⟨⟨hf, he⟩, hvs⟩ := List.forall_mem_cons.1 h
    rw [List.cons_append, resume_cons hf he, ih hvs, List.cons_append]

theorem Ends.resume_of_fault (h : Ends ts) (hf : ∃ t ∈ ts, t.isFault = true) :
    resume us ts = ts := by
  obtain ⟨vs, t, rfl, hvs, ht⟩ := h
  rw [resume_append hvs]
  cases t with
  | fault e => rfl
  | endOfInput =>
    obtain ⟨u, hu, huf⟩ := hf
    rcases List.mem_append.1 hu with hu | hu
    · rw [(hvs u hu).1] at huf
      cases huf
    · cases List.mem_singleton.1 hu
      cases huf
  | _ => rcases ht with ht | ht <;> cases ht

theorem Ends.resume_of_no_fault (h : Ends ts) (hf : ∀ t ∈ ts, t.isFault = false) :
    resume us ts = ts.dropLast ++ us := by
  obtain ⟨vs, rfl, hvs⟩ := exists_concat_of_ends h hf
  have hvs : ∀ v ∈ vs, v.isFault = false ∧ v ≠ .endOfInput :=
    fun v hv => ⟨hf v (List.mem_append_left _ hv), hvs v hv⟩
  rw [resume_append hvs, List.dropLast_concat]
  rfl

theorem Span.shift_add (source' : Source) (n i k : Nat) :
    Span.shift source' n ⟨source, i, i + k⟩ = ⟨source', i + n, i + n + k⟩ := by
  rw [shift, Nat.add_right_comm]

/-- Reading depends on the characters alone, and not on where they are. -/
theorem Lexes.shift (h : Lexes source i cs ts) (source' : Source) (n : Nat) :
    Lexes source' (i + n) cs (ts.map (Token.mapSpan (Span.shift source' n))) := by
  induction h with
  | stop => exact .stop
  | blank hc _ ih =>
    rw [Nat.add_right_comm] at ih
    exact .blank hc ih
  | number hne hds hcs hv _ ih =>
    rw [Nat.add_right_comm] at ih
    simp only [List.map_cons, Token.mapSpan, Span.shift_add]
    exact .number hne hds hcs hv ih
  | outOfRange hne hds hcs hv =>
    simp only [List.map_cons, List.map_nil, Token.mapSpan, Fault.outOfRange, Span.shift_add]
    exact .outOfRange hne hds hcs hv
  | operator k _ ih =>
    rw [Nat.add_right_comm] at ih
    simp only [List.map_cons, Token.mapSpan, Span.shift_add]
    exact .operator k ih
  | opening _ ih =>
    rw [Nat.add_right_comm] at ih
    simp only [List.map_cons, Token.mapSpan, Span.shift_add]
    exact .opening ih
  | closing _ ih =>
    rw [Nat.add_right_comm] at ih
    simp only [List.map_cons, Token.mapSpan, Span.shift_add]
    exact .closing ih
  | unexpected hb hd hk ho hp =>
    simp only [List.map_cons, List.map_nil, Token.mapSpan, Fault.unexpectedChar, Span.shift_add]
    exact .unexpected hb hd hk ho hp

/-- The end of the one text is no end any more, and reading goes on in the other. -/
theorem Lexes.append (h : Lexes source i cs ts) (h' : Lexes source (i + byteLength cs) ds us)
    (hseam : Seam cs ds) : Lexes source i (cs ++ ds) (resume us ts) := by
  induction h with
  | stop => exact h'
  | @blank i c cs ts hc _ ih =>
    rw [byteLength_cons, ← Nat.add_assoc] at h'
    exact .blank hc (ih h' hseam.of_cons)
  | @number i xs cs v ts hne hxs hcs hv _ ih =>
    rw [byteLength_append, byteLength_of_isDigit hxs, ← Nat.add_assoc] at h'
    rw [List.append_assoc]
    exact .number hne hxs (hseam.head?_append hne hxs hcs) hv (ih h' hseam.of_append)
  | @outOfRange i xs cs hne hxs hcs hv =>
    rw [List.append_assoc]
    exact .outOfRange hne hxs (hseam.head?_append hne hxs hcs) hv
  | @operator i cs ts k _ ih =>
    rw [byteLength_cons, k.utf8Size_char, ← Nat.add_assoc] at h'
    exact .operator k (ih h' hseam.of_cons)
  | @opening i cs ts _ ih =>
    rw [byteLength_cons, ← Nat.add_assoc] at h'
    exact .opening (ih h' hseam.of_cons)
  | @closing i cs ts _ ih =>
    rw [byteLength_cons, ← Nat.add_assoc] at h'
    exact .closing (ih h' hseam.of_cons)
  | unexpected hb hd hk ho hp => exact .unexpected hb hd hk ho hp

/-- The text under a word is the same wherever its source is a part of. -/
theorem Span.IsWordOf.text_shift {s : Span} (h : s.IsWordOf source)
    (hs : source'.chars = pre ++ source.chars ++ post) :
    (s.shift source' (byteLength pre)).text = s.text := by
  obtain ⟨before, xs, after, hchars, -, -, rfl⟩ := h
  have hchars' : source'.chars = (pre ++ before) ++ xs ++ (after ++ post) := by
    simp [hs, hchars]
  rw [Span.shift_add, Nat.add_comm, ← byteLength_append, Span.text_eq hchars',
    Span.text_eq hchars]

theorem Token.lexeme_mapSpan {g : Span → Span} (hg : ∀ s, t.span? = some s → (g s).text = s.text) :
    (t.mapSpan g).lexeme = t.lexeme := by
  cases t with
  | endOfInput => rfl
  | _ => simp only [mapSpan, lexeme, hg _ rfl]

/-- A token of a text stays what it is when more text stands around it. -/
theorem lexeme_shift {text : String} (pre post : List Char) (ht : t ∈ tokenize text)
    (hs : source.chars = pre ++ text.toList ++ post) :
    (t.mapSpan (Span.shift source (byteLength pre))).lexeme = t.lexeme :=
  Token.lexeme_mapSpan fun _ hspan => (isWordOf_of_mem_tokenize ht hspan).text_shift hs

theorem tokenize_append_eq {s t : String} (hs : s ≠ "") (ht : t ≠ "")
    (hseam : Seam s.toList t.toList) :
    let source := Source.ofText "<input>" (s ++ t)
    tokenize (s ++ t) =
      resume ((tokenize t).map (Token.mapSpan (Span.shift source (byteLength s.toList))))
        ((tokenize s).map (Token.mapSpan (Span.shift source 0))) := by
  intro source
  have hne : s ++ t ≠ "" := by simp [ht]
  have hts := (lexes_tokenize hs).shift source 0
  have hus := (lexes_tokenize ht).shift source (byteLength s.toList)
  refine tokenize_of_lexes hne ?_
  rw [String.toList_append]
  exact hts.append hus hseam

/-- Tokenizing goes piece by piece. Without a fault in `s`, the tokens of `s ++ t` are those of `s`
less the end of input, in place, and those of `t`, moved behind `s`. With a fault they are those of
`s` and `t` is not looked at. Moving changes nothing but where a token is. -/
theorem tokenize_append {s t : String} (ht : t ≠ "") (hseam : Seam s.toList t.toList) :
    let source := Source.ofText "<input>" (s ++ t)
    let kept := Token.mapSpan (Span.shift source 0)
    let moved := Token.mapSpan (Span.shift source (byteLength s.toList))
    ((∀ u ∈ tokenize s, u.isFault = false) →
      (s = "" ∨ (tokenize s).getLast? = some .endOfInput) ∧
        tokenize (s ++ t) = (tokenize s).dropLast.map kept ++ (tokenize t).map moved) ∧
    ((∃ u ∈ tokenize s, u.isFault = true) → tokenize (s ++ t) = (tokenize s).map kept) ∧
    (∀ u ∈ tokenize s, (kept u).lexeme = u.lexeme) ∧
    ∀ u ∈ tokenize t, (moved u).lexeme = u.lexeme := by
  intro source kept moved
  have hchars : source.chars = s.toList ++ t.toList := String.toList_append
  refine ⟨fun hf => ?_, fun hf => ?_, fun u hu => ?_, fun u hu => ?_⟩
  · by_cases hs : s = ""
    · refine ⟨Or.inl hs, ?_⟩
      subst hs
      refine tokenize_of_lexes (by simpa using ht) ?_
      rw [tokenize_empty, String.toList_append]
      exact (lexes_tokenize ht).shift source 0
    · have hends := ((lexes_tokenize hs).shift source 0).ends
      refine ⟨Or.inr ?_, ?_⟩
      · obtain ⟨us, hus, -⟩ := exists_concat_of_ends (ends_tokenize hs) hf
        rw [hus, List.getLast?_concat]
      · rw [tokenize_append_eq hs ht hseam, hends.resume_of_no_fault, List.map_dropLast]
        simpa [Token.isFault_mapSpan] using hf
  · have hs : s ≠ "" := by
      rintro rfl
      simp [tokenize_empty] at hf
    have hends := ((lexes_tokenize hs).shift source 0).ends
    rw [tokenize_append_eq hs ht hseam]
    refine hends.resume_of_fault ?_
    simpa [Token.isFault_mapSpan] using hf
  · exact lexeme_shift [] t.toList hu hchars
  · exact lexeme_shift s.toList [] hu (by simpa using hchars)

theorem tokenize_digit : tokenize "1" = [.number ⟨⟨Source.ofText "<input>" "1", 0, 1⟩, 1⟩,
    .endOfInput] := by
  refine tokenize_of_lexes (by decide) ?_
  exact @Lexes.number _ 0 ['1'] [] _ _ (by simp) (by simp) (by simp) rfl .stop

theorem tokenize_summand : tokenize "\u00a0+2" =
    [.operator ⟨⟨Source.ofText "<input>" "\u00a0+2", 2, 3⟩, .plus⟩,
      .number ⟨⟨Source.ofText "<input>" "\u00a0+2", 3, 4⟩, 2⟩, .endOfInput] := by
  refine tokenize_of_lexes (by decide) ?_
  exact .blank rfl <| .operator .plus <|
    @Lexes.number _ 3 ['2'] [] _ _ (by simp) (by simp) (by simp) rfl .stop

/-- The number ends where the first text does, and the blank behind it has two bytes. -/
theorem tokenize_append_sum :
    let source := Source.ofText "<input>" ("1" ++ "\u00a0+2")
    "\u00a0+2" ≠ "" ∧ Seam "1".toList "\u00a0+2".toList ∧
      tokenize ("1" ++ "\u00a0+2") = [.number ⟨⟨source, 0, 1⟩, 1⟩,
        .operator ⟨⟨source, 3, 4⟩, .plus⟩, .number ⟨⟨source, 4, 5⟩, 2⟩, .endOfInput] := by
  intro source
  have ht : "\u00a0+2" ≠ "" := by decide
  have hseam : Seam "1".toList "\u00a0+2".toList := Or.inr (by simp)
  have hf : ∀ u ∈ tokenize "1", u.isFault = false := by
    rw [tokenize_digit]
    decide
  refine ⟨ht, hseam, ?_⟩
  rw [((tokenize_append ht hseam).1 hf).2, tokenize_digit, tokenize_summand]
  rfl

end Reckon
