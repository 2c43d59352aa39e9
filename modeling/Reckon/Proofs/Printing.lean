import Reckon.Proofs.Alike
import Reckon.Proofs.Shape
import Reckon.Token.Render

/-! Tokens that are printed and read again: they come back as they were, and are evaluated alike. -/

namespace Reckon

open Text Lexeme TokenStream

/-- The text of the token is the one it is read from: digits that stand for the value of a number,
or a sign. There is none that a fault is read from. -/
inductive Spelled : Token → Prop where
  | number {n : Number} {ds : List Char} (ht : n.span.text = String.ofList ds) (hne : ds ≠ [])
      (hds : ∀ d ∈ ds, d.isDigit) (hv : n.value.toInt = decimal ds) : Spelled (.number n)
  | operator {o : Operator} (ht : o.span.text = o.kind.char.toString) : Spelled (.operator o)
  | parenthesis {p : Parenthesis} (ht : p.span.text = if p.isOpen then "(" else ")") :
      Spelled (.parenthesis p)
  | endOfInput : Spelled .endOfInput

/-- The tokens as they are read again, without their places. An end of input is added where there is
none. -/
def reread (ts : List Token) : List Lexeme :=
  ts.map Token.lexeme ++ if .endOfInput ∈ ts then [] else [.endOfInput]

variable {ts : List Token} {t : Token} {cs : List Char} {source : Source} {i : Nat}
  {text : String}

theorem Token.toList_rendered (hf : t.isFault = false) (he : t ≠ .endOfInput) :
    t.rendered.toList = ' ' :: t.text.toList := by
  have h : t.rendered = " " ++ t.text := by
    cases t with
    | number | operator | parenthesis => rfl
    | fault => cases hf
    | endOfInput => exact (he rfl).elim
  rw [h, String.toList_append]
  rfl

theorem Spelled.isFault (h : Spelled t) : t.isFault = false := by
  cases h <;> rfl

theorem toList_render_endOfInput (ts : List Token) :
    (render (.endOfInput :: ts)).toList = '\n' :: (render ts).toList := by
  rw [render_cons, String.toList_append]
  rfl

theorem toList_render_cons (hf : t.isFault = false) (he : t ≠ .endOfInput) (ts : List Token) :
    (render (t :: ts)).toList = ' ' :: (t.text.toList ++ (render ts).toList) := by
  rw [render_cons, String.toList_append, Token.toList_rendered hf he, List.cons_append]

/-- Numbers that are printed side by side stay apart. -/
theorem head?_render (h : ∀ t ∈ ts, Spelled t) :
    ∀ c ∈ (render ts).toList.head?, c.isDigit = false := by
  intro c hc
  cases ts with
  | nil => simp at hc
  | cons t ts =>
    by_cases he : t = .endOfInput
    · subst t
      rw [toList_render_endOfInput] at hc
      cases hc
      rfl
    · rw [toList_render_cons (h t List.mem_cons_self).isFault he] at hc
      cases hc
      rfl

theorem pieces_blank {c : Char} (hb : isBlank c = true) : pieces (c :: cs) = pieces cs := by
  have hd : c.isDigit = false := by
    cases hd : c.isDigit with
    | false => rfl
    | true => simp [isBlank_eq_false_of_isDigit hd] at hb
  simp [pieces_cons hd, hb]

theorem pieces_sign {c : Char} (hb : isBlank c = false) (hd : c.isDigit = false) :
    (pieces (c :: cs)).map ofPiece = ofChar c :: (pieces cs).map ofPiece := by
  simp [pieces_cons hd, hb, ofPiece_char hd]

/-- A printed token falls off as one piece, and the end of input as none. -/
theorem Spelled.pieces_text (h : Spelled t) (he : t ≠ .endOfInput)
    (hcs : ∀ c ∈ cs.head?, c.isDigit = false) :
    (pieces (t.text.toList ++ cs)).map ofPiece = t.lexeme :: (pieces cs).map ofPiece := by
  cases h with
  | @number n ds ht hne hds hv =>
    have hlt := n.value.toInt_lt
    have hpiece : ofPiece ds = .number n.span.text n.value.toInt := by
      rw [ofPiece_digits hne hds, ofDigits, if_pos (by omega), hv, ht]
    have htext : (Token.number n).text.toList = ds := by
      change n.span.text.toList = ds
      simp [ht]
    rw [htext, pieces_digits hne hds hcs, List.map_cons, hpiece]
    rfl
  | @operator o ht =>
    have htext : (Token.operator o).text.toList = [o.kind.char] := by
      change o.span.text.toList = _
      simp [ht]
    have hsign : ofChar o.kind.char = (Token.operator o).lexeme := by
      change _ = Lexeme.operator o.span.text o.kind
      rw [ht]
      cases o.kind <;> rfl
    rw [htext, ← hsign]
    exact pieces_sign o.kind.isBlank_char o.kind.isDigit_char
  | @parenthesis p ht =>
    have htext : (Token.parenthesis p).text.toList = [if p.isOpen then '(' else ')'] := by
      change p.span.text.toList = _
      rw [ht]
      cases p.isOpen <;> rfl
    have hsign : ofChar (if p.isOpen then '(' else ')') = (Token.parenthesis p).lexeme := by
      change _ = Lexeme.parenthesis p.span.text p.isOpen
      rw [ht]
      cases p.isOpen <;> rfl
    rw [htext, ← hsign]
    exact pieces_sign (by cases p.isOpen <;> rfl) (by cases p.isOpen <;> rfl)
  | endOfInput => exact (he rfl).elim

/-- Tokens that are printed fall into pieces again, one for each. -/
theorem ended_pieces_render (h : ∀ t ∈ ts, Spelled t) (he : ∀ t ∈ ts.dropLast, t ≠ .endOfInput) :
    ended ((pieces (render ts).toList).map ofPiece) = reread ts := by
  induction ts with
  | nil => rfl
  | cons t ts ih =>
    obtain ⟨ht, hts⟩ := List.forall_mem_cons.1 h
    by_cases hend : t = .endOfInput
    · subst t
      -- The end of input is the last token, so nothing is printed after it.
      cases ts with
      | nil => rfl
      | cons u ts => exact (he .endOfInput List.mem_cons_self rfl).elim
    · have hlast : ∀ u ∈ ts.dropLast, u ≠ .endOfInput := by
        intro u hu
        cases ts with
        | nil => cases hu
        | cons v ts => exact he u (List.mem_cons_of_mem _ hu)
      have hfault : ∀ text message, t.lexeme ≠ .fault text message := by
        intro text message hl
        cases ht <;> cases hl
      have hrest := ih hts hlast
      rw [toList_render_cons ht.isFault hend, pieces_blank rfl,
        ht.pieces_text hend (head?_render hts), ended_cons hfault, hrest]
      have hmem : .endOfInput ∈ t :: ts ↔ .endOfInput ∈ ts := by
        simp [Ne.symm hend]
      simp [reread, hmem]

theorem Spelled.toList_text_ne_nil (h : Spelled t) (he : t ≠ .endOfInput) :
    t.text.toList ≠ [] := by
  intro hnil
  have hnone : ∀ c ∈ ([] : List Char).head?, c.isDigit = false := by simp
  have hp := h.pieces_text he hnone
  rw [hnil] at hp
  cases hp

theorem toList_renderTrimmed {c : Char} (h : (render ts).toList = c :: cs) :
    (renderTrimmed ts).toList = if c = ' ' then cs else c :: cs := by
  unfold renderTrimmed
  split
  · next ds hd =>
    cases h.symm.trans hd
    simp
  · next hne =>
    have hc : c ≠ ' ' := by
      intro hc
      exact hne cs (hc ▸ h)
    simp [h, hc]

theorem render_ne_empty (hne : ts ≠ []) (h : ∀ t ∈ ts, Spelled t) :
    render ts ≠ "" ∧ renderTrimmed ts ≠ "" := by
  cases ts with
  | nil => exact (hne rfl).elim
  | cons t ts =>
    have ht := h t List.mem_cons_self
    by_cases he : t = .endOfInput
    · subst t
      have hr := toList_render_endOfInput ts
      have hrt := toList_renderTrimmed hr
      exact ⟨fun h => by simp [h] at hr, fun h => by simp [h] at hrt⟩
    · have hr := toList_render_cons ht.isFault he ts
      have hrt := toList_renderTrimmed hr
      have htext := ht.toList_text_ne_nil he
      exact ⟨fun h => by simp [h] at hr, fun h => by simp [h, htext] at hrt⟩

/-- The space in front separates nothing. -/
theorem pieces_renderTrimmed (ts : List Token) :
    pieces (renderTrimmed ts).toList = pieces (render ts).toList := by
  unfold renderTrimmed
  split
  · next cs h => rw [h, String.toList_ofList, pieces_blank rfl]
  · simp

theorem map_lexeme_of_ne_empty (hne : text ≠ "") :
    (tokenize text).map Token.lexeme = ended ((pieces text.toList).map ofPiece) :=
  (lexes_tokenize hne).map_lexeme [] rfl rfl

theorem tokenize_of_spelled (hne : ts ≠ []) (h : ∀ t ∈ ts, Spelled t)
    (he : ∀ t ∈ ts.dropLast, t ≠ .endOfInput) :
    (tokenize (render ts)).map Token.lexeme = reread ts ∧
      (tokenize (renderTrimmed ts)).map Token.lexeme = reread ts := by
  obtain ⟨hr, ht⟩ := render_ne_empty hne h
  constructor
  · rw [map_lexeme_of_ne_empty hr, ended_pieces_render h he]
  · rw [map_lexeme_of_ne_empty ht, pieces_renderTrimmed, ended_pieces_render h he]

theorem Lexes.spelled (h : Lexes source i cs ts) (pre : List Char)
    (hs : source.chars = pre ++ cs) (hi : byteLength pre = i) :
    ∀ t ∈ ts, t.isFault = false → Spelled t := by
  induction h generalizing pre with
  | stop =>
    intro t ht _
    cases List.mem_singleton.1 ht
    exact .endOfInput
  | @blank i c cs ts _ _ ih => exact ih (pre ++ [c]) (by simp [hs]) (by simp [hi])
  | @number i ds cs v ts hne hds _ hv _ ih =>
    subst hi
    have hlen := byteLength_of_isDigit hds
    have htext := Span.text_eq (by simpa using hs)
    rw [hlen] at htext
    rw [Text.digitsValue_eq_decimal] at hv
    refine List.forall_mem_cons.2 ⟨fun _ => .number htext hne hds hv, ?_⟩
    exact ih (pre ++ ds) (by simpa using hs) (by simp [hlen])
  | outOfRange | unexpected =>
    intro t ht hf
    cases List.mem_singleton.1 ht
    cases hf
  | @operator i cs ts k _ ih =>
    subst hi
    have htext := Span.text_char hs
    rw [k.utf8Size_char] at htext
    refine List.forall_mem_cons.2 ⟨fun _ => .operator htext, ?_⟩
    exact ih (pre ++ [k.char]) (by simpa using hs) (by simp [k.utf8Size_char])
  | @opening i cs ts _ ih =>
    subst hi
    refine List.forall_mem_cons.2 ⟨fun _ => .parenthesis (Span.text_char hs), ?_⟩
    exact ih (pre ++ ['(']) (by simpa using hs) (by simp; rfl)
  | @closing i cs ts _ ih =>
    subst hi
    refine List.forall_mem_cons.2 ⟨fun _ => .parenthesis (Span.text_char hs), ?_⟩
    exact ih (pre ++ [')']) (by simpa using hs) (by simp; rfl)

theorem spelled_tokenize (ht : t ∈ tokenize text) (hf : t.isFault = false) : Spelled t := by
  by_cases hne : text = ""
  · subst text
    simp [tokenize_empty] at ht
  · exact (lexes_tokenize hne).spelled [] rfl rfl t ht hf

/-- Reordering makes no new tokens but faults. -/
theorem spelled_toRpn (ht : t ∈ toRpn (Scanner.ofText text)) (hf : t.isFault = false) :
    Spelled t := by
  rw [toRpn_ofText] at ht
  rcases Yard.mem_released ht hf with ht | ⟨o, _, ho⟩
  · exact spelled_tokenize ht hf
  · cases ho

theorem ends_toRpn (hne : text ≠ "") : Ends (toRpn (Scanner.ofText text)) := by
  obtain ⟨us, t, heq, hus, ht⟩ := Yard.released_ends (y := {}) (ends_tokenize hne) rfl
  rw [toRpn_ofText]
  refine ⟨us, t, heq, ?_, ht.imp And.left And.left⟩
  intro u hu
  refine ⟨Token.isFault_of_isArithmetic (hus u hu), ?_⟩
  rintro rfl
  cases hus _ hu

theorem tokenize_of_ends (h : Ends ts) (hs : ∀ t ∈ ts, Spelled t) :
    (tokenize (render ts)).map Token.lexeme = ts.map Token.lexeme ∧
      (tokenize (renderTrimmed ts)).map Token.lexeme = ts.map Token.lexeme := by
  obtain ⟨us, rfl, hus⟩ := exists_concat_of_ends h fun t ht => (hs t ht).isFault
  have hr : reread (us ++ [.endOfInput]) = (us ++ [Token.endOfInput]).map Token.lexeme := by
    simp [reread]
  rw [← hr]
  exact tokenize_of_spelled (by simp) hs (by simpa using hus)

/-- What is printed is read again as the tokens it was printed from, with or without the space in
front. That holds for all tokens with their own texts, among them those of a text and those of a
text in reverse Polish notation. The latter are evaluated as the text itself is. -/
theorem tokenize_render :
    (∀ ts : List Token, ts ≠ [] → (∀ t ∈ ts, Spelled t) → (∀ t ∈ ts.dropLast, t ≠ .endOfInput) →
      (tokenize (render ts)).map Token.lexeme = reread ts ∧
        (tokenize (renderTrimmed ts)).map Token.lexeme = reread ts) ∧
    (∀ text, (∀ t ∈ tokenize text, t.isFault = false) → tokenize text ≠ [] →
      (tokenize (render (tokenize text))).map Token.lexeme = (tokenize text).map Token.lexeme ∧
        (tokenize (renderTrimmed (tokenize text))).map Token.lexeme =
          (tokenize text).map Token.lexeme) ∧
    ∀ text, let rpn := toRpn (Scanner.ofText text)
      (∀ t ∈ rpn, t.isFault = false) → rpn ≠ [] →
      ((tokenize (render rpn)).map Token.lexeme = rpn.map Token.lexeme ∧
        (tokenize (renderTrimmed rpn)).map Token.lexeme = rpn.map Token.lexeme) ∧
      ∀ r, ∃ x, (calculate text r).1 = x.mapError .evaluation ∧
        Alike rpn (tokenize (render rpn)) x (evaluate (Scanner.ofText (render rpn))).1 := by
  refine ⟨fun ts hne hs he => tokenize_of_spelled hne hs he, ?_, ?_⟩
  · intro text hf hne
    have htext : text ≠ "" := by
      rintro rfl
      exact hne tokenize_empty
    exact tokenize_of_ends (ends_tokenize htext) fun t ht => spelled_tokenize ht (hf t ht)
  · intro text rpn hf hne
    have htext : text ≠ "" := by
      rintro rfl
      apply hne
      simp only [rpn, toRpn_ofText, tokenize_empty]
      rfl
    have hends : Ends rpn := ends_toRpn htext
    have hread := tokenize_of_ends hends fun t ht => spelled_toRpn ht (hf t ht)
    refine ⟨hread, fun r => ⟨_, calculate_fst text r, ?_⟩⟩
    rw [evaluate_fst, ← toRpn_ofText]
    exact alike_of_lexemes hends hf hread.1

theorem tokenize_quotient : tokenize "1/0" =
    [.number ⟨⟨Source.ofText "<input>" "1/0", 0, 1⟩, 1⟩,
      .operator ⟨⟨Source.ofText "<input>" "1/0", 1, 2⟩, .divide⟩,
      .number ⟨⟨Source.ofText "<input>" "1/0", 2, 3⟩, 0⟩, .endOfInput] := by
  refine tokenize_of_lexes (by decide) ?_
  exact @Lexes.number _ 0 ['1'] ['/', '0'] _ _ (by simp) (by simp) (by simp) rfl <|
    .operator .divide <| @Lexes.number _ 2 ['0'] [] _ _ (by simp) (by simp) (by simp) rfl .stop

/-- Zeros in front stay, and a parenthesis need not match. Where the division fails first, it fails
again. -/
theorem tokenize_render_quotient :
    let source := Source.ofText "<input>" "007)"
    let ts : List Token := [.number ⟨⟨source, 0, 3⟩, 7⟩, .parenthesis ⟨⟨source, 3, 4⟩, false⟩]
    let rpn := toRpn (Scanner.ofText "1/0")
    (tokenize (render ts)).map Token.lexeme =
        [.number "007" 7, .parenthesis ")" false, .endOfInput] ∧
      (tokenize (render (tokenize "1/0"))).map Token.lexeme =
        (tokenize "1/0").map Token.lexeme ∧
      (tokenize (render rpn)).map Token.lexeme = rpn.map Token.lexeme ∧
      ∃ x, (calculate "1/0" { policy := .discard }).1 = x.mapError .evaluation ∧
        Alike rpn (tokenize (render rpn)) x (evaluate (Scanner.ofText (render rpn))).1 := by
  intro source ts rpn
  have hchars : source.chars = ['0', '0', '7', ')'] := by simp [source, Source.chars, Source.ofText]
  have hzeros : Span.text ⟨source, 0, 3⟩ = "007" :=
    @Span.text_eq source [] [')'] ['0', '0', '7'] hchars
  have hclose : Span.text ⟨source, 3, 4⟩ = ")" :=
    @Span.text_char source ['0', '0', '7'] [] ')' hchars
  have hs : ∀ t ∈ ts, Spelled t := by
    refine List.forall_mem_cons.2 ⟨?_, List.forall_mem_singleton.2 (.parenthesis hclose)⟩
    exact @Spelled.number _ ['0', '0', '7'] hzeros (by simp) (by simp) rfl
  have hrpn : rpn = [.number ⟨⟨Source.ofText "<input>" "1/0", 0, 1⟩, 1⟩,
      .number ⟨⟨Source.ofText "<input>" "1/0", 2, 3⟩, 0⟩,
      .operator ⟨⟨Source.ofText "<input>" "1/0", 1, 2⟩, .divide⟩, .endOfInput] := by
    simp only [rpn, toRpn_ofText, tokenize_quotient]
    rfl
  have htext : ∀ t ∈ tokenize "1/0", t.isFault = false := by
    simp [tokenize_quotient, Token.isFault]
  have hsound : ∀ t ∈ rpn, t.isFault = false := by
    simp [hrpn, Token.isFault]
  have hne : rpn ≠ [] := by
    rw [hrpn]
    exact List.cons_ne_nil _ _
  refine ⟨?_, ?_, ?_, ?_⟩
  · have hread : reread ts = [.number (Span.text ⟨source, 0, 3⟩) 7,
        .parenthesis (Span.text ⟨source, 3, 4⟩) false, .endOfInput] := rfl
    rw [(tokenize_render.1 ts (by simp [ts]) hs (by simp [ts])).1, hread, hzeros, hclose]
  · exact (tokenize_render.2.1 "1/0" htext (by simp [tokenize_quotient])).1
  · exact (tokenize_render.2.2 "1/0" hsound hne).1.1
  · exact (tokenize_render.2.2 "1/0" hsound hne).2 _

end Reckon
