import Reckon.Proofs.Pointing

/-! The tokens of a text and the blanks between them make up the text: no character is lost, and
none belongs to two tokens. -/

namespace Reckon

open Text

/-- Words, each with the blanks in front of it, from byte `i` on. The spans are those of the words,
and `rest` is what follows the last of them. -/
inductive Covers (source : Source) : Nat → List Char → List Span → List Char → Prop where
  | rest {i : Nat} (cs : List Char) : Covers source i cs [] cs
  | word {i : Nat} {gap ds cs rest : List Char} {ss : List Span}
    (hgap : ∀ c ∈ gap, isBlank c = true) (hne : ds ≠ []) :
    Covers source (i + byteLength gap + byteLength ds) cs ss rest →
    Covers source i (gap ++ ds ++ cs)
      (⟨source, i + byteLength gap, i + byteLength gap + byteLength ds⟩ :: ss) rest

/-- The stretches in front of spans that follow one another, the first of them from byte `i` on. -/
def gaps (i : Nat) : List Span → List Extent
  | [] => []
  | s :: ss => ⟨i, s.start⟩ :: gaps s.stop ss

/-- Where the last span stops, or `i` where there is none. -/
def lastStop (i : Nat) : List Span → Nat
  | [] => i
  | s :: ss => lastStop s.stop ss

/-- Gaps and the texts under spans by turns. -/
def weave (blanks : List (List Char)) (ss : List Span) : List Char :=
  (blanks.zipWith (fun gap s => gap ++ s.text.toList) ss).flatten

variable {source : Source} {i : Nat} {c : Char} {cs ds rest : List Char} {ss : List Span}
  {ts : List Token}

/-- A word with nothing in front of it. -/
theorem Covers.cons (hne : ds ≠ []) (h : Covers source (i + byteLength ds) cs ss rest) :
    Covers source i (ds ++ cs) (⟨source, i, i + byteLength ds⟩ :: ss) rest := by
  have hgap : ∀ c ∈ ([] : List Char), isBlank c = true := by simp
  exact .word hgap hne h

/-- A blank joins the gap in front of the first word, or the rest if there is no word. -/
theorem Covers.blank (hc : isBlank c = true) (h : Covers source (i + c.utf8Size) cs ss rest) :
    ∃ rest', Covers source i (c :: cs) ss rest' ∧
      ((∀ c ∈ rest, isBlank c = true) → ∀ c ∈ rest', isBlank c = true) := by
  cases h with
  | rest => exact ⟨c :: cs, .rest _, fun h => List.forall_mem_cons.2 ⟨hc, h⟩⟩
  | @word _ gap ds cs _ ss hgap hne h =>
    have hlen : i + c.utf8Size + byteLength gap = i + byteLength (c :: gap) := by
      rw [byteLength_cons, Nat.add_assoc]
    rw [hlen] at h ⊢
    exact ⟨rest, .word (List.forall_mem_cons.2 ⟨hc, hgap⟩) hne h, id⟩

/-- Reading skips nothing but blanks, unless a fault ends it. -/
theorem Lexes.covers (h : Lexes source i cs ts) :
    ∃ rest, Covers source i cs (ts.filterMap Token.span?) rest ∧
      ((∀ t ∈ ts, t.isFault = false) → ∀ c ∈ rest, isBlank c = true) := by
  induction h with
  | stop => exact ⟨[], .rest [], by simp⟩
  | blank hc _ ih =>
    obtain ⟨rest, hcovers, hrest⟩ := ih
    obtain ⟨rest', hcovers', hrest'⟩ := hcovers.blank hc
    exact ⟨rest', hcovers', fun hf => hrest' (hrest hf)⟩
  | @number i ds cs v ts hne hds _ _ _ ih =>
    obtain ⟨rest, hcovers, hrest⟩ := ih
    rw [← byteLength_of_isDigit hds] at hcovers ⊢
    exact ⟨rest, hcovers.cons hne, fun hf => hrest (List.forall_mem_cons.1 hf).2⟩
  | @outOfRange i ds cs hne hds =>
    rw [← byteLength_of_isDigit hds]
    refine ⟨cs, (Covers.rest cs).cons hne, fun hf => ?_⟩
    cases hf _ List.mem_cons_self
  | @operator i cs ts k _ ih =>
    obtain ⟨rest, hcovers, hrest⟩ := ih
    have hsize : byteLength [k.char] = 1 := k.utf8Size_char
    rw [← hsize] at hcovers ⊢
    exact ⟨rest, hcovers.cons (by simp), fun hf => hrest (List.forall_mem_cons.1 hf).2⟩
  | opening _ ih | closing _ ih =>
    obtain ⟨rest, hcovers, hrest⟩ := ih
    have hne : ∀ c : Char, [c] ≠ [] := by simp
    exact ⟨rest, hcovers.cons (hne _), fun hf => hrest (List.forall_mem_cons.1 hf).2⟩
  | @unexpected i c cs =>
    have hsize : byteLength [c] = c.utf8Size := by simp
    have hne : [c] ≠ [] := by simp
    rw [← hsize]
    refine ⟨cs, (Covers.rest cs).cons hne, fun hf => ?_⟩
    cases hf _ List.mem_cons_self

/-- Each span starts where the one before it stops, or later. -/
theorem Covers.pairwise (h : Covers source i cs ss rest) :
    (∀ s ∈ ss, i ≤ s.start) ∧ ss.Pairwise fun a b => a.start < b.start ∧ a.stop ≤ b.start := by
  induction h with
  | rest => exact ⟨by simp, .nil⟩
  | @word i gap ds cs rest ss hgap hne _ ih =>
    have hpos := byteLength_pos hne
    obtain ⟨hle, hpairs⟩ := ih
    refine ⟨List.forall_mem_cons.2 ⟨by simp only; omega, ?_⟩, List.pairwise_cons.2 ⟨?_, hpairs⟩⟩
    · intro s hs
      have := hle s hs
      omega
    · intro s hs
      have := hle s hs
      simp only
      omega

/-- The gaps are blank, and with the words they make up all but the rest. -/
theorem Covers.exists_blanks (h : Covers source i cs ss rest) (pre : List Char)
    (hs : source.chars = pre ++ cs) (hi : byteLength pre = i) :
    ∃ blanks, List.Forall₂ (fun e gap => slice? source.chars e.start e.stop = some gap)
        (gaps i ss) blanks ∧
      (∀ gap ∈ blanks, ∀ c ∈ gap, isBlank c = true) ∧ weave blanks ss ++ rest = cs ∧
      i + byteLength (weave blanks ss) = lastStop i ss := by
  induction h generalizing pre with
  | rest cs => exact ⟨[], .nil, by simp, rfl, rfl⟩
  | @word i gap ds cs rest ss hgap hne _ ih =>
    subst hi
    have hsplit : source.chars = pre ++ gap ++ ds ++ cs := by simpa using hs
    obtain ⟨blanks, hslices, hblank, hweave, hstop⟩ :=
      ih (pre ++ gap ++ ds) hsplit (by rw [byteLength_append, byteLength_append])
    have hslice : slice? source.chars (byteLength pre) (byteLength pre + byteLength gap) =
        some gap := by
      rw [hs, List.append_assoc]
      exact slice?_append
    have htext := Span.text_eq hsplit
    rw [byteLength_append] at htext
    have hcons : weave (gap :: blanks) (⟨source, byteLength pre + byteLength gap,
        byteLength pre + byteLength gap + byteLength ds⟩ :: ss) =
          gap ++ ds ++ weave blanks ss := by
      simp [weave, htext]
    refine ⟨gap :: blanks, .cons hslice hslices, List.forall_mem_cons.2 ⟨hgap, hblank⟩, ?_, ?_⟩
    · rw [hcons, List.append_assoc, hweave]
    · rw [hcons, byteLength_append, byteLength_append, ← Nat.add_assoc, ← Nat.add_assoc, hstop]
      rfl

theorem covers_tokenize (text : String) :
    ∃ rest, Covers (Source.ofText "<input>" text) 0 text.toList
        ((tokenize text).filterMap Token.span?) rest ∧
      ((∀ t ∈ tokenize text, t.isFault = false) → ∀ c ∈ rest, isBlank c = true) := by
  by_cases hne : text = ""
  · subst hne
    rw [tokenize_empty]
    exact ⟨[], .rest [], by simp⟩
  · exact (lexes_tokenize hne).covers

/-- Only the last token can be a fault. -/
theorem isFault_of_getLast? {text : String}
    (h : ∀ e, (tokenize text).getLast? ≠ some (.fault e)) :
    ∀ t ∈ tokenize text, t.isFault = false := by
  by_cases hne : text = ""
  · simp [hne, tokenize_empty]
  · obtain ⟨us, u, hts, hus, hu⟩ := ends_tokenize hne
    rw [hts] at h ⊢
    intro t ht
    rcases List.mem_append.1 ht with ht | ht
    · exact (hus t ht).1
    · cases List.mem_singleton.1 ht
      cases u with
      | fault e => exact absurd (by simp) (h e)
      | _ => rfl

theorem Span.IsWordOf.bounds {s : Span} (h : s.IsWordOf source) :
    s.source = source ∧ s.start < s.stop ∧ s.stop ≤ source.byteLength ∧
      isBoundary source.chars s.start = true ∧ isBoundary source.chars s.stop = true := by
  obtain ⟨pre, ds, post, hchars, hne, _, rfl⟩ := h
  have hpos := byteLength_pos hne
  refine ⟨rfl, by simp only; omega, ?_, ?_, ?_⟩
  · simp only [Source.byteLength, hchars, byteLength_append]
    omega
  · rw [hchars, List.append_assoc]
    exact isBoundary_append
  · rw [hchars, ← byteLength_append]
    exact isBoundary_append

/-- The spans of a text are non-empty stretches of whole characters, and no two of them overlap. All
that stands before or between them is blank. Gaps and tokens by turns give the text back, up to the
end of the last token. What follows that is blank too, unless a fault ends the tokens. -/
theorem tokenize_covers (text : String) :
    let source := Source.ofText "<input>" text
    let spans := (tokenize text).filterMap Token.span?
    (∀ s ∈ spans, s.source = source ∧ s.start < s.stop ∧ s.stop ≤ source.byteLength ∧
      isBoundary source.chars s.start = true ∧ isBoundary source.chars s.stop = true) ∧
    spans.Pairwise (fun a b => a.start < b.start ∧ a.stop ≤ b.start) ∧
    ∃ blanks rest,
      List.Forall₂ (fun e gap => slice? source.chars e.start e.stop = some gap)
        (gaps 0 spans) blanks ∧
      (∀ gap ∈ blanks, ∀ c ∈ gap, isBlank c = true) ∧
      weave blanks spans ++ rest = text.toList ∧
      byteLength (weave blanks spans) = lastStop 0 spans ∧
      ((∀ e, (tokenize text).getLast? ≠ some (.fault e)) → ∀ c ∈ rest, isBlank c = true) := by
  intro source spans
  obtain ⟨rest, hcovers, hrest⟩ := covers_tokenize text
  obtain ⟨blanks, hslices, hblank, hweave, hstop⟩ := hcovers.exists_blanks [] rfl rfl
  rw [Nat.zero_add] at hstop
  refine ⟨?_, hcovers.pairwise.2, blanks, rest, hslices, hblank, hweave, hstop,
    fun h => hrest (isFault_of_getLast? h)⟩
  intro s hs
  obtain ⟨t, ht, hspan⟩ := List.mem_filterMap.1 hs
  exact (isWordOf_of_mem_tokenize ht hspan).bounds

end Reckon
