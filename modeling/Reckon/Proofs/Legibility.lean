import Reckon.Proofs.Blame
import Reckon.Proofs.RoundTrip

/-! What is shown of valid spans is there to be shown, but a document may hold spans that are not
valid. -/

namespace Reckon

open Text

/-- The span was made as spans are to be made, of a source made from a text. -/
def Span.IsMade (s : Span) : Prop :=
  ∃ name content serial,
    new? { Source.ofText name content with serial } s.start s.stop = some s

def Token.IsMade (t : Token) : Prop := ∀ s, t.span? = some s → s.IsMade

variable {s : Span} {source : Source} {ts us : List Token} {t : Token} {f : Failure} {j : Json}

theorem Span.isValid_iff_isMade : s.IsValid ↔ s.IsMade := by
  rw [isValid_iff]
  constructor
  · rintro ⟨hnew, hlines⟩
    have hsource : s.source = { Source.ofText s.source.name s.source.content with
        serial := s.source.serial } :=
      congrArg (Source.mk s.source.name s.source.content · s.source.serial) hlines
    refine ⟨s.source.name, s.source.content, s.source.serial, ?_⟩
    rw [← hsource]
    exact hnew
  · rintro ⟨name, content, serial, hnew⟩
    have hsource : s.source = { Source.ofText name content with serial } := by
      unfold new? at hnew
      split at hnew
      · exact congrArg Span.source (Option.some.inj hnew).symm
      · cases hnew
    rw [hsource]
    exact ⟨hnew, rfl⟩

theorem Token.isValid_iff_isMade : t.IsValid ↔ t.IsMade :=
  forall₂_congr fun _ _ => Span.isValid_iff_isMade

theorem Span.IsValid.unnumbered (h : s.IsValid) : s.unnumbered.IsValid :=
  ⟨h.ordered, h.within, h.starts, h.stops, h.lines⟩

theorem Token.IsValid.unnumbered (h : t.IsValid) : t.unnumbered.IsValid := by
  intro s hs
  rw [Token.unnumbered, span?_mapSpan] at hs
  obtain ⟨s', hs', rfl⟩ := Option.map_eq_some_iff.1 hs
  exact (h s' hs').unnumbered

theorem Span.IsValid.exists_text (h : s.IsValid) : ∃ x, s.text? = some x := by
  have hslice := slice?_isSome_iff.2 ⟨h.ordered, h.starts, h.stops⟩
  obtain ⟨ds, hds⟩ := Option.isSome_iff_exists.1 hslice
  exact ⟨String.ofList ds, by rw [text?, hds, Option.map_some]⟩

/-- The lines of a text are parts of it. -/
theorem Source.isReadableAt_of_lines (h : source.lines = Lines.ofText source.chars) (i : Nat) :
    source.isReadableAt i = true := by
  obtain ⟨ls, hs, hl⟩ := Lines.exists_splits source.chars
  rw [← h] at hl
  unfold isReadableAt
  split
  · next k hk =>
    obtain ⟨e, he, _⟩ := Lines.exists_of_index? hk
    rw [hl, Lines.getElem?_stretches] at he
    obtain ⟨l, hline, _⟩ := Option.map_eq_some_iff.1 he
    rw [line?_eq hs hl hline]
    rfl
  · rfl

theorem Span.IsValid.isLegible (h : s.IsValid) : s.isLegible = true := by
  obtain ⟨x, hx⟩ := h.exists_text
  rw [Span.isLegible, hx, Source.isReadableAt_of_lines h.lines]
  rfl

theorem Token.IsValid.isLegible (h : t.IsValid) : t.isLegible = true := by
  unfold Token.isLegible
  cases hs : t.span? with
  | none => rfl
  | some s => exact (h s hs).isLegible

theorem exists_mem_of_foldlM_error {c : Calculator} (h : ts.foldlM Calculator.accept c = .error f)
    (hs : f.span? = some s) : ∃ t ∈ ts, t.span? = some s := by
  obtain ⟨t, ht, c', hc⟩ := Calculator.exists_of_foldlM_error h
  refine ⟨t, ht, ?_⟩
  cases Calculator.rejects_of_accept hc with
  | operator hf => rcases hf with rfl | rfl | rfl <;> exact hs
  | parenthesis | fault => exact hs
  | emptyExpression | expectedOperator => cases hs

/-- A failure with a span has it from one of the tokens. -/
theorem exists_mem_of_evaluate (h : (evaluate ts).1 = .error f) (hs : f.span? = some s) :
    ∃ t ∈ ts, t.span? = some s := by
  rw [evaluate_fst, toList_list] at h
  rcases hfold : ts.foldlM Calculator.accept {} with g | c
  · rw [hfold] at h
    cases h
    exact exists_mem_of_foldlM_error hfold hs
  · rw [hfold] at h
    rcases c with ⟨_ | ⟨v, rest⟩⟩
    · cases h
      cases hs
    · cases h

theorem exists_mem_of_evaluate_rpn (h : (evaluate (Rpn.ofStream ts)).1 = .error f)
    (hs : f.span? = some s) : ∃ t ∈ ts, t.span? = some s := by
  rw [← evaluate_toList] at h
  obtain ⟨t, ht, hspan⟩ := exists_mem_of_evaluate h hs
  exact exists_mem_of_mem_toRpn ht hspan

/-- What was read is valid exactly if it can be had by writing tokens with well made spans. Then all
that is shown of the tokens is there to be shown, and so is what a failure to evaluate them shows,
whether they are reordered before or not. -/
theorem legible_of_readTokens (h : readTokens? j = some ts) :
    ((∀ t ∈ ts, t.IsValid) ↔
      ∃ us, Obtained us ∧ (∀ t ∈ us, t.IsMade) ∧ readTokens? (writeTokens us) = some ts) ∧
    ((∀ t ∈ ts, t.IsValid) →
      (∀ t ∈ ts, t.isLegible = true) ∧
      ∀ f s, (evaluate ts).1 = .error f ∨ (evaluate (Rpn.ofStream ts)).1 = .error f →
        f.span? = some s → s.isLegible = true) := by
  refine ⟨⟨fun hv => ?_, ?_⟩, fun hv => ⟨fun t ht => (hv t ht).isLegible, ?_⟩⟩
  · obtain ⟨ha, hu⟩ := of_readTokens? h
    refine ⟨ts, .read h, fun t ht => Token.isValid_iff_isMade.1 (hv t ht), ?_⟩
    rw [readTokens?_writeTokens ha, hu]
  · rintro ⟨us, hus, hmade, hread⟩
    rw [readTokens?_writeTokens hus.isAddressable] at hread
    cases hread
    intro t ht
    obtain ⟨u, hu, rfl⟩ := List.mem_map.1 ht
    exact (Token.isValid_iff_isMade.2 (hmade u hu)).unnumbered
  · rintro f s hf hs
    have hmem : ∃ t ∈ ts, t.span? = some s := by
      rcases hf with hf | hf
      · exact exists_mem_of_evaluate hf hs
      · exact exists_mem_of_evaluate_rpn hf hs
    obtain ⟨t, ht, hspan⟩ := hmem
    exact (hv t ht s hspan).isLegible

theorem legible_of_readTokens_quotient :
    let ts := (tokenize "2/(1-1)").map Token.unnumbered
    readTokens? (writeTokens (tokenize "2/(1-1)")) = some ts ∧ (∀ t ∈ ts, t.isLegible = true) ∧
      ∀ f s, (evaluate ts).1 = .error f ∨ (evaluate (Rpn.ofStream ts)).1 = .error f →
        f.span? = some s → s.isLegible = true := by
  intro ts
  have hscanned : Obtained (tokenize "2/(1-1)") := .scanned (by decide)
  have hread := readTokens?_writeTokens hscanned.isAddressable
  have hvalid : ∀ t ∈ ts, t.IsValid := by
    intro t ht
    obtain ⟨u, hu, rfl⟩ := List.mem_map.1 ht
    exact (isValid_of_mem_tokenize hu).unnumbered
  exact ⟨hread, (legible_of_readTokens hread).2 hvalid⟩

/-- A span of five bytes of a source that has only one. -/
theorem readTokens_past_end :
    let source := Source.ofText "<input>" "1"
    let j := Json.array [.object [("Number", .object [
      ("span", .object [("start", .integer 0), ("end", .integer 5),
        ("source_file", .object [("identifier", .string "<input>"), ("content", .string "1"),
          ("lines", .array [.object [("start", .integer 0), ("end", .integer 1)]])])]),
      ("value", .integer 1)])]]
    readTokens? j = some [.number ⟨⟨source, 0, 5⟩, 1⟩] ∧ ¬ Span.IsValid ⟨source, 0, 5⟩ ∧
      Span.text? ⟨source, 0, 5⟩ = none := by
  refine ⟨rfl, fun h => ?_, rfl⟩
  exact absurd h.within (by decide)

end Reckon
