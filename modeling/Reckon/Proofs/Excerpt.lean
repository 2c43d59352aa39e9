import Mathlib.Data.List.TakeWhile
import Reckon.Diagnostic
import Reckon.Proofs.Legibility

/-! An excerpt shows the line of its span, and its marks stand under the span and nothing else. -/

namespace Reckon

open Text

/-- What stands before, between and after the line feeds of a text. -/
def rows (text : String) : List (List Char) := text.toList.splitOn '\n'

/-- The first marks in a row. -/
def marks (row : List Char) : List Char := (row.drop (row.idxOf '^')).takeWhile (· = '^')

/-- The characters of a row in the columns of the marks below it. -/
def marked (row below : List Char) : List Char :=
  (row.drop (below.idxOf '^')).take (marks below).length

/-- The first bar in a row stands in column `w`, counted from zero. -/
def BarAt (w : Nat) (row : List Char) : Prop := row[w]? = some '|' ∧ '|' ∉ row.take w

/-- The rows of an excerpt: the place, a frame, the line behind its number, and `width` marks. -/
def layout (name : String) (place : Location) (line : List Char) (width : Nat)
    (help? : Option String) : List (List Char) :=
  let number := (writeNatural place.line).toList
  let gutter := List.replicate number.length ' '
  [gutter ++ "--> ".toList ++ name.toList ++ ':' :: number ++
      ':' :: (writeNatural place.column).toList,
    gutter ++ " |".toList,
    number ++ " | ".toList ++ line,
    gutter ++ " | ".toList ++ List.replicate (place.column - 1) ' ' ++
      List.replicate width '^' ++ help?.elim [] (' ' :: ·.toList)]

variable {span : Span} {source : Source} {help? : Option String} {place : Location}
  {pre post ds line brk cs l before after : List Char} {ls : List (List Char)} {i j k n : Nat}

/-- A line is a text without breaks and then at most one break. -/
theorem Lines.Splits.exists_break (h : Splits cs ls) (hk : ls[k]? = some l) :
    ∃ line brk, l = line ++ brk ∧ Unbroken line ∧
      brk ∈ [[], ['\n'], ['\r', '\n'], ['\r']] := by
  induction h generalizing k with
  | last h =>
    cases k with
    | zero =>
      cases hk
      exact ⟨_, [], (List.append_nil _).symm, h, by simp⟩
    | succ k => simp at hk
  | line h hb _ ih =>
    cases k with
    | zero =>
      cases hk
      exact ⟨_, _, rfl, h, by cases hb <;> simp⟩
    | succ k => exact ih hk

theorem mem_break {c : Char} (h : brk ∈ [[], ['\n'], ['\r', '\n'], ['\r']]) (hc : c ∈ brk) :
    c = '\n' ∨ c = '\r' := by
  simp only [List.mem_cons, List.not_mem_nil, or_false] at h
  rcases h with rfl | rfl | rfl | rfl
  · cases hc
  · exact Or.inl (List.mem_singleton.1 hc)
  · simpa [or_comm] using hc
  · exact Or.inr (List.mem_singleton.1 hc)

theorem withoutBreak_eq {text : String} (ht : text.toList = line ++ brk)
    (h : Lines.Unbroken line) (hb : ∀ c ∈ brk, c = '\n' ∨ c = '\r') :
    withoutBreak text = String.ofList line := by
  have hdrop : (line ++ brk).reverse.dropWhile (fun c => c = '\n' ∨ c = '\r') = line.reverse := by
    rw [List.reverse_append, List.dropWhile_append_of_pos (by simpa using hb)]
    refine List.dropWhile_eq_self_iff.2 fun hl => ?_
    have hmem := h _ (List.mem_reverse.1 (List.getElem_mem hl))
    simpa only [decide_eq_true_eq] using not_or.2 hmem
  rw [withoutBreak, ht, hdrop, List.reverse_reverse]

/-- A piece without breaks lies in front of the break that ends its line. -/
theorem exists_rest_of_unbroken (hd : Lines.Unbroken ds) (hne : ds ≠ [])
    (hb : ∀ c ∈ brk, c = '\n' ∨ c = '\r') (h : before ++ ds ++ after = line ++ brk) :
    ∃ rest, line = before ++ ds ++ rest := by
  rcases List.append_eq_append_iff.1 h with ⟨xs, hline, _⟩ | ⟨xs, hxs, hbrk⟩
  · exact ⟨xs, hline⟩
  · obtain rfl | ⟨ys, c, rfl⟩ := List.eq_nil_or_concat xs
    · exact ⟨[], by simpa using hxs.symm⟩
    · -- The last character of the piece would belong to the break.
      obtain ⟨zs, d, rfl⟩ := (List.eq_nil_or_concat ds).resolve_left hne
      have hlast := congrArg List.getLast? hxs
      simp only [List.concat_eq_append, ← List.append_assoc, List.getLast?_concat,
        Option.some.injEq] at hlast
      subst hlast
      have hmem : d ∈ brk := by simp [hbrk]
      exact (not_or.2 (hd d (by simp)) (hb d hmem)).elim

theorem not_mem_writeNatural {c : Char} (hc : c.isDigit = false) (n : Nat) :
    c ∉ (writeNatural n).toList := by
  intro h
  rw [writeNatural, String.toList_ofList] at h
  have := Nat.isDigit_of_mem_toDigits (by decide) (by decide) h
  simp [hc] at this

theorem toList_excerpt {text : String} (hplace : span.location? = some place)
    (hline : span.source.line? place.line = some text) (ht : text.toList = line ++ brk)
    (hl : Lines.Unbroken line) (hb : ∀ c ∈ brk, c = '\n' ∨ c = '\r') :
    (excerpt false span help?).toList = ['\n'].intercalate
      (layout span.source.name place line (max 1 span.text.length) help?) := by
  have hhint : (help?.elim "" (" " ++ ·)).toList = help?.elim [] (' ' :: ·.toList) := by
    cases help? <;> simp
  simp [excerpt, hplace, hline, withoutBreak_eq ht hl hb, paint, spaces, hhint, layout,
    String.length_toList]

/-- Only what the rows are given could break them. -/
theorem not_mem_layout {name : String} (hname : '\n' ∉ name.toList) (hl : Lines.Unbroken line)
    (hhelp : ∀ help ∈ help?, '\n' ∉ help.toList) :
    ∀ row ∈ layout name place line n help?, '\n' ∉ row := by
  have hnumber := not_mem_writeNatural (c := '\n') rfl
  have hline : '\n' ∉ line := fun h => (hl _ h).1 rfl
  have hhint : '\n' ∉ help?.elim [] (' ' :: ·.toList) := by
    cases help? with
    | none => exact List.not_mem_nil
    | some help => simpa using hhelp help rfl
  simp [layout, hnumber, hname, hline, hhint]

/-- Without colors, an excerpt is four rows. -/
theorem rows_excerpt {text : String} (hplace : span.location? = some place)
    (hline : span.source.line? place.line = some text) (ht : text.toList = line ++ brk)
    (hl : Lines.Unbroken line) (hb : ∀ c ∈ brk, c = '\n' ∨ c = '\r')
    (hname : '\n' ∉ span.source.name.toList) (hhelp : ∀ help ∈ help?, '\n' ∉ help.toList) :
    rows (excerpt false span help?) =
      layout span.source.name place line (max 1 span.text.length) help? := by
  rw [rows, toList_excerpt hplace hline ht hl hb]
  exact List.splitOn_intercalate '\n' (not_mem_layout hname hl hhelp) (by simp [layout])

theorem barAt_append (h : '|' ∉ before) (after : List Char) :
    BarAt before.length (before ++ '|' :: after) := by
  constructor
  · simp
  · simpa using h

theorem idxOf_marks (hb : '^' ∉ before) (hn : 0 < n) (after : List Char) :
    (before ++ List.replicate n '^' ++ after).idxOf '^' = before.length := by
  obtain ⟨n, rfl⟩ := Nat.exists_eq_succ_of_ne_zero (Nat.ne_of_gt hn)
  simp [List.replicate_succ, List.idxOf_append_of_notMem hb]

theorem marks_eq (hb : '^' ∉ before) (hn : 0 < n) (ha : after.head? ≠ some '^') :
    marks (before ++ List.replicate n '^' ++ after) = List.replicate n '^' := by
  have hafter : after.takeWhile (· = '^') = [] := by
    cases after with
    | nil => rfl
    | cons c after =>
      have hc : c ≠ '^' := by simpa using ha
      simp [hc]
  have hmarks : ∀ c ∈ List.replicate n '^', decide (c = '^') = true := by simp
  rw [marks, idxOf_marks hb hn, List.append_assoc, List.drop_left' rfl,
    List.takeWhile_append_of_pos hmarks, hafter, List.append_nil]

theorem barAt_layout (name : String) (place : Location) (line : List Char) (n : Nat)
    (help? : Option String) :
    ∀ row ∈ (layout name place line n help?).tail,
      BarAt ((writeNatural place.line).toList.length + 1) row := by
  have hnumber : '|' ∉ (writeNatural place.line).toList ++ [' '] := by
    simpa using not_mem_writeNatural (c := '|') rfl place.line
  have hgutter : '|' ∉ List.replicate (writeNatural place.line).toList.length ' ' ++ [' '] := by
    simp
  refine List.forall_mem_cons.2 ⟨?_, List.forall_mem_cons.2 ⟨?_, List.forall_mem_singleton.2 ?_⟩⟩
  · simpa using barAt_append hgutter []
  · simpa using barAt_append hnumber (' ' :: line)
  · simpa using barAt_append hgutter (' ' :: (List.replicate (place.column - 1) ' ' ++
      (List.replicate n '^' ++ help?.elim [] (' ' :: ·.toList))))

/-- The marks begin in the column of what they stand under, and are as many. -/
theorem marked_layout (name : String) (hcolumn : place.column = before.length + 1) (hne : ds ≠ [])
    (rest : List Char) (help? : Option String) :
    ∃ header rule code under,
      layout name place (before ++ ds ++ rest) ds.length help? = [header, rule, code, under] ∧
      code = (writeNatural place.line).toList ++ " | ".toList ++ (before ++ ds ++ rest) ∧
      (marks under).length = ds.length ∧ marked code under = ds := by
  refine ⟨_, _, _, _, rfl, rfl, ?_⟩
  have hhint : (help?.elim [] (' ' :: ·.toList)).head? ≠ some '^' := by
    cases help? <;> simp
  have hbefore : '^' ∉ List.replicate (writeNatural place.line).toList.length ' ' ++
      " | ".toList ++ List.replicate (place.column - 1) ' ' := by
    simp
  have hpos := List.length_pos_iff.2 hne
  have hmarks := marks_eq hbefore hpos hhint
  refine ⟨by rw [hmarks, List.length_replicate], ?_⟩
  rw [marked, hmarks, idxOf_marks hbefore hpos, List.length_replicate]
  have hsplit : (writeNatural place.line).toList ++ " | ".toList ++ (before ++ ds ++ rest) =
      (writeNatural place.line).toList ++ " | ".toList ++ before ++ (ds ++ rest) := by simp
  rw [hsplit, List.drop_left' (by simp [hcolumn]), List.take_left' rfl]

theorem Span.IsValid.exists_split (h : span.IsValid) :
    ∃ pre ds post, span.source.chars = pre ++ ds ++ post ∧
      span = ⟨span.source, byteLength pre, byteLength pre + byteLength ds⟩ := by
  obtain ⟨source, i, j⟩ := span
  obtain ⟨pre, rest, hchars, rfl⟩ := exists_append_of_isBoundary h.starts
  obtain ⟨ds, hds⟩ := Option.isSome_iff_exists.1
    (slice?_isSome_iff.2 ⟨h.ordered, h.starts, h.stops⟩)
  simp only at hchars hds
  rw [hchars] at hds
  obtain ⟨post, rfl, rfl⟩ := eq_append_of_slice? hds
  exact ⟨pre, ds, post, by simp [hchars], by simp⟩

theorem Span.IsValid.text_ne_nil (hv : span.IsValid) (hlt : span.start < span.stop) :
    span.text.toList ≠ [] := by
  obtain ⟨pre, ds, post, hchars, hspan⟩ := hv.exists_split
  generalize span.source = source at *
  subst hspan
  rw [Span.text_eq hchars, String.toList_ofList]
  rintro rfl
  simp at hlt

/-- Something without breaks is found on a line that falls into what stands in front of it, the
thing itself, what follows it, and the break. -/
theorem Span.IsValid.exists_line (hv : span.IsValid) (hlt : span.start < span.stop)
    (hunbroken : Lines.Unbroken span.text.toList) :
    ∃ k e before rest brk, span.location? = some ⟨k + 1, before.length + 1⟩ ∧
      span.source.lines[k]? = some e ∧ e.start ≤ span.start ∧ span.stop ≤ e.stop ∧
      span.source.line? (k + 1) =
        some (String.ofList (before ++ span.text.toList ++ rest ++ brk)) ∧
      Lines.Unbroken (before ++ span.text.toList ++ rest) ∧
      brk ∈ [[], ['\n'], ['\r', '\n'], ['\r']] := by
  obtain ⟨pre, ds, post, hchars, hspan⟩ := hv.exists_split
  generalize span.source = source at *
  subst hspan
  have htext := Span.text_eq hchars
  have hne := hv.text_ne_nil hlt
  rw [htext, String.toList_ofList] at hunbroken hne ⊢
  obtain ⟨ls, hs, hl⟩ := Lines.exists_splits source.chars
  rw [← hv.lines] at hl
  obtain ⟨k, _, before, after, hk, rfl, rfl⟩ := hs.exists_line hchars hunbroken
  obtain ⟨line, brk, hline, hu, hbrk⟩ := hs.exists_break hk
  obtain ⟨rest, rfl⟩ := exists_rest_of_unbroken hunbroken hne (fun _ => mem_break hbrk) hline
  refine ⟨k, _, before, rest, brk, ?_, Source.lines_eq_of_line hl hk, ?_, ?_, ?_, hu, hbrk⟩
  · rw [List.append_assoc] at hk
    exact Source.location?_eq hs hl hk (by simp [hne])
  · simp
  · simp
    omega
  · rw [Source.line?_eq hs hl hk, hline]

/-- The excerpt of something that stands on one line is four rows. The bars that frame it stand in
one column. The third row shows the whole line behind its number, without the break that ends it.
The marks below stand under the span: as many as it has characters, in the columns of these. -/
theorem excerpt_marks (hmade : span.IsMade) (hlt : span.start < span.stop)
    (hunbroken : Lines.Unbroken span.text.toList) (hname : '\n' ∉ span.source.name.toList)
    (hhelp : ∀ help ∈ help?, '\n' ∉ help.toList) :
    ∃ header rule code under, rows (excerpt false span help?) = [header, rule, code, under] ∧
      (∃ w, ∀ row ∈ [rule, code, under], BarAt w row) ∧
      (∃ k e line brk, span.source.lines[k]? = some e ∧ e.start ≤ span.start ∧ span.stop ≤ e.stop ∧
        span.source.line? (k + 1) = some (String.ofList (line ++ brk)) ∧
        Lines.Unbroken line ∧ brk ∈ [[], ['\n'], ['\r', '\n'], ['\r']] ∧
        code = (writeNatural (k + 1)).toList ++ " | ".toList ++ line) ∧
      (marks under).length = span.text.length ∧ marked code under = span.text.toList := by
  have hv := Span.isValid_iff_isMade.2 hmade
  obtain ⟨k, e, before, rest, brk, hplace, he, hstart, hstop, hline, hu, hbrk⟩ :=
    hv.exists_line hlt hunbroken
  have hne : span.text.toList ≠ [] := hv.text_ne_nil hlt
  have hwidth : max 1 span.text.length = span.text.toList.length := by
    have hpos := List.length_pos_iff.2 hne
    rw [String.length_toList] at hpos ⊢
    omega
  have hrows := rows_excerpt hplace hline (String.toList_ofList ..) hu (fun _ => mem_break hbrk)
    hname hhelp
  have hbars := barAt_layout span.source.name ⟨k + 1, before.length + 1⟩
    (before ++ span.text.toList ++ rest) span.text.toList.length help?
  obtain ⟨header, rule, code, under, heq, hcode, hlength, hmarked⟩ :=
    @marked_layout ⟨k + 1, before.length + 1⟩ _ _ span.source.name rfl hne rest help?
  rw [hwidth, heq] at hrows
  rw [heq] at hbars
  rw [String.length_toList] at hlength
  exact ⟨header, rule, code, under, hrows, ⟨_, hbars⟩,
    ⟨k, e, _, brk, he, hstart, hstop, hline, hu, hbrk, hcode⟩, hlength, hmarked⟩

/-- The sign takes two bytes and one column, and neither the bar nor the caret in the excerpt is
taken for a part of the frame. -/
theorem excerpt_marks_quotient :
    let source := Source.ofText "<input>" "1+\r\n(÷2|\n"
    let span : Span := ⟨source, 5, 8⟩
    Span.new? source 5 8 = some span ∧ span.text = "÷2" ∧
    ∃ header rule code under,
      rows (excerpt false span (some "here ^")) = [header, rule, code, under] ∧
      (∃ w, ∀ row ∈ [rule, code, under], BarAt w row) ∧
      (∃ k e line brk, source.lines[k]? = some e ∧ e.start ≤ 5 ∧ 8 ≤ e.stop ∧
        source.line? (k + 1) = some (String.ofList (line ++ brk)) ∧
        Lines.Unbroken line ∧ brk ∈ [[], ['\n'], ['\r', '\n'], ['\r']] ∧
        code = (writeNatural (k + 1)).toList ++ " | ".toList ++ line) ∧
      (marks under).length = span.text.length ∧ marked code under = span.text.toList := by
  intro source span
  have hspan : Span.new? source 5 8 = some span := by decide +kernel
  have htext : span.text = "÷2" := by decide +kernel
  have hunbroken : Lines.Unbroken span.text.toList := by
    simp [htext, Lines.Unbroken]
  have hmade : span.IsMade := ⟨"<input>", "1+\r\n(÷2|\n", 0, hspan⟩
  exact ⟨hspan, htext, excerpt_marks hmade (by decide) hunbroken (by decide) (by simp)⟩

example :
    excerpt false ⟨Source.ofText "<input>" "1+\r\n(÷2|\n", 5, 8⟩ (some "here ^") =
      " --> <input>:2:2\n  |\n2 | (÷2|\n  |  ^^ here ^" := by
  decide +kernel

end Reckon
