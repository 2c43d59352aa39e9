import Mathlib.Data.List.Chain
import Reckon.Proofs.Lines

/-! The table of the lines of a text is the only one that cuts the text after each of its breaks and
nowhere else. -/

namespace Reckon

open Text

namespace Lines

/-- Stretches that follow one another from byte `i` of a text to its end. All but the last are lines
with the one break that ends them, and the last is a line without a break. -/
structure Tabulates (cs : List Char) (i : Nat) (es : List Extent) : Prop where
  first : es.head?.map Extent.start = some i
  last : es.getLast?.map Extent.stop = some (byteLength cs)
  contiguous : es.IsChain fun e e' => e'.start = e.stop
  boundaries : ∀ e ∈ es, isBoundary cs e.start = true ∧ isBoundary cs e.stop = true
  broken : ∀ e ∈ es.dropLast, ∃ l brk rest, slice? cs e.start e.stop = some (l ++ brk) ∧
    dropBytes? e.stop cs = some rest ∧ Unbroken l ∧ Break brk rest
  unbroken : ∀ e ∈ es.getLast?, ∃ l, slice? cs e.start e.stop = some l ∧ Unbroken l

variable {cs pre rest brk l : List Char} {ls : List (List Char)} {es : List Extent}
  {e e' : Extent} {c : Char} {i n start : Nat}

theorem cut_cons (h : ∀ ds, c = '\r' → cs ≠ '\n' :: ds) :
    cut start i (c :: cs) =
      if c = '\n' ∨ c = '\r' then ⟨start, i + 1⟩ :: cut (i + 1) (i + 1) cs
      else cut start (i + c.utf8Size) cs := by
  rw [cut]
  exact h

theorem cut_unbroken (h : Unbroken l) (start i : Nat) (cs : List Char) :
    cut start i (l ++ cs) = cut start (i + byteLength l) cs := by
  induction l generalizing i with
  | nil => rfl
  | cons c l ih =>
    obtain ⟨hc, hl⟩ := List.forall_mem_cons.1 h
    have hpass : cut start i (c :: (l ++ cs)) = cut start (i + c.utf8Size) (l ++ cs) := by
      rw [cut_cons fun _ hr => (hc.2 hr).elim, if_neg (not_or.2 hc)]
    simpa [Nat.add_assoc] using hpass.trans (ih hl _)

theorem cut_break (h : Break brk rest) (start i : Nat) :
    cut start i (brk ++ rest) =
      ⟨start, i + byteLength brk⟩ :: cut (i + byteLength brk) (i + byteLength brk) rest := by
  cases h with
  | feed => exact cut_cons nofun
  | pair =>
    have hsize : byteLength ['\r', '\n'] = 2 := rfl
    simp [cut, hsize]
  | carriage hrest =>
    refine cut_cons fun ds _ (hds : rest = '\n' :: ds) => hrest ?_
    simp [hds]

/-- However a text is split into lines, the lines stand where it is cut. -/
theorem Splits.cut_eq (h : Splits cs ls) (i : Nat) : cut i i cs = stretches i ls := by
  induction h generalizing i with
  | @last cs h => simpa [cut, stretches] using cut_unbroken h i i []
  | @line l brk rest ls h hb _ ih =>
    simp [stretches, cut_unbroken h, cut_break hb, ih, Nat.add_assoc]

@[simp] theorem length_stretches (i : Nat) (ls : List (List Char)) :
    (stretches i ls).length = ls.length := by
  induction ls generalizing i with
  | nil => rfl
  | cons l ls ih => simp [stretches, ih]

theorem Tabulates.singleton (h : Unbroken cs) (pre : List Char) :
    Tabulates (pre ++ cs) (byteLength pre) [⟨byteLength pre, byteLength (pre ++ cs)⟩] where
  first := rfl
  last := rfl
  contiguous := .singleton _
  boundaries := by
    intro e he
    cases List.mem_singleton.1 he
    have hstop := @isBoundary_append (pre ++ cs) []
    simp only [List.append_nil] at hstop
    exact ⟨isBoundary_append, hstop⟩
  broken := nofun
  unbroken := by
    rintro _ ⟨⟩
    have hslice := @slice?_append pre cs []
    simp only [List.append_nil] at hslice
    exact ⟨cs, by simpa using hslice, h⟩

/-- A line and its break in front of the other lines. -/
theorem Tabulates.cons (h : Unbroken l) (hb : Break brk rest)
    (ht : Tabulates (pre ++ (l ++ brk ++ rest)) (byteLength (pre ++ (l ++ brk))) es) :
    Tabulates (pre ++ (l ++ brk ++ rest)) (byteLength pre)
      (⟨byteLength pre, byteLength (pre ++ (l ++ brk))⟩ :: es) := by
  have hne : es ≠ [] := by
    rintro rfl
    cases ht.first
  have hlast : ∀ e : Extent, (e :: es).getLast? = es.getLast? := by
    intro e
    obtain ⟨e', es, rfl⟩ := List.exists_cons_of_ne_nil hne
    exact List.getLast?_cons_cons
  have hsplit : pre ++ (l ++ brk ++ rest) = pre ++ (l ++ brk) ++ rest := by simp
  have hdrop : dropBytes? (byteLength (pre ++ (l ++ brk))) (pre ++ (l ++ brk ++ rest)) =
      some rest := by
    rw [hsplit]
    exact dropBytes?_append
  refine ⟨rfl, ?_, ?_, ?_, ?_, ?_⟩
  · rw [hlast]
    exact ht.last
  · refine ht.contiguous.cons ?_
    intro e he
    simpa [Option.mem_def.1 he] using ht.first
  · refine List.forall_mem_cons.2 ⟨⟨isBoundary_append, ?_⟩, ht.boundaries⟩
    rw [isBoundary, hdrop]
    rfl
  · rw [List.dropLast_cons_of_ne_nil hne]
    refine List.forall_mem_cons.2 ⟨⟨l, brk, rest, ?_, hdrop, h, hb⟩, ht.broken⟩
    rw [byteLength_append]
    exact slice?_append
  · rw [hlast]
    exact ht.unbroken

theorem Splits.tabulates (h : Splits cs ls) (pre : List Char) :
    Tabulates (pre ++ cs) (byteLength pre) (stretches (byteLength pre) ls) := by
  induction h generalizing pre with
  | @last cs h => simpa [stretches] using Tabulates.singleton h pre
  | @line l brk rest ls h hb _ ih =>
    have htail := ih (pre ++ (l ++ brk))
    rw [List.append_assoc] at htail
    simpa [stretches] using Tabulates.cons h hb htail

theorem Tabulates.tail (h : Tabulates cs i (e :: e' :: es)) : Tabulates cs e.stop (e' :: es) where
  first := by simpa using (List.isChain_cons_cons.1 h.contiguous).1
  last := by simpa using h.last
  contiguous := (List.isChain_cons_cons.1 h.contiguous).2
  boundaries := (List.forall_mem_cons.1 h.boundaries).2
  broken := (List.forall_mem_cons.1 h.broken).2
  unbroken := by simpa using h.unbroken

/-- Every table lists lines into which the text is split. -/
theorem Tabulates.exists_splits (h : Tabulates (pre ++ cs) (byteLength pre) es) :
    ∃ ls, Splits cs ls ∧ es = stretches (byteLength pre) ls := by
  induction es generalizing pre cs with
  | nil => cases h.first
  | cons e es ih =>
    obtain ⟨first, stop⟩ := e
    obtain rfl : first = byteLength pre := by simpa using h.first
    cases es with
    | nil =>
      obtain rfl : stop = byteLength (pre ++ cs) := by simpa using h.last
      obtain ⟨l, hslice, hl⟩ := h.unbroken ⟨_, byteLength (pre ++ cs)⟩ rfl
      obtain ⟨post, rfl, hstop⟩ := eq_append_of_slice? hslice
      obtain rfl : post = [] := by
        by_contra hne
        have hpos := byteLength_pos hne
        simp only [byteLength_append] at hstop
        omega
      exact ⟨[l], by simpa using Splits.last hl, by simp [stretches]⟩
    | cons e' es =>
      obtain ⟨l, brk, rest, hslice, hdrop, hl, hb⟩ := h.broken _ List.mem_cons_self
      obtain ⟨post, rfl, rfl⟩ := eq_append_of_slice? hslice
      have hsplit : pre ++ (l ++ brk ++ post) = pre ++ (l ++ brk) ++ post := by simp
      have htail := h.tail
      rw [hsplit] at hdrop htail
      cases dropBytes?_append.symm.trans hdrop
      obtain ⟨ls, hs, heq⟩ := ih htail
      exact ⟨(l ++ brk) :: ls, .line hl hb hs, by simp [stretches, heq]⟩

theorem tabulates_iff : Tabulates cs 0 es ↔ es = ofText cs := by
  constructor
  · intro h
    obtain ⟨ls, hs, rfl⟩ := @Tabulates.exists_splits cs [] es h
    exact (hs.cut_eq 0).symm
  · rintro rfl
    obtain ⟨ls, hs, hl⟩ := exists_splits cs
    rw [hl]
    exact hs.tabulates []

end Lines

namespace Source

variable {source : Source} {ls : List (List Char)}

theorem line?_succ (hs : Lines.Splits source.chars ls) (hl : source.lines = Lines.stretches 0 ls)
    (k : Nat) : source.line? (k + 1) = (ls.map String.ofList)[k]? := by
  cases hk : ls[k]? with
  | none =>
    have hnone : source.lines[k]? = none := by simp [hl, Lines.getElem?_stretches, hk]
    simp [line?, hnone, hk]
  | some l => simpa [hk] using line?_eq hs hl hk

/-- What the table lists can be cut out of the text. -/
theorem exists_slice_of_lines (hs : Lines.Splits source.chars ls)
    (hl : source.lines = Lines.stretches 0 ls) {k : Nat} {e : Extent}
    (he : source.lines[k]? = some e) :
    ∃ l, slice? source.chars e.start e.stop = some l ∧
      source.line? (k + 1) = some (String.ofList l) := by
  cases hk : ls[k]? with
  | none => simp [hl, Lines.getElem?_stretches, hk] at he
  | some l =>
    refine ⟨l, ?_, line?_eq hs hl hk⟩
    cases (lines_eq_of_line hl hk).symm.trans he
    simp [chars_eq_of_line hs hk]

end Source

/-- The table of a source tabulates its text, and no other table does. All that it lists can be cut
out of the text, a line has a number exactly if it is listed, and the lines in order make up the
text. -/
theorem lines_tabulate (name content : String) :
    let source := Source.ofText name content
    (∀ es, Lines.Tabulates source.chars 0 es ↔ es = source.lines) ∧
    (∀ k e, source.lines[k]? = some e → ∃ l, slice? source.chars e.start e.stop = some l ∧
      source.line? (k + 1) = some (String.ofList l)) ∧
    (∀ n, source.line? n = none ↔ n = 0 ∨ source.lines.length < n) ∧
    ∃ ls : List String, (∀ k, source.line? (k + 1) = ls[k]?) ∧
      ls.flatMap String.toList = source.chars := by
  intro source
  obtain ⟨ls, hs, hl⟩ := Source.exists_splits name content
  have hline := Source.line?_succ hs hl
  have hlength : source.lines.length = ls.length := by simp [source, hl]
  refine ⟨fun es => Lines.tabulates_iff, fun k e => Source.exists_slice_of_lines hs hl, ?_,
    ls.map String.ofList, hline, ?_⟩
  · intro n
    cases n with
    | zero => exact ⟨fun _ => Or.inl rfl, fun _ => rfl⟩
    | succ k =>
      rw [hline]
      simp only [List.getElem?_eq_none_iff, List.length_map]
      omega
  · simpa [List.flatMap_map, ← List.flatten_eq_flatMap] using hs.flatten

example :
    (Source.ofText "<input>" "1\r\r\n÷\n\r").lines =
      [⟨0, 2⟩, ⟨2, 4⟩, ⟨4, 7⟩, ⟨7, 8⟩, ⟨8, 8⟩] := by
  decide +kernel

end Reckon
