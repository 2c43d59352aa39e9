import Reckon.Proofs.Lines

/-! Locations are exact: a line and a column say at which byte a character starts, and the other way
round. Reading on, both grow. -/

namespace Reckon

namespace Source

/-- The bytes of the lines in front of the one with the given number. -/
def bytesBefore (source : Source) : Nat → Nat
  | 0 => 0
  | line + 1 =>
    source.bytesBefore line + (source.line? line).elim 0 fun l => Text.byteLength l.toList

/-- A character of the line stands in the column, and it starts at byte `i`. -/
def StandsAt (source : Source) (a : Location) (i : Nat) : Prop :=
  ∃ l, source.line? a.line = some l ∧ 1 ≤ a.column ∧ a.column ≤ l.length ∧
    i = source.bytesBefore a.line + Text.byteLength (l.toList.take (a.column - 1))

end Source

/-- A character of one of the lines, where a reader finds it and at which byte of all lines together
it starts. -/
inductive Lines.Finds (ls : List (List Char)) : Location → Nat → Prop where
  | intro {k : Nat} {before after : List Char} (hk : ls[k]? = some (before ++ after))
      (hne : after ≠ []) :
      Finds ls { line := k + 1, column := before.length + 1 }
        (Text.byteLength ((ls.take k).flatten ++ before))

variable {source : Source} {ls : List (List Char)} {pre post : List Char} {a b : Location}
  {i j k n : Nat} {l : String}

theorem Location.compare_eq_lt_iff :
    compare a b = .lt ↔ a.line < b.line ∨ a.line = b.line ∧ a.column < b.column := by
  unfold compare instOrdLocation instOrdLocation.ord
  simp [Ordering.then_eq_lt, Nat.compare_eq_lt]

theorem Location.compare_trichotomy (a b : Location) :
    compare a b = .lt ∨ a = b ∨ compare b a = .lt := by
  obtain ⟨line, column⟩ := a
  obtain ⟨line', column'⟩ := b
  simp only [compare_eq_lt_iff, mk.injEq]
  omega

namespace Lines

theorem Finds.cons {cs : List Char} (h : Finds ls { line := n, column := k } i) :
    Finds (cs :: ls) { line := n + 1, column := k } (Text.byteLength cs + i) := by
  cases h with
  | @intro k before after hk hne =>
    rw [← Text.byteLength_append, ← List.append_assoc, ← List.flatten_cons, ← List.take_succ_cons]
    exact .intro (by simpa using hk) hne

/-- Each character of a text is on one of its lines. -/
theorem exists_finds (h : ls.flatten = pre ++ post) (hne : post ≠ []) :
    ∃ a, Finds ls a (Text.byteLength pre) := by
  induction ls generalizing pre with
  | nil => exact (hne (List.append_eq_nil_iff.1 h.symm).2).elim
  | cons l ls ih =>
    have hrest : ∀ xs, pre = l ++ xs → ls.flatten = xs ++ post →
        ∃ a, Finds (l :: ls) a (Text.byteLength pre) := by
      rintro xs rfl hxs
      obtain ⟨a, ha⟩ := ih hxs
      rw [Text.byteLength_append]
      exact ⟨_, ha.cons⟩
    rcases List.append_eq_append_iff.1 h with ⟨xs, hpre, hxs⟩ | ⟨xs, hl, hxs⟩
    · exact hrest xs hpre hxs
    · by_cases hnil : xs = []
      · subst hnil
        exact hrest [] (by simpa using hl.symm) hxs.symm
      · subst hl
        exact ⟨_, .intro (k := 0) rfl hnil⟩

/-- Further on in the text is further on in reading order. -/
theorem Finds.lt_of_compare (ha : Finds ls a i) (hb : Finds ls b j) (h : compare a b = .lt) :
    i < j := by
  obtain @⟨k, before, after, hk, hne⟩ := ha
  obtain @⟨k', before', after', hk', hne'⟩ := hb
  have hpos := Text.byteLength_pos hne
  simp only [Text.byteLength_append]
  rcases Location.compare_eq_lt_iff.1 h with hline | ⟨hline, hcolumn⟩
  · -- The earlier line stops before the later one starts.
    have hextent := getElem?_stretches 0 ls k
    have hextent' := getElem?_stretches 0 ls k'
    rw [hk, Option.map_some] at hextent
    rw [hk', Option.map_some] at hextent'
    have := rel_of_lt (pairwise_stretches 0 ls) hextent hextent' (Nat.lt_of_succ_lt_succ hline)
    simp only [Text.byteLength_append] at this
    omega
  · cases hline
    rw [hk, Option.some.injEq] at hk'
    rcases List.append_eq_append_iff.1 hk' with ⟨xs, rfl, -⟩ | ⟨xs, rfl, -⟩
    · have hxs : xs ≠ [] := by
        rintro rfl
        simp at hcolumn
      have := Text.byteLength_pos hxs
      rw [Text.byteLength_append]
      omega
    · simp only [List.length_append] at hcolumn
      omega

end Lines

namespace Source

theorem exists_finds (hs : Lines.Splits source.chars ls)
    (hi : Text.isBoundary source.chars i = true) (hlt : i < source.byteLength) :
    ∃ a, Lines.Finds ls a i := by
  obtain ⟨pre, post, hchars, rfl⟩ := Text.exists_append_of_isBoundary hi
  refine Lines.exists_finds (hs.flatten.trans hchars) ?_
  rintro rfl
  rw [byteLength, hchars, List.append_nil] at hlt
  exact Nat.lt_irrefl _ hlt

/-- A line and a column say at which byte a character starts. -/
theorem StandsAt.unique (h : source.StandsAt a i) (h' : source.StandsAt a j) : i = j := by
  obtain ⟨l, hline, -, -, rfl⟩ := h
  obtain ⟨l', hline', -, -, rfl⟩ := h'
  rw [hline] at hline'
  cases hline'
  rfl

section

variable (hs : Lines.Splits source.chars ls) (hl : source.lines = Lines.stretches 0 ls)
include hs hl

theorem exists_line_of_line? (h : source.line? n = some l) :
    ∃ k, n = k + 1 ∧ ls[k]? = some l.toList := by
  cases n with
  | zero => cases h
  | succ k =>
    cases hk : ls[k]? with
    | none =>
      have : source.lines[k]? = none := by simp [hl, Lines.getElem?_stretches, hk]
      simp [line?, this] at h
    | some cs =>
      rw [line?_eq hs hl hk] at h
      cases h
      exact ⟨k, rfl, by simpa using hk⟩

theorem bytesBefore_eq (hk : k ≤ ls.length) :
    source.bytesBefore (k + 1) = Text.byteLength (ls.take k).flatten := by
  induction k with
  | zero => rfl
  | succ k ih =>
    have hget := List.getElem?_eq_getElem hk
    have hline := line?_eq hs hl hget
    rw [bytesBefore, ih (Nat.le_of_succ_le hk), hline, List.take_add_one, hget,
      List.flatten_append, Text.byteLength_append]
    simp

theorem standsAt_iff : source.StandsAt a i ↔ Lines.Finds ls a i := by
  constructor
  · rintro ⟨l, hline, hlow, hhigh, rfl⟩
    obtain ⟨k, hk, hget⟩ := exists_line_of_line? hs hl hline
    obtain ⟨line, column⟩ := a
    dsimp only at hk hlow hhigh ⊢
    subst hk
    have hlen : (l.toList.take (column - 1)).length + 1 = column := by
      rw [List.length_take, String.length_toList]
      omega
    have hne : l.toList.drop (column - 1) ≠ [] := by
      intro hnil
      have := List.drop_eq_nil_iff.1 hnil
      rw [String.length_toList] at this
      omega
    have hlt := (List.getElem?_eq_some_iff.1 hget).1
    rw [← List.take_append_drop (column - 1) l.toList] at hget
    have := Lines.Finds.intro hget hne
    rw [hlen, Text.byteLength_append] at this
    rw [bytesBefore_eq hs hl (Nat.le_of_lt hlt)]
    exact this
  · rintro @⟨k, before, after, hk, hne⟩
    have hlt := (List.getElem?_eq_some_iff.1 hk).1
    have hpos := List.length_pos_iff.2 hne
    refine ⟨_, line?_eq hs hl hk, by simp, ?_, ?_⟩
    · simp only [String.length_ofList, List.length_append]
      omega
    · rw [bytesBefore_eq hs hl (Nat.le_of_lt hlt), Text.byteLength_append]
      simp

theorem location?_of_finds (h : Lines.Finds ls a i) : source.location? i = some a := by
  obtain ⟨hk, hne⟩ := h
  exact location?_eq hs hl hk hne

theorem bounds_of_location? (h : source.location? i = some a) :
    Text.isBoundary source.chars i = true ∧ i < source.byteLength := by
  unfold location? at h
  split at h
  · next hi =>
    obtain ⟨k, hk, -⟩ := Option.bind_eq_some_iff.1 h
    obtain ⟨e, he, hstart, hstop⟩ := Lines.exists_of_index? hk
    have := Lines.stop_le_of_mem_stretches (hl ▸ List.mem_of_getElem? he)
    rw [hs.flatten, Nat.zero_add] at this
    exact ⟨hi, Nat.lt_of_lt_of_le hstop this⟩
  · cases h

theorem location?_eq_some_iff : source.location? i = some a ↔ Lines.Finds ls a i := by
  refine ⟨fun h => ?_, location?_of_finds hs hl⟩
  obtain ⟨hi, hlt⟩ := bounds_of_location? hs hl h
  obtain ⟨b, hb⟩ := exists_finds hs hi hlt
  rw [location?_of_finds hs hl hb] at h
  cases h
  exact hb

end

end Source

/-- A byte has a location if a character starts there. The location is the one line and column that
count up to this byte. Other bytes have other locations, and reading on is going on in the text. -/
theorem location?_exact (name content : String) :
    let source := Source.ofText name content
    (∀ i, (source.location? i).isSome = true ↔
      Text.isBoundary source.chars i = true ∧ i < source.byteLength) ∧
    (∀ i a, source.location? i = some a ↔ source.StandsAt a i) ∧
    (∀ i j a, source.location? i = some a → source.location? j = some a → i = j) ∧
    ∀ i j a b, source.location? i = some a → source.location? j = some b →
      (i < j ↔ compare a b = .lt) := by
  intro source
  obtain ⟨ls, hs, hl⟩ := Source.exists_splits name content
  have hfinds := fun i a => @Source.location?_eq_some_iff source ls a i hs hl
  have hstands := fun i a => (hfinds i a).trans (Source.standsAt_iff hs hl).symm
  have hunique := fun i j a (hi : source.location? i = some a) (hj : source.location? j = some a) =>
    ((hstands i a).1 hi).unique ((hstands j a).1 hj)
  refine ⟨fun i => ⟨fun h => ?_, fun ⟨hi, hlt⟩ => ?_⟩, hstands, hunique, fun i j a b hi hj => ?_⟩
  · obtain ⟨a, ha⟩ := Option.isSome_iff_exists.1 h
    exact Source.bounds_of_location? hs hl ha
  · obtain ⟨a, ha⟩ := Source.exists_finds hs hi hlt
    rw [(hfinds i a).2 ha]
    rfl
  · have ha := (hfinds i a).1 hi
    have hb := (hfinds j b).1 hj
    refine ⟨fun hlt => ?_, ha.lt_of_compare hb⟩
    rcases Location.compare_trichotomy a b with h | rfl | h
    · exact h
    · have := hunique i j a hi hj
      omega
    · have := hb.lt_of_compare ha h
      omega

/-- A line keeps its break, and a character of two bytes takes one column. -/
example :
    let source := Source.ofText "test" "1\r\n÷2"
    source.location? 1 = some ⟨1, 2⟩ ∧ source.location? 2 = some ⟨1, 3⟩ ∧
      source.location? 4 = none ∧ source.location? 5 = some ⟨2, 2⟩ ∧ source.location? 6 = none := by
  decide +kernel

end Reckon
