import Reckon.Source.Basic

/-! The lines of a text, said without byte offsets, and how a byte is found among them. -/

namespace Reckon

open Text

namespace Lines

/-- No line break is in it. -/
def Unbroken (cs : List Char) : Prop := ∀ c ∈ cs, c ≠ '\n' ∧ c ≠ '\r'

/-- A line break and what follows it. A carriage return before a line feed is no break of its
own. -/
inductive Break : List Char → List Char → Prop where
  | feed (rest : List Char) : Break ['\n'] rest
  | pair (rest : List Char) : Break ['\r', '\n'] rest
  | carriage {rest : List Char} (h : rest.head? ≠ some '\n') : Break ['\r'] rest

/-- A text and its lines. -/
inductive Splits : List Char → List (List Char) → Prop where
  | last {cs : List Char} (h : Unbroken cs) : Splits cs [cs]
  | line {cs brk rest : List Char} {ls : List (List Char)} (h : Unbroken cs)
    (hb : Break brk rest) : Splits rest ls → Splits (cs ++ brk ++ rest) ((cs ++ brk) :: ls)

/-- The stretches of parts that follow one another from byte `i` on. -/
def stretches (i : Nat) : List (List Char) → List Extent
  | [] => []
  | l :: ls => ⟨i, i + byteLength l⟩ :: stretches (i + byteLength l) ls

variable {cs ds pre post rest brk l : List Char} {ls : List (List Char)} {lines : List Extent}
  {e : Extent} {i k start : Nat} {c : Char}

theorem unbroken_nil : Unbroken [] := by simp [Unbroken]

theorem Unbroken.append_singleton (h : Unbroken cs) (hc : ¬ (c = '\n' ∨ c = '\r')) :
    Unbroken (cs ++ [c]) := by
  intro d hd
  rcases List.mem_append.1 hd with hd | hd
  · exact h d hd
  · cases List.mem_singleton.1 hd
    exact not_or.1 hc

theorem exists_splits_cut (h : Unbroken pre) (hi : i = start + byteLength pre) :
    ∃ ls, Splits (pre ++ cs) ls ∧ cut start i cs = stretches start ls := by
  fun_induction cut start i cs generalizing pre with
  | case1 start i cs ih =>
    obtain ⟨ls, hs, hcut⟩ := ih unbroken_nil rfl
    refine ⟨(pre ++ ['\r', '\n']) :: ls, ?_, ?_⟩
    · simpa using Splits.line h (.pair cs) hs
    · have hsize : byteLength ['\r', '\n'] = 2 := rfl
      have hstop : start + byteLength (pre ++ ['\r', '\n']) = i + 2 := by
        rw [byteLength_append, hsize, hi, Nat.add_assoc]
      simp only [stretches, hstop, hcut]
  | case2 start i c cs hpair hc ih =>
    obtain ⟨ls, hs, hcut⟩ := ih unbroken_nil rfl
    refine ⟨(pre ++ [c]) :: ls, ?_, ?_⟩
    · have hb : Break [c] cs := by
        rcases hc with rfl | rfl
        · exact .feed cs
        · refine .carriage fun hhead => ?_
          obtain ⟨cs', rfl⟩ := List.head?_eq_some_iff.1 hhead
          exact hpair cs' rfl rfl
      simpa using Splits.line h hb hs
    · have hsize : byteLength [c] = 1 := by rcases hc with rfl | rfl <;> rfl
      have hstop : start + byteLength (pre ++ [c]) = i + 1 := by
        rw [byteLength_append, hsize, hi, Nat.add_assoc]
      simp only [stretches, hstop, hcut]
  | case3 start i c cs _ hc ih =>
    obtain ⟨ls, hs, hcut⟩ := ih (h.append_singleton hc) (by simp [hi, Nat.add_assoc])
    exact ⟨ls, by simpa using hs, hcut⟩
  | case4 start i =>
    refine ⟨[pre], ?_, by simp [stretches, hi]⟩
    simpa using Splits.last h

theorem exists_splits (cs : List Char) : ∃ ls, Splits cs ls ∧ ofText cs = stretches 0 ls :=
  @exists_splits_cut cs [] 0 0 unbroken_nil rfl

theorem Splits.flatten (h : Splits cs ls) : ls.flatten = cs := by
  induction h with
  | last => simp
  | line _ _ _ ih => simp [ih]

/-- A break ends in a character that nothing unbroken has. -/
theorem Break.exists_concat (h : Break brk rest) :
    ∃ ds c, brk = ds ++ [c] ∧ (c = '\n' ∨ c = '\r') := by
  cases h with
  | feed => exact ⟨[], _, rfl, Or.inl rfl⟩
  | pair => exact ⟨['\r'], _, rfl, Or.inl rfl⟩
  | carriage => exact ⟨[], _, rfl, Or.inr rfl⟩

/-- What has no break in it lies within a single line. -/
theorem Splits.exists_line (h : Splits cs ls) (hcs : cs = pre ++ ds ++ post)
    (hd : Unbroken ds) :
    ∃ k l before after, ls[k]? = some l ∧ l = before ++ ds ++ after ∧
      pre = (ls.take k).flatten ++ before := by
  induction h generalizing pre with
  | @last cs _ => exact ⟨0, cs, pre, post, rfl, hcs, rfl⟩
  | @line us brk rest ls _ hb _ ih =>
    have hrest : ∀ before, pre = us ++ brk ++ before → rest = before ++ ds ++ post →
        ∃ k l before after, ((us ++ brk) :: ls)[k]? = some l ∧ l = before ++ ds ++ after ∧
          pre = (((us ++ brk) :: ls).take k).flatten ++ before := by
      rintro _ rfl h
      obtain ⟨k, l, before, after, hk, hl, rfl⟩ := ih h
      exact ⟨k + 1, l, before, after, hk, hl, by simp⟩
    rw [List.append_assoc pre] at hcs
    rcases List.append_eq_append_iff.1 hcs with ⟨xs, hpre, h⟩ | ⟨xs, hline, h⟩
    · exact hrest xs hpre (by simpa using h)
    · obtain rfl | ⟨xs, d, rfl⟩ := List.eq_nil_or_concat xs
      · exact hrest [] (by simpa using hline.symm) (by simpa using h.symm)
      · rw [List.concat_eq_append] at hline h
        rcases List.append_eq_append_iff.1 h with ⟨ys, hds, _⟩ | ⟨ys, rfl, _⟩
        · rw [hds, ← List.append_assoc] at hline
          exact ⟨0, us ++ brk, pre, ys, rfl, hline, rfl⟩
        · -- The piece would reach over the break.
          obtain ⟨zs, c, rfl, hc⟩ := hb.exists_concat
          have hlast := congrArg List.getLast? hline
          simp only [← List.append_assoc, List.getLast?_concat, Option.some.injEq] at hlast
          have hmem := hd d (by simp)
          subst hlast
          exact (not_or.2 hmem hc).elim

theorem getElem?_stretches (i : Nat) (ls : List (List Char)) (k : Nat) :
    (stretches i ls)[k]? = ls[k]?.map fun l =>
      ⟨i + byteLength (ls.take k).flatten, i + byteLength (ls.take k).flatten + byteLength l⟩ := by
  induction ls generalizing i k with
  | nil => simp [stretches]
  | cons l ls ih =>
    cases k with
    | zero => simp [stretches]
    | succ k => simp [stretches, ih, Nat.add_assoc]

theorem mem_stretches (h : e ∈ stretches i ls) : i ≤ e.start ∧ e.start ≤ e.stop := by
  obtain ⟨k, hk⟩ := List.mem_iff_getElem?.1 h
  rw [getElem?_stretches] at hk
  obtain ⟨l, _, rfl⟩ := Option.map_eq_some_iff.1 hk
  simp only
  omega

theorem stop_le_of_mem_stretches (h : e ∈ stretches i ls) :
    e.stop ≤ i + byteLength ls.flatten := by
  induction ls generalizing i with
  | nil => cases h
  | cons l ls ih =>
    rw [List.flatten_cons, byteLength_append]
    rcases List.mem_cons.1 h with rfl | h
    · simp only
      omega
    · have := ih h
      omega

theorem pairwise_stretches (i : Nat) (ls : List (List Char)) :
    (stretches i ls).Pairwise fun e e' => e.stop ≤ e'.start := by
  induction ls generalizing i with
  | nil => exact .nil
  | cons l ls ih => exact List.pairwise_cons.2 ⟨fun e he => (mem_stretches he).1, ih _⟩

theorem rel_of_lt {R : Extent → Extent → Prop} {j : Nat} {e' : Extent} (hs : lines.Pairwise R)
    (hj : lines[j]? = some e) (hk : lines[k]? = some e') (hlt : j < k) : R e e' := by
  obtain ⟨_, rfl⟩ := List.getElem?_eq_some_iff.1 hj
  obtain ⟨_, rfl⟩ := List.getElem?_eq_some_iff.1 hk
  exact List.pairwise_iff_getElem.1 hs j k _ _ hlt

/-- Halving ends at the last stretch that does not start after the byte. -/
theorem exists_narrow {base size : Nat}
    (hs : lines.Pairwise fun e e' => e.start ≤ e'.start) (hlen : base + size ≤ lines.length)
    (hsize : 0 < size) (hlow : ∃ e, lines[base]? = some e ∧ e.start ≤ i)
    (hhigh : ∀ k e, base + size ≤ k → lines[k]? = some e → i < e.start) :
    ∃ e, lines[narrow lines i base size]? = some e ∧ e.start ≤ i ∧
      ∀ k e', narrow lines i base size < k → lines[k]? = some e' → i < e'.start := by
  fun_induction narrow lines i base size with
  | case1 base size hone =>
    obtain ⟨e, he, hi⟩ := hlow
    exact ⟨e, he, hi, fun k e' hk => hhigh k e' (by omega)⟩
  | case2 base size hone middle next ih =>
    have hmiddle : middle = base + size / 2 := rfl
    obtain ⟨m, hm⟩ : ∃ m, lines[middle]? = some m :=
      ⟨_, List.getElem?_eq_getElem (by omega)⟩
    by_cases hi : i < m.start
    · have hnext : next = base := by simp [next, hm, hi]
      rw [hnext] at ih ⊢
      apply ih (by omega) (by omega) hlow
      intro k e hk he
      rcases Nat.lt_or_ge middle k with hlt | hge
      · exact Nat.lt_of_lt_of_le hi (rel_of_lt hs hm he hlt)
      · obtain rfl : k = middle := by omega
        rw [hm] at he
        cases he
        exact hi
    · have hnext : next = middle := by simp [next, hm, hi]
      rw [hnext] at ih ⊢
      apply ih (by omega) (by omega) ⟨m, hm, by omega⟩
      intro k e hk
      exact hhigh k e (by omega)

/-- What is found holds the byte, in whatever order the stretches are. -/
theorem exists_of_index? (h : index? lines i = some k) : ∃ e, lines[k]? = some e ∧ e.Holds i := by
  simp only [index?] at h
  split at h
  · next hany =>
    cases h
    obtain ⟨e, he, hi⟩ := (Option.any_eq_true _ _).1 hany
    exact ⟨e, he, of_decide_eq_true hi⟩
  · cases h

/-- Among stretches in order, the one that holds the byte is found. -/
theorem index?_of_holds (hw : ∀ e ∈ lines, e.start ≤ e.stop)
    (hs : lines.Pairwise fun e e' => e.stop ≤ e'.start) (hk : lines[k]? = some e)
    (hi : e.Holds i) : index? lines i = some k := by
  have hstart : lines.Pairwise fun e e' => e.start ≤ e'.start :=
    hs.imp_of_mem fun he _ h => Nat.le_trans (hw _ he) h
  have hlen : k < lines.length := (List.getElem?_eq_some_iff.1 hk).1
  have hfirst : ∃ e, lines[0]? = some e ∧ e.start ≤ i := by
    refine ⟨_, List.getElem?_eq_getElem (by omega), ?_⟩
    rcases Nat.eq_zero_or_pos k with rfl | hpos
    · obtain ⟨_, rfl⟩ := List.getElem?_eq_some_iff.1 hk
      exact hi.1
    · have := rel_of_lt hstart (List.getElem?_eq_getElem (by omega)) hk hpos
      exact Nat.le_trans this hi.1
  have hlast : ∀ k e, 0 + lines.length ≤ k → lines[k]? = some e → i < e.start := by
    intro k e hge he
    have := (List.getElem?_eq_some_iff.1 he).1
    omega
  obtain ⟨e', he', hle, hlt⟩ := exists_narrow hstart (by omega) (by omega) hfirst hlast
  have heq : narrow lines i 0 lines.length = k := by
    rcases Nat.lt_trichotomy (narrow lines i 0 lines.length) k with h | h | h
    · have := hlt k e h hk
      have := hi.1
      omega
    · exact h
    · have := rel_of_lt hs hk he' h
      have := hi.2
      omega
  simp [index?, heq, hk, hi]

end Lines

namespace Source

variable {source : Source} {ls : List (List Char)} {before after l : List Char} {k : Nat}

/-- The lines listed for a source are those of its text. -/
theorem exists_splits (name content : String) :
    ∃ ls, Lines.Splits (ofText name content).chars ls ∧
      (ofText name content).lines = Lines.stretches 0 ls :=
  Lines.exists_splits content.toList

theorem chars_eq_of_line (hs : Lines.Splits source.chars ls) (hk : ls[k]? = some l) :
    source.chars = (ls.take k).flatten ++ l ++ (ls.drop (k + 1)).flatten := by
  obtain ⟨_, rfl⟩ := List.getElem?_eq_some_iff.1 hk
  rw [← hs.flatten, List.append_assoc, ← List.flatten_cons, ← List.flatten_append,
    List.getElem_cons_drop, List.take_append_drop]

theorem lines_eq_of_line (hl : source.lines = Lines.stretches 0 ls) (hk : ls[k]? = some l) :
    source.lines[k]? = some ⟨Text.byteLength (ls.take k).flatten,
      Text.byteLength (ls.take k).flatten + Text.byteLength l⟩ := by
  simp [hl, Lines.getElem?_stretches, hk]

theorem line?_eq (hs : Lines.Splits source.chars ls) (hl : source.lines = Lines.stretches 0 ls)
    (hk : ls[k]? = some l) : source.line? (k + 1) = some (String.ofList l) := by
  simp [line?, lines_eq_of_line hl hk, chars_eq_of_line hs hk]

theorem charsBefore_append (before after : List Char) :
    charsBefore (Text.byteLength before) (before ++ after) = before.length := by
  induction before with
  | nil => cases after <;> rfl
  | cons c before ih =>
    have := c.utf8Size_pos
    obtain ⟨n, hn⟩ : ∃ n, Text.byteLength (c :: before) = n + 1 :=
      ⟨Text.byteLength (c :: before) - 1, by simp; omega⟩
    have hsub : n + 1 - c.utf8Size = Text.byteLength before := by
      rw [← hn]
      simp
    rw [hn, List.cons_append, charsBefore, hsub, ih, List.length_cons]

/-- A character is found on its line, one column after those before it on that line. -/
theorem location?_eq (hs : Lines.Splits source.chars ls) (hl : source.lines = Lines.stretches 0 ls)
    (hk : ls[k]? = some (before ++ after)) (hne : after ≠ []) :
    source.location? (Text.byteLength ((ls.take k).flatten ++ before)) =
      some { line := k + 1, column := before.length + 1 } := by
  have hlines := lines_eq_of_line hl hk
  have hboundary : Text.isBoundary source.chars
      (Text.byteLength ((ls.take k).flatten ++ before)) = true := by
    rw [chars_eq_of_line hs hk, ← List.append_assoc, List.append_assoc]
    exact Text.isBoundary_append
  have hpos := Text.byteLength_pos hne
  have hindex : Lines.index? source.lines (Text.byteLength ((ls.take k).flatten ++ before)) =
      some k := by
    refine Lines.index?_of_holds ?_ (hl ▸ Lines.pairwise_stretches 0 ls) hlines ?_
    · intro e he
      exact (Lines.mem_stretches (hl ▸ he)).2
    · simp only [Extent.Holds, Text.byteLength_append]
      omega
  rw [location?, if_pos hboundary, hindex]
  simp [hlines, line?_eq hs hl hk, charsBefore_append]

end Source

end Reckon
