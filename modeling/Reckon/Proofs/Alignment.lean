import Reckon.Proofs.Fused
import Reckon.Proofs.Path

/-! Where a scanner stands in its text before each transition: on whole characters, with at most the
last of them put back, and in a number exactly as far as its digits have been read. -/

namespace Reckon

open Text

variable {source : Source} {cs cs' ds ds' : List Char} {i j : Nat} {c d : Char}

namespace Text

theorem byteLength_concat : byteLength (cs ++ [c]) = byteLength cs + c.utf8Size := by simp

/-- A text has only one beginning of a given length. -/
theorem eq_of_byteLength_eq (h : cs ++ ds = cs' ++ ds') (hl : byteLength cs = byteLength cs') :
    cs = cs' := by
  have hrest : some ds = some ds' := by
    rw [← @dropBytes?_append cs ds, h, hl, dropBytes?_append]
  cases hrest
  exact List.append_cancel_right h

theorem byteLength_of_slice? (h : slice? cs i j = some ds) : i + byteLength ds = j := by
  unfold slice? at h
  split at h
  · next hle =>
    obtain ⟨rest, _, htake⟩ := Option.bind_eq_some_iff.1 h
    obtain ⟨_, _, hlen⟩ := eq_append_of_takeBytes? htake
    omega
  · cases h

theorem slice?_of_charAt? (h : charAt? cs i = some c) :
    slice? cs i (i + c.utf8Size) = some [c] := by
  obtain ⟨rest, hrest, hc⟩ := Option.bind_eq_some_iff.1 h
  obtain ⟨pre, rfl, rfl⟩ := eq_append_of_dropBytes? hrest
  obtain ⟨post, rfl⟩ := List.head?_eq_some_iff.1 hc
  have hslice := @slice?_append pre [c] post
  simpa using hslice

theorem charAt?_append : charAt? (cs ++ c :: ds) (byteLength cs) = some c := by
  simp [charAt?]

/-- The character that ends where `cs` ends is the last of `cs`. -/
theorem getLast?_of_charAt? (h : charAt? (cs ++ ds) i = some d)
    (hi : i + d.utf8Size = byteLength cs) : cs.getLast? = some d := by
  obtain ⟨rest, hrest, hd⟩ := Option.bind_eq_some_iff.1 h
  obtain ⟨pre, hsplit, rfl⟩ := eq_append_of_dropBytes? hrest
  obtain ⟨post, rfl⟩ := List.head?_eq_some_iff.1 hd
  rw [List.append_cons] at hsplit
  rw [eq_of_byteLength_eq hsplit (by rw [byteLength_concat, hi]), List.getLast?_concat]

end Text

theorem Token.span?_of_ofChar? {span : Span} {t : Token} (h : ofChar? span c = some t) :
    t.span? = some span := by
  unfold ofChar? at h
  split at h
  · cases h; rfl
  · split at h
    · cases h; rfl
    · obtain ⟨k, -, rfl⟩ := Option.map_eq_some_iff.1 h
      rfl

namespace Scanner

/-- The ways to stand in a text. `pre` is what has been offered: all of it is used up, or its last
character waits to be offered again, or its last digits are those of a number that may go on. Where
a number can begin, no digit has just been used up. -/
inductive Stands (source : Source) : Scanner → Prop where
  | fresh {pre post : List Char} (hc : source.chars = pre ++ post)
    (hpre : post = [] ∨ ∀ d ∈ pre.getLast?, d.isDigit = false) :
    Stands source ⟨source, byteLength pre, none, .start⟩
  | again {pre post : List Char} {c : Char} (hc : source.chars = pre ++ c :: post)
    (hd : c.isDigit = false) :
    Stands source ⟨source, byteLength (pre ++ [c]), some (byteLength pre, c), .start⟩
  | digits {pre ds post : List Char} (hc : source.chars = pre ++ ds ++ post) (hne : ds ≠ [])
    (hds : ∀ d ∈ ds, d.isDigit = true) (hpre : ∀ d ∈ pre.getLast?, d.isDigit = false) :
    Stands source ⟨source, byteLength (pre ++ ds), none,
      .inNumber (byteLength pre) (byteLength (pre ++ ds))⟩
  | done {pre post : List Char} (hc : source.chars = pre ++ post) :
    Stands source ⟨source, byteLength pre, none, .ended⟩

/-- The position is on a boundary. A pending character is the one that ends there, and it waits for
the start of a token. A number in progress is made of digits that end there, and of all those that
stand together. -/
structure Aligned (s : Scanner) : Prop where
  boundary : isBoundary s.source.chars s.position = true
  within : s.position ≤ s.source.byteLength
  pending : ∀ i c, s.pending = some (i, c) →
    s.source.charAt? i = some c ∧ i + c.utf8Size = s.position ∧ s.state = .start
  inNumber : ∀ first stop, s.state = .inNumber first stop →
    s.pending = none ∧ stop = s.position ∧ first < stop ∧
    (∃ ds, slice? s.source.chars first stop = some ds ∧ ∀ d ∈ ds, d.isDigit = true) ∧
    ∀ i d, s.source.charAt? i = some d → i + d.utf8Size = first → d.isDigit = false

variable {s s' : Scanner} {t : Transition} {pre post : List Char} {tok : Token} {span : Span}

theorem stands_ofSource (source : Source) : Stands source (ofSource source) := by
  by_cases he : source.content = ""
  · have hs : ofSource source = ⟨source, byteLength [], none, .ended⟩ := by simp [ofSource, he]
    rw [hs]
    exact .done rfl
  · have hs : ofSource source = ⟨source, byteLength [], none, .start⟩ := by simp [ofSource, he]
    rw [hs]
    exact .fresh rfl (Or.inr (by simp))

theorem move_eq {input : Input} (hread : s.read = (input, i)) (t : Transition) :
    s.move t = ⟨s.source, i, if t.isConsumed then none else input.char?, t.state⟩ := by
  rw [Scanner.move, hread]

/-- Where nothing is pending, what comes next in the text is offered. -/
theorem read_of_chars (hc : source.chars = pre ++ post) (state : State) :
    let s : Scanner := ⟨source, byteLength pre, none, state⟩
    post = [] ∧ s.read = (.endOfInput, byteLength pre) ∨
      ∃ c rest, post = c :: rest ∧
        s.read = (.char (byteLength pre) c, byteLength (pre ++ [c])) := by
  intro s
  have hread := (faces_of_position (s := s) hc rfl rfl).2
  cases post with
  | nil => exact Or.inl ⟨rfl, hread⟩
  | cons c rest => exact Or.inr ⟨c, rest, rfl, by rw [byteLength_concat, hread]⟩

/-- At the start of a token, a character is used up whatever it is. -/
theorem stands_of_start (hc : source.chars = pre ++ c :: post)
    (hpre : c.isDigit = true → ∀ d ∈ pre.getLast?, d.isDigit = false) {o : Option (Nat × Char)}
    (h : State.accept source .start (.char (byteLength pre) c) = .ok t) :
    Stands source ⟨source, byteLength (pre ++ [c]), if t.isConsumed then none else o, t.state⟩ := by
  have hnext : source.chars = (pre ++ [c]) ++ post := by simpa using hc
  have hfresh : c.isDigit = false →
      Stands source ⟨source, byteLength (pre ++ [c]), none, .start⟩ :=
    fun hd => .fresh hnext (Or.inr (by simpa using hd))
  cases accepts h with
  | blank hb =>
    refine hfresh (Bool.eq_false_iff.2 fun hd => ?_)
    rw [isBlank_eq_false_of_isDigit hd] at hb
    cases hb
  | digit hd =>
    rw [← byteLength_concat]
    exact .digits hnext (by simp) (by simpa using hd) (hpre hd)
  | sign hd => exact hfresh hd
  | unexpected => exact .done hnext

/-- Each transition leads from one way to stand in the text to another. -/
theorem Stands.move (hs : Stands source s) (h : s.state.accept s.source s.read.1 = .ok t) :
    Stands source (s.move t) := by
  cases hs with
  | fresh hc hpre =>
    rcases read_of_chars hc _ with ⟨-, hread⟩ | ⟨c, rest, rfl, hread⟩
    · rw [move_eq hread]
      rw [hread] at h
      cases accepts h with
      | finish => exact .done hc
    · rw [move_eq hread]
      rw [hread] at h
      exact stands_of_start hc (fun _ => hpre.resolve_left (by simp)) h
  | @again pre post c hc hd =>
    have hread : read ⟨source, byteLength (pre ++ [c]), some (byteLength pre, c), .start⟩ =
        (.char (byteLength pre) c, byteLength (pre ++ [c])) := rfl
    rw [move_eq hread]
    exact stands_of_start hc (by simp [hd]) h
  | @digits pre ds post hc hne hds hpre =>
    rcases read_of_chars hc _ with ⟨rfl, hread⟩ | ⟨c, rest, rfl, hread⟩
    · rw [move_eq hread]
      rw [hread] at h
      cases accepts h with
      | last => exact .fresh hc (Or.inl rfl)
      | outOfRange => exact .done hc
    · have hnext : source.chars = (pre ++ ds ++ [c]) ++ rest := by simpa using hc
      rw [move_eq hread]
      rw [hread] at h
      cases accepts h with
      | more hd =>
        have hall : ∀ d ∈ ds ++ [c], d.isDigit = true :=
          List.forall_mem_append.2 ⟨hds, by simpa using hd⟩
        rw [← byteLength_concat]
        rw [List.append_assoc] at hnext ⊢
        exact .digits (by simpa using hnext) (by simp) hall hpre
      | number hd => exact .again hc hd
      | outOfRange => exact .done hnext
  | done => cases h

/-- Inside a number no token has been made. -/
theorem state_of_step {r : Step} (h : s.step = .ok r) (first stop : Nat) :
    r.scanner.state ≠ .inNumber first stop := by
  induction h using step_induction with
  | stop s t ht hstop =>
    intro hs
    have hs : t.state = .inNumber first stop := hs
    generalize s.state = state at ht
    generalize s.read.1 = input at ht
    cases accepts ht with
    | digit | more => simp at hstop
    | _ => cases hs
  | go _ _ _ _ _ _ ih => exact ih

theorem Leads.stands {ms : List Move} (h : Leads s ms s') (hs : Stands source s) :
    Stands source s' := by
  induction h with
  | nil => exact hs
  | cons ht _ ih => exact ih (hs.move ht)

theorem Stands.refused (hs : Stands source s) (he : s.state = .ended) :
    Stands source s.refused := by
  cases hs with
  | done hc =>
    rcases read_of_chars hc _ with ⟨-, hread⟩ | ⟨c, rest, rfl, hread⟩
    · rw [Scanner.refused, hread]
      exact .done hc
    · rw [Scanner.refused, hread]
      exact .done (by simpa using hc)
  | _ => cases he

/-- Between calls a scanner stands in its text, and not inside a number. -/
theorem Stands.called (hs : Stands source s) (call : Call)
    (hn : ∀ first stop, s.state ≠ .inNumber first stop) :
    Stands source (s.called call) ∧ ∀ first stop, (s.called call).state ≠ .inNumber first stop := by
  by_cases he : s.state = .ended
  · have hrefused : ∀ first stop, s.refused.state ≠ .inNumber first stop := by
      intro first stop
      rw [show s.refused.state = .ended from he]
      nofun
    cases call with
    | step => simpa [Scanner.called, step_of_ended he] using ⟨hs.refused he, hrefused⟩
    | next => simpa [Scanner.called, next_of_ended he] using ⟨hs, hn⟩
    | copy => exact ⟨hs, hn⟩
  · obtain ⟨r, _, hr, _, hnext, _⟩ := exists_step he
    have hstep := And.intro ((leads_step hr).stands hs) (state_of_step hr)
    cases call with
    | step => simpa [Scanner.called, hr] using hstep
    | next => simpa [Scanner.called, hnext] using hstep
    | copy => exact ⟨hs, hn⟩

theorem Stands.driven (calls : List Call) (hs : Stands source s)
    (hn : ∀ first stop, s.state ≠ .inNumber first stop) :
    Stands source (s.driven calls) ∧
      ∀ first stop, (s.driven calls).state ≠ .inNumber first stop := by
  induction calls generalizing s with
  | nil => exact ⟨hs, hn⟩
  | cons call calls ih =>
    obtain ⟨hs, hn⟩ := hs.called call hn
    exact ih hs hn

theorem Stands.source_eq (hs : Stands source s) : s.source = source := by
  cases hs <;> rfl

theorem Stands.exists_split (hs : Stands source s) :
    ∃ pre post, source.chars = pre ++ post ∧ s.position = byteLength pre := by
  cases hs with
  | fresh hc | digits hc | done hc => exact ⟨_, _, hc, rfl⟩
  | again hc => exact ⟨_, _, by rw [hc, List.append_cons], rfl⟩

theorem Stands.aligned (hs : Stands source s) : Aligned s := by
  have hboundary : isBoundary s.source.chars s.position = true := by
    obtain ⟨pre, post, hc, hp⟩ := hs.exists_split
    rw [hs.source_eq, hc, hp]
    exact isBoundary_append
  refine ⟨hboundary, le_byteLength_of_isBoundary hboundary, ?_, ?_⟩
  · intro i c hp
    cases hs with
    | again hc =>
      cases hp
      refine ⟨?_, byteLength_concat.symm, rfl⟩
      rw [Source.charAt?, hc]
      exact charAt?_append
    | _ => cases hp
  · intro first stop hstate
    cases hs with
    | @digits pre ds post hc hne hds hpre =>
      cases hstate
      have hpos := byteLength_pos hne
      refine ⟨rfl, rfl, by rw [byteLength_append]; omega, ⟨ds, ?_, hds⟩, fun i d hd hi => ?_⟩
      · rw [hc, List.append_assoc, byteLength_append]
        exact slice?_append
      · rw [Source.charAt?, hc, List.append_assoc] at hd
        exact hpre d (getLast?_of_charAt? hd hi)
    | _ => cases hstate

theorem Aligned.charAt?_of_read (h : Aligned s) (hread : s.read.1 = .char i c) :
    s.source.charAt? i = some c := by
  unfold read at hread
  split at hread
  · next hp =>
    cases hread
    exact (h.pending _ _ hp).1
  · split at hread
    · next hc =>
      cases hread
      exact hc
    · cases hread

theorem span_of_number? {n : Number} (h : number? span = some n) : n.span = span := by
  obtain ⟨text, -, h⟩ := Option.bind_eq_some_iff.1 h
  obtain ⟨value, -, h⟩ := Option.bind_eq_some_iff.1 h
  cases h
  rfl

/-- The spans that tokens are made with can be made: that of a character which is offered, and that
of the digits which have been read. -/
theorem Aligned.new?_of_accept (h : Aligned s) (ha : s.state.accept s.source s.read.1 = .ok t)
    (ht : t.token = some tok) (hspan : tok.span? = some span) :
    Span.new? s.source span.start span.stop = some span := by
  have hchar : ∀ i c, s.read.1 = .char i c →
      Span.new? s.source i (i + c.utf8Size) = some (Span.ofChar s.source i c) := by
    intro i c hread
    rw [Span.new?, slice?_of_charAt? (h.charAt?_of_read hread)]
    rfl
  have hdigits : ∀ first stop, s.state = .inNumber first stop →
      Span.new? s.source first stop = some ⟨s.source, first, stop⟩ := by
    intro first stop hs
    obtain ⟨_, _, _, ⟨ds, hslice, _⟩, _⟩ := h.inNumber first stop hs
    rw [Span.new?, hslice]
    rfl
  generalize s.state = state at ha hdigits
  generalize s.read.1 = input at ha hchar
  cases accepts ha with
  | blank | digit | more => cases ht
  | finish =>
    cases ht
    cases hspan
  | sign hd hsign =>
    cases ht
    cases (Token.span?_of_ofChar? hsign).symm.trans hspan
    exact hchar _ _ rfl
  | unexpected =>
    cases ht
    cases hspan
    exact hchar _ _ rfl
  | number _ hn | last hn =>
    cases ht
    cases (span_of_number? hn).symm.trans (Option.some.inj hspan)
    exact hdigits _ _ rfl
  | outOfRange =>
    cases ht
    cases hspan
    exact hdigits _ _ rfl

/-- Whatever calls have been made, a scanner is between numbers, and before each transition from
there on it is aligned with its text. So the spans that its transitions make are stretches of whole
characters of its source, and what is read as a number is a text, not empty and without a sign. -/
theorem driven_aligned (source : Source) (calls : List Call) :
    let s := (ofSource source).driven calls
    (∀ first stop, s.state ≠ .inNumber first stop) ∧
    (∀ r, s.step = .ok r → Leads s r.moves r.scanner) ∧
    ∀ ms s', Leads s ms s' →
      s'.source = source ∧ Aligned s' ∧
      (∀ t tok span, s'.state.accept source s'.read.1 = .ok t → t.token = some tok →
        tok.span? = some span → Span.new? source span.start span.stop = some span) ∧
      ∀ first stop, s'.state = .inNumber first stop →
        ∃ text, (⟨source, first, stop⟩ : Span).text? = some text ∧ text ≠ "" ∧
          '+' ∉ text.toList ∧ '-' ∉ text.toList := by
  intro s
  have hn : ∀ first stop, (ofSource source).state ≠ .inNumber first stop := by
    intro first stop
    unfold ofSource
    dsimp only
    split <;> nofun
  obtain ⟨hs, hn⟩ := (stands_ofSource source).driven calls hn
  refine ⟨hn, fun r hr => leads_step hr, fun ms s' hleads => ?_⟩
  have hs' := hleads.stands hs
  have haligned := hs'.aligned
  obtain rfl : s'.source = source := hs'.source_eq
  refine ⟨rfl, haligned, fun t tok span ha ht hspan => haligned.new?_of_accept ha ht hspan, ?_⟩
  intro first stop hstate
  obtain ⟨_, _, hlt, ⟨ds, hslice, hds⟩, _⟩ := haligned.inNumber first stop hstate
  refine ⟨String.ofList ds, by rw [Span.text?, hslice]; rfl, ?_, ?_, ?_⟩
  · intro hempty
    have hlen := byteLength_of_slice? hslice
    rw [String.ofList_eq_empty_iff.1 hempty, byteLength_nil] at hlen
    omega
  · intro hplus
    cases hds _ (by simpa using hplus)
  · intro hminus
    cases hds _ (by simpa using hminus)

end Scanner

end Reckon
