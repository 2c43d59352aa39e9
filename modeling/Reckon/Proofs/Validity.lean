import Reckon.Proofs.Covering

/-! Spans that are parts of their sources, and where they come from. -/

namespace Reckon

open Text

/-- The span is a stretch of whole characters of its source, and the lines listed for the source are
those of its text. -/
structure Span.IsValid (s : Span) : Prop where
  ordered : s.start ≤ s.stop
  within : s.stop ≤ s.source.byteLength
  starts : isBoundary s.source.chars s.start = true
  stops : isBoundary s.source.chars s.stop = true
  lines : s.source.lines = Lines.ofText s.source.chars

/-- The end of input has no span to be wrong. -/
def Token.IsValid (t : Token) : Prop := ∀ s, t.span? = some s → s.IsValid

variable {s : Span} {source : Source} {text : String} {ts : List Token} {t : Token}

/-- A span can be made exactly if it is valid, as long as its source was made from a text. -/
theorem Span.isValid_iff :
    s.IsValid ↔ new? s.source s.start s.stop = some s ∧
      s.source.lines = Lines.ofText s.source.chars := by
  have hnew : new? s.source s.start s.stop = some s ↔
      (slice? s.source.chars s.start s.stop).isSome = true := by
    unfold new?
    split <;> simp_all
  rw [hnew, slice?_isSome_iff]
  constructor
  · intro h
    exact ⟨⟨h.ordered, h.starts, h.stops⟩, h.lines⟩
  · rintro ⟨⟨hle, hi, hj⟩, hl⟩
    exact ⟨hle, le_byteLength_of_isBoundary hj, hi, hj, hl⟩

theorem Span.IsWordOf.isValid {name : String} (h : s.IsWordOf (Source.ofText name text)) :
    s.IsValid := by
  obtain ⟨hsource, hlt, hle, hi, hj⟩ := h.bounds
  rw [← hsource] at hle hi hj
  refine ⟨Nat.le_of_lt hlt, hle, hi, hj, ?_⟩
  rw [hsource]
  rfl

theorem isValid_of_mem_tokenize (h : t ∈ tokenize text) : t.IsValid :=
  fun _ hs => (isWordOf_of_mem_tokenize h hs).isValid

/-- Reordering brings in no span that was not there before. -/
theorem exists_mem_of_mem_toRpn (h : t ∈ toRpn ts) (hs : t.span? = some s) :
    ∃ u ∈ ts, u.span? = some s := by
  rw [toRpn_eq, toList_list] at h
  cases t with
  | fault e =>
    cases hs
    rcases Yard.fault_of_mem_released h with h | ⟨p, hp | hp, rfl | rfl⟩
    · exact ⟨_, h, rfl⟩
    · exact ⟨_, hp, rfl⟩
    · exact ⟨_, hp, rfl⟩
    · cases hp
    · cases hp
  | endOfInput => cases hs
  | _ =>
    rcases Yard.mem_released h rfl with h | ⟨o, _, hw⟩
    · exact ⟨_, h, hs⟩
    · cases hw

end Reckon
