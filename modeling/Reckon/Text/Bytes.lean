/-! Byte offsets in a text. A text is its characters, each as wide as its UTF-8 form; an offset is
usable only where a character starts or the text ends. -/

namespace Reckon.Text

variable {cs ds : List Char} {c : Char} {i j : Nat}

def byteLength : List Char → Nat
  | [] => 0
  | c :: cs => c.utf8Size + byteLength cs

/-- What follows the first `i` bytes, unless that offset falls inside a character. -/
def dropBytes? : Nat → List Char → Option (List Char)
  | 0, cs => some cs
  | _ + 1, [] => none
  | i + 1, c :: cs => if c.utf8Size ≤ i + 1 then dropBytes? (i + 1 - c.utf8Size) cs else none

/-- The first `i` bytes, unless that offset falls inside a character. -/
def takeBytes? : Nat → List Char → Option (List Char)
  | 0, _ => some []
  | _ + 1, [] => none
  | i + 1, c :: cs =>
    if c.utf8Size ≤ i + 1 then (takeBytes? (i + 1 - c.utf8Size) cs).map (c :: ·) else none

def isBoundary (cs : List Char) (i : Nat) : Bool := (dropBytes? i cs).isSome

/-- The text from byte `i` up to byte `j`, if both offsets are usable and in order. -/
def slice? (cs : List Char) (i j : Nat) : Option (List Char) :=
  if i ≤ j then (dropBytes? i cs).bind (takeBytes? (j - i)) else none

/-- The character that starts at byte `i`. -/
def charAt? (cs : List Char) (i : Nat) : Option Char := (dropBytes? i cs).bind List.head?

@[simp] theorem byteLength_nil : byteLength [] = 0 := rfl

@[simp] theorem byteLength_cons : byteLength (c :: cs) = c.utf8Size + byteLength cs := rfl

@[simp] theorem byteLength_append : byteLength (cs ++ ds) = byteLength cs + byteLength ds := by
  induction cs with
  | nil => simp
  | cons c cs ih => simp [ih, Nat.add_assoc]

theorem byteLength_pos (h : cs ≠ []) : 0 < byteLength cs := by
  obtain ⟨c, cs, rfl⟩ := List.exists_cons_of_ne_nil h
  have := c.utf8Size_pos
  rw [byteLength_cons]
  omega

@[simp] theorem dropBytes?_zero : dropBytes? 0 cs = some cs := by
  unfold dropBytes?; rfl

@[simp] theorem takeBytes?_zero : takeBytes? 0 cs = some [] := by
  unfold takeBytes?; rfl

/-- A whole character is dropped at once: no offset inside it is usable. -/
theorem dropBytes?_cons (h : i ≠ 0) :
    dropBytes? i (c :: cs) = if c.utf8Size ≤ i then dropBytes? (i - c.utf8Size) cs else none := by
  obtain ⟨i, rfl⟩ := Nat.exists_eq_succ_of_ne_zero h
  rfl

theorem takeBytes?_cons (h : i ≠ 0) :
    takeBytes? i (c :: cs) =
      if c.utf8Size ≤ i then (takeBytes? (i - c.utf8Size) cs).map (c :: ·) else none := by
  obtain ⟨i, rfl⟩ := Nat.exists_eq_succ_of_ne_zero h
  rfl

@[simp] theorem dropBytes?_append : dropBytes? (byteLength cs) (cs ++ ds) = some ds := by
  induction cs with
  | nil => simp
  | cons c cs ih =>
    have := c.utf8Size_pos
    rw [List.cons_append, dropBytes?_cons (by simp; omega)]
    simp [ih]

/-- A text ends on a boundary, whatever follows it. -/
@[simp] theorem isBoundary_append : isBoundary (cs ++ ds) (byteLength cs) = true := by
  rw [isBoundary, dropBytes?_append]
  rfl

@[simp] theorem takeBytes?_append : takeBytes? (byteLength cs) (cs ++ ds) = some cs := by
  induction cs with
  | nil => simp
  | cons c cs ih =>
    have := c.utf8Size_pos
    rw [List.cons_append, takeBytes?_cons (by simp; omega)]
    simp [ih]

@[simp] theorem slice?_append {es : List Char} :
    slice? (cs ++ (ds ++ es)) (byteLength cs) (byteLength cs + byteLength ds) = some ds := by
  simp [slice?]

/-- Dropping at a usable offset splits the text there. -/
theorem eq_append_of_dropBytes? (h : dropBytes? i cs = some ds) :
    ∃ pre, cs = pre ++ ds ∧ byteLength pre = i := by
  induction cs generalizing i with
  | nil =>
    cases i with
    | zero => exact ⟨[], by simpa using h⟩
    | succ i => simp [dropBytes?] at h
  | cons c cs ih =>
    by_cases hi : i = 0
    · subst hi
      exact ⟨[], by simpa using h⟩
    · rw [dropBytes?_cons hi] at h
      split at h
      · obtain ⟨pre, rfl, hp⟩ := ih h
        exact ⟨c :: pre, rfl, by simp [hp]; omega⟩
      · simp at h

theorem eq_append_of_takeBytes? (h : takeBytes? i cs = some ds) :
    ∃ post, cs = ds ++ post ∧ byteLength ds = i := by
  induction cs generalizing i ds with
  | nil =>
    cases i with
    | zero => simp at h; subst h; exact ⟨[], rfl, rfl⟩
    | succ i => simp [takeBytes?] at h
  | cons c cs ih =>
    by_cases hi : i = 0
    · subst hi
      simp at h; subst h
      exact ⟨c :: cs, rfl, rfl⟩
    · rw [takeBytes?_cons hi] at h
      split at h
      · obtain ⟨es, hes, rfl⟩ := Option.map_eq_some_iff.1 h
        obtain ⟨post, rfl, hp⟩ := ih hes
        exact ⟨post, rfl, by simp [hp]; omega⟩
      · simp at h

theorem exists_append_of_isBoundary (h : isBoundary cs i = true) :
    ∃ pre post, cs = pre ++ post ∧ byteLength pre = i := by
  obtain ⟨post, hpost⟩ := Option.isSome_iff_exists.1 h
  obtain ⟨pre, hcs, hpre⟩ := eq_append_of_dropBytes? hpost
  exact ⟨pre, post, hcs, hpre⟩

/-- A text can be cut out exactly between two boundaries in order. -/
theorem slice?_isSome_iff :
    (slice? cs i j).isSome = true ↔ i ≤ j ∧ isBoundary cs i = true ∧ isBoundary cs j = true := by
  unfold slice?
  constructor
  · intro h
    split at h
    · next hle =>
      obtain ⟨ds, hds⟩ := Option.isSome_iff_exists.1 h
      obtain ⟨post, hpost, htake⟩ := Option.bind_eq_some_iff.1 hds
      obtain ⟨pre, rfl, rfl⟩ := eq_append_of_dropBytes? hpost
      obtain ⟨rest, rfl, hlen⟩ := eq_append_of_takeBytes? htake
      refine ⟨hle, isBoundary_append, ?_⟩
      have hj : j = byteLength (pre ++ ds) := by
        rw [byteLength_append]
        omega
      rw [hj, ← List.append_assoc]
      exact isBoundary_append
    · cases h
  · rintro ⟨hle, hi, hj⟩
    obtain ⟨pre, post, rfl, rfl⟩ := exists_append_of_isBoundary hi
    obtain ⟨pre', post', heq, rfl⟩ := exists_append_of_isBoundary hj
    rw [if_pos hle, dropBytes?_append, Option.bind_some]
    rcases List.append_eq_append_iff.1 heq with ⟨ds, rfl, rfl⟩ | ⟨ds, rfl, rfl⟩
    · rw [byteLength_append, Nat.add_sub_cancel_left, takeBytes?_append]
      rfl
    · rw [byteLength_append] at hle ⊢
      have hzero : byteLength pre' - (byteLength pre' + byteLength ds) = 0 := by omega
      rw [hzero, takeBytes?_zero]
      rfl

/-- What is cut out of a text right behind `cs` is what follows `cs` there. -/
theorem eq_append_of_slice? {es : List Char}
    (h : slice? (cs ++ ds) (byteLength cs) j = some es) :
    ∃ post, ds = es ++ post ∧ j = byteLength (cs ++ es) := by
  unfold slice? at h
  split at h
  · next hle =>
    rw [dropBytes?_append, Option.bind_some] at h
    obtain ⟨post, rfl, hlen⟩ := eq_append_of_takeBytes? h
    exact ⟨post, rfl, by simp; omega⟩
  · cases h

theorem le_byteLength_of_isBoundary (h : isBoundary cs i = true) : i ≤ byteLength cs := by
  obtain ⟨pre, post, rfl, rfl⟩ := exists_append_of_isBoundary h
  rw [byteLength_append]
  omega

/-- A character read at `i` ends inside the text. -/
theorem add_utf8Size_le_of_charAt? (h : charAt? cs i = some c) :
    i + c.utf8Size ≤ byteLength cs := by
  obtain ⟨rest, hr, hc⟩ := Option.bind_eq_some_iff.1 h
  obtain ⟨pre, rfl, rfl⟩ := eq_append_of_dropBytes? hr
  cases rest with
  | nil => simp at hc
  | cons d rest => simp at hc; subst hc; simp

end Reckon.Text
