import Reckon.Token.Basic

/-! Parentheses in a list of tokens, and which of them belong together. -/

namespace Reckon

def Token.isOpening : Token → Bool
  | parenthesis p => p.isOpen
  | _ => false

def Token.isClosing : Token → Bool
  | parenthesis p => !p.isOpen
  | _ => false

def openings (ts : List Token) : Nat := ts.countP Token.isOpening

def closings (ts : List Token) : Nat := ts.countP Token.isClosing

/-- No prefix closes more parentheses than it opens. -/
def Nested (ts : List Token) : Prop := ∀ n, closings (ts.take n) ≤ openings (ts.take n)

def Balanced (ts : List Token) : Prop := Nested ts ∧ openings ts = closings ts

instance : DecidablePred Nested := fun ts =>
  decidable_of_iff (∀ n ≤ ts.length, closings (ts.take n) ≤ openings (ts.take n)) <| by
    constructor
    · intro h n
      rcases Nat.le_total n ts.length with hn | hn
      · exact h n hn
      · simpa [List.take_of_length_le hn] using h ts.length (Nat.le_refl _)
    · intro h n _
      exact h n

instance : DecidablePred Balanced := fun ts =>
  inferInstanceAs (Decidable (Nested ts ∧ openings ts = closings ts))

/-- The tokens strictly between two positions. -/
def between (ts : List Token) (i j : Nat) : List Token := (ts.take j).drop (i + 1)

/-- The parenthesis that is opened at `a` is closed at `b`. -/
structure Closes (ts : List Token) (a b : Nat) : Prop where
  lt : a < b
  opening : ts[a]?.any Token.isOpening = true
  closing : ts[b]?.any Token.isClosing = true
  balanced : Balanced (between ts a b)

variable {ts us vs : List Token} {t u : Token} {i j n a b : Nat}

theorem Token.isOpening_of_isClosing (h : t.isClosing = true) : t.isOpening = false := by
  cases t with
  | parenthesis p => simpa [isClosing, isOpening] using h
  | _ => rfl

theorem Token.isClosing_of_isOpening (h : t.isOpening = true) : t.isClosing = false := by
  cases t with
  | parenthesis p => simpa [isClosing, isOpening] using h
  | _ => rfl

@[simp] theorem openings_nil : openings [] = 0 := rfl

@[simp] theorem closings_nil : closings [] = 0 := rfl

@[simp] theorem openings_cons : openings (t :: ts) = openings ts + if t.isOpening then 1 else 0 :=
  List.countP_cons

@[simp] theorem closings_cons : closings (t :: ts) = closings ts + if t.isClosing then 1 else 0 :=
  List.countP_cons

@[simp] theorem openings_append : openings (ts ++ us) = openings ts + openings us :=
  List.countP_append

@[simp] theorem closings_append : closings (ts ++ us) = closings ts + closings us :=
  List.countP_append

theorem Nested.le (h : Nested ts) : closings ts ≤ openings ts := by
  simpa using h ts.length

theorem Nested.of_append (h : Nested (ts ++ us)) : Nested ts := by
  intro n
  rcases Nat.le_total n ts.length with hn | hn
  · simpa [List.take_append_of_le_length hn] using h n
  · simpa [List.take_of_length_le hn] using h ts.length

theorem Nested.append (ht : Nested ts) (hu : Nested us) : Nested (ts ++ us) := by
  intro n
  have h1 := ht n
  have h2 := hu (n - ts.length)
  rw [List.take_append]
  simp only [openings_append, closings_append]
  omega

theorem nested_singleton (h : t.isClosing = false) : Nested [t] := by
  intro n
  cases n <;> simp [h]

/-- One more token stays nested unless it closes what nothing opens. -/
theorem nested_concat_iff (h : Nested ts) :
    Nested (ts ++ [t]) ↔ (t.isClosing = true → closings ts < openings ts) := by
  constructor
  · intro hn ht
    have hle := hn.le
    have ho := Token.isOpening_of_isClosing ht
    simp only [openings_append, closings_append, openings_cons, closings_cons, openings_nil,
      closings_nil, ht, ho, if_true, Bool.false_eq_true, if_false] at hle
    omega
  · intro ht n
    rcases Nat.lt_or_ge ts.length n with hn | hn
    · rw [List.take_of_length_le (by rw [List.length_append, List.length_singleton]; omega)]
      have hle := h.le
      simp only [openings_append, closings_append, openings_cons, closings_cons, openings_nil,
        closings_nil]
      split
      · next hc =>
        have := ht hc
        omega
      · omega
    · rw [List.take_append_of_le_length hn]
      exact h n

theorem balanced_nil : Balanced [] := ⟨fun n => by simp, rfl⟩

theorem Balanced.append (ht : Balanced ts) (hu : Balanced us) : Balanced (ts ++ us) :=
  ⟨ht.1.append hu.1, by simp [ht.2, hu.2]⟩

theorem balanced_singleton (ho : t.isOpening = false) (hc : t.isClosing = false) :
    Balanced [t] :=
  ⟨nested_singleton hc, by simp [ho, hc]⟩

theorem Balanced.group (h : Balanced ts) (ht : t.isOpening = true) (hu : u.isClosing = true) :
    Balanced (t :: ts ++ [u]) := by
  have htc := Token.isClosing_of_isOpening ht
  have huo := Token.isOpening_of_isClosing hu
  refine ⟨?_, by simp [ht, htc, hu, huo, h.2]⟩
  intro n
  cases n with
  | zero => simp
  | succ n =>
    have h1 := h.1 n
    have h2 := h.2
    by_cases hn : n ≤ ts.length
    · rw [List.cons_append, List.take_succ_cons, List.take_append_of_le_length hn]
      simp [ht, htc]
      omega
    · rw [List.take_of_length_le (by simp; omega)]
      simp [ht, htc, hu, huo, h.2]

/-- A closing parenthesis after balanced tokens has nothing to close among them. -/
theorem not_nested_of_balanced (h : Balanced ts) (ht : t.isClosing = true) :
    ¬ Nested (ts ++ t :: us) := by
  intro hn
  have hle : closings (ts ++ [t]) ≤ openings (ts ++ [t]) := by
    apply Nested.le
    apply Nested.of_append
    simpa using hn
  have heq := h.2
  have ho := Token.isOpening_of_isClosing ht
  simp only [openings_append, closings_append, openings_cons, closings_cons, openings_nil,
    closings_nil, ht, ho, if_true, Bool.false_eq_true, if_false] at hle
  omega

theorem take_succ_of_getElem? (ht : ts[n]? = some t) : ts.take (n + 1) = ts.take n ++ [t] := by
  rw [List.take_add_one, ht]
  rfl

theorem length_take_of_getElem? (ht : ts[n]? = some t) : (ts.take n).length = n := by
  have := (List.getElem?_eq_some_iff.1 ht).1
  rw [List.length_take]
  omega

theorem between_self (ts : List Token) (n : Nat) : between ts n (n + 1) = [] :=
  List.drop_eq_nil_of_le (List.length_take_le ..)

theorem take_eq_append_cons (hj : j < n) (ht : ts[j]? = some t) :
    ts.take n = ts.take j ++ t :: between ts j n := by
  obtain ⟨hlt, rfl⟩ := List.getElem?_eq_some_iff.1 ht
  have hlen : j < (ts.take n).length := by
    rw [List.length_take]
    omega
  have hsplit := List.take_append_drop j (ts.take n)
  rw [List.take_take, Nat.min_eq_left (Nat.le_of_lt hj), List.drop_eq_getElem_cons hlen,
    List.getElem_take] at hsplit
  exact hsplit.symm

theorem between_append (hi : i < j) (hj : j < n) (ht : ts[j]? = some t) :
    between ts i n = between ts i j ++ t :: between ts j n := by
  have hlt := (List.getElem?_eq_some_iff.1 ht).1
  rw [between, take_eq_append_cons hj ht, List.drop_append_of_le_length]
  · rfl
  · rw [List.length_take]
    omega

theorem between_succ (hi : i < n) (ht : ts[n]? = some t) :
    between ts i (n + 1) = between ts i n ++ [t] := by
  rw [between_append hi (Nat.lt_succ_self n) ht, between_self]

/-- Where a parenthesis has been closed, its inside has ended. -/
theorem Closes.not_nested (h : Closes ts a b) (hb : b < n) : ¬ Nested (between ts a n) := by
  obtain ⟨t, ht, hc⟩ := (Option.any_eq_true _ _).1 h.closing
  rw [between_append h.lt hb ht]
  exact not_nested_of_balanced h.balanced hc

end Reckon
