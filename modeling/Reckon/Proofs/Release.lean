import Mathlib.Data.List.Chain
import Reckon.Proofs.Nesting
import Reckon.Proofs.Yard

/-! When a token leaves a yard, said of the positions of the tokens and without a stack. -/

namespace Reckon

/-- Every parenthesis opened strictly between two positions is closed strictly between them. -/
def Sealed (ts : List Token) (i j : Nat) : Prop :=
  ∀ a, i < a → a < j → ts[a]?.any Token.isOpening = true → ∃ b < j, Closes ts a b

/-- The token at `j` is one that can release the operator at `i`. -/
structure Reaches (ts : List Token) (i j : Nat) : Prop where
  lt : i < j
  clear : Sealed ts i j
  releases : ∃ o t, ts[i]? = some (.operator o) ∧ ts[j]? = some t ∧ t.releases o = true

/-- A number is released at its own place, an operator at the first place that reaches it. -/
def ReleasedAt (ts : List Token) (i r : Nat) : Prop :=
  (∃ n, ts[i]? = some (.number n) ∧ r = i) ∨ Reaches ts i r ∧ ∀ j < r, ¬ Reaches ts i j

/-- What a token leaves on the stack of a yard. -/
def Token.pending? : Token → Option Pending
  | operator o => some (.operator o)
  | parenthesis p => if p.isOpen then some (.opening p) else none
  | _ => none

def Pending.isOpening : Pending → Bool
  | opening _ => true
  | operator _ => false

/-- An operator on top of another binds tighter. -/
def Tight (x y : Pending) : Prop :=
  ∀ o o', x = .operator o → y = .operator o' → o'.precedence < o.precedence

/-- Place `i` comes before place `j`, and all parentheses between them belong together. -/
def Linked (ts : List Token) (j i : Nat) : Prop := i < j ∧ Balanced (between ts i j)

/-- The entries of a stack once the first `n` tokens have been taken, each with the place it comes
from: these are just the places that nothing has reached or closed. -/
structure Ledger (ts : List Token) (n : Nat) (q : List (Nat × Pending)) : Prop where
  entry : ∀ x ∈ q, ts[x.1]?.bind Token.pending? = some x.2
  linked : (n :: q.map Prod.fst).IsChain (Linked ts)
  tight : (q.map Prod.snd).IsChain Tight
  waiting : ∀ x ∈ q, ∀ j < n, ¬ Reaches ts x.1 j
  settled : ∀ i < n, ∀ e, ts[i]?.bind Token.pending? = some e →
    (i, e) ∈ q ∨ (∃ j < n, Reaches ts i j) ∨ ∃ b < n, Closes ts i b
  count : openings (ts.take n) = closings (ts.take n) + (q.map Prod.snd).countP Pending.isOpening

variable {ts : List Token} {n i j : Nat} {t : Token} {e : Pending} {x y : Nat × Pending}
  {q above below : List (Nat × Pending)}

theorem pending?_eq_operator_iff {o : Operator} :
    ts[i]?.bind Token.pending? = some (.operator o) ↔ ts[i]? = some (.operator o) := by
  cases ts[i]? with
  | none => simp
  | some t =>
    cases t with
    | parenthesis p => cases h : p.isOpen <;> simp [Token.pending?, h]
    | _ => simp [Token.pending?]

theorem pending?_eq_opening_iff {p : Parenthesis} :
    ts[i]?.bind Token.pending? = some (.opening p) ↔
      ts[i]? = some (.parenthesis p) ∧ p.isOpen = true := by
  cases ts[i]? with
  | none => simp
  | some t =>
    cases t with
    | parenthesis p' =>
      cases h : p'.isOpen
      · simp only [Option.bind_some, Token.pending?, h]
        constructor
        · rintro ⟨⟩
        · rintro ⟨⟨⟩, hp⟩
          simp [h] at hp
      · simp only [Option.bind_some, Token.pending?, h]
        constructor
        · rintro ⟨⟩
          exact ⟨rfl, h⟩
        · rintro ⟨⟨⟩, _⟩
          rfl
    | _ => simp [Token.pending?]

/-- No closing parenthesis stays on the stack. -/
theorem exists_of_pending? (h : ts[i]?.bind Token.pending? = some e) :
    ∃ t, ts[i]? = some t ∧ t.isClosing = false ∧ t.isOpening = e.isOpening := by
  cases e with
  | operator o => exact ⟨_, pending?_eq_operator_iff.1 h, rfl, rfl⟩
  | opening p =>
    obtain ⟨ht, hp⟩ := pending?_eq_opening_iff.1 h
    exact ⟨_, ht, by simp [Token.isClosing, hp], by simp [Token.isOpening, Pending.isOpening, hp]⟩

/-- A link over an operator that is gone. -/
theorem Linked.trans {k : Nat} (hij : Linked ts j i) (hjk : Linked ts k j) (ht : ts[j]? = some t)
    (ho : t.isOpening = false) (hc : t.isClosing = false) : Linked ts k i := by
  refine ⟨Nat.lt_trans hij.1 hjk.1, ?_⟩
  rw [between_append hij.1 hjk.1 ht]
  exact hij.2.append ((balanced_singleton ho hc).append hjk.2)

namespace Ledger

theorem pairwise (h : Ledger ts n q) : (n :: q.map Prod.fst).Pairwise (· > ·) :=
  (h.linked.imp fun _ _ hl => hl.1).pairwise

theorem lt (h : Ledger ts n q) (hx : x ∈ q) : x.1 < n :=
  List.rel_of_pairwise_cons h.pairwise (List.mem_map_of_mem hx)

theorem nested_of_linked {l : List Nat} (h : (n :: l).IsChain (Linked ts))
    (hl : ∀ i ∈ l, ∃ t, ts[i]? = some t ∧ t.isClosing = false) (hi : i ∈ l) :
    i < n ∧ Nested (between ts i n) := by
  induction l generalizing n with
  | nil => cases hi
  | cons j l ih =>
    obtain ⟨hj, hchain⟩ := List.isChain_cons_cons.1 h
    rcases List.mem_cons.1 hi with rfl | hi
    · exact ⟨hj.1, hj.2.1⟩
    · obtain ⟨hij, hn⟩ := ih hchain (fun k hk => hl k (List.mem_cons_of_mem _ hk)) hi
      obtain ⟨t, ht, hc⟩ := hl j List.mem_cons_self
      refine ⟨Nat.lt_trans hij hj.1, ?_⟩
      rw [between_append hij hj.1 ht]
      exact hn.append ((nested_singleton hc).append hj.2.1)

/-- What waits on the stack has not been closed. -/
theorem not_closes (h : Ledger ts n q) (hx : x ∈ q) (hj : j < n) : ¬ Closes ts x.1 j := by
  intro hc
  -- What came after it is nested up to `n`, and a closed inside is not.
  refine hc.not_nested hj (nested_of_linked h.linked ?_ (List.mem_map_of_mem hx)).2
  intro i hi
  obtain ⟨y, hy, rfl⟩ := List.mem_map.1 hi
  obtain ⟨t, ht, hc, _⟩ := exists_of_pending? (h.entry y hy)
  exact ⟨t, ht, hc⟩

/-- Operators on top can go without breaking the links below. -/
theorem linked_below (h : Ledger ts n (above ++ below))
    (ha : ∀ x ∈ above, ∃ o, x.2 = .operator o) :
    (n :: below.map Prod.fst).IsChain (Linked ts) := by
  have hl := h.linked
  have he := h.entry
  clear h
  induction above with
  | nil => exact hl
  | cons x above ih =>
    apply ih (fun y hy => ha y (List.mem_cons_of_mem _ hy)) _
      (fun y hy => he y (List.mem_cons_of_mem _ hy))
    obtain ⟨o, ho⟩ := ha x List.mem_cons_self
    have ht := pending?_eq_operator_iff.1 (ho ▸ he x List.mem_cons_self)
    obtain ⟨hx, hchain⟩ := List.isChain_cons_cons.1 hl
    exact hchain.imp_head fun hz => hz.trans hx ht rfl rfl

/-- A place on the stack is sealed off if there are only operators above it. -/
theorem sealed_of_above (h : Ledger ts n (above ++ below))
    (ha : ∀ x ∈ above, ∃ o, x.2 = .operator o) (hx : x ∈ above) : Sealed ts x.1 n := by
  intro a hxa han hopen
  obtain ⟨t, ht, ho⟩ := (Option.any_eq_true _ _).1 hopen
  cases t with
  | parenthesis p =>
    have hp : p.isOpen = true := ho
    rcases h.settled a han _ (pending?_eq_opening_iff.2 ⟨ht, hp⟩) with hq | ⟨j, hj, hr⟩ | hc
    · rcases List.mem_append.1 hq with hq | hq
      · obtain ⟨o, ho⟩ := ha _ hq
        cases ho
      · have hpw := List.pairwise_append.1 (List.map_append ▸ (List.pairwise_cons.1 h.pairwise).2)
        have := hpw.2.2 x.1 (List.mem_map_of_mem hx) a (List.mem_map_of_mem hq)
        omega
    · obtain ⟨o, t, ho, _⟩ := hr.releases
      rw [ht] at ho
      cases ho
    · exact hc
  | _ => cases ho

/-- It is not if an opening parenthesis waits above it. -/
theorem not_sealed (h : Ledger ts n q) (hy : y ∈ q) (hopen : y.2.isOpening = true)
    (hxy : i < y.1) : ¬ Sealed ts i n := by
  intro hs
  obtain ⟨t, ht, _, ho⟩ := exists_of_pending? (h.entry y hy)
  obtain ⟨b, hb, hc⟩ := hs y.1 hxy (h.lt hy) (by simp [ht, ho, hopen])
  exact h.not_closes hy hb hc

end Ledger

end Reckon
