/-! The integers that fit a signed 32-bit word. -/

namespace Reckon

variable {n : Int} {v : Int32}

/-- The word that denotes `n`, if there is one. -/
def narrow? (n : Int) : Option Int32 :=
  if -2147483648 ≤ n ∧ n ≤ 2147483647 then some (Int32.ofInt n) else none

theorem narrow?_eq_some_iff : narrow? n = some v ↔ v.toInt = n := by
  unfold narrow?
  constructor
  · intro h
    split at h
    · next hn =>
      cases h
      exact Int32.toInt_ofInt_of_le (by omega) (by omega)
    · simp at h
  · rintro rfl
    have hlow := v.le_toInt
    have hhigh := v.toInt_lt
    rw [if_pos (by omega), Int32.ofInt_toInt]

theorem narrow?_toInt : narrow? v.toInt = some v := narrow?_eq_some_iff.2 rfl

theorem narrow?_eq_none_iff : narrow? n = none ↔ n < -2147483648 ∨ 2147483647 < n := by
  unfold narrow?
  split
  · simp; omega
  · simp; omega

theorem toInt_eq_zero_iff : v.toInt = 0 ↔ v = 0 := by
  rw [← Int32.toInt_zero, Int32.toInt_inj]

end Reckon
