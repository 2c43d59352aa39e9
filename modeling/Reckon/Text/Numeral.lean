import Reckon.Word

/-! Decimal numerals, written and read. Only the ASCII digits count. -/

namespace Reckon.Text

def digitValue (c : Char) : Nat := c.toNat - '0'.toNat

/-- The value of a run of digits, most significant first. -/
def digitsValue (ds : List Char) : Nat := ds.foldl (fun n d => 10 * n + digitValue d) 0

/-- The value of a non-empty run of digits. -/
def readNatural? (cs : List Char) : Option Nat :=
  if cs ≠ [] ∧ cs.all Char.isDigit then some (digitsValue cs) else none

/-- Reads at most one sign and then digits, as far as the value fits a word. -/
def readWord? : List Char → Option Int32
  | '+' :: ds => (readNatural? ds).bind fun n => narrow? n
  | '-' :: ds => (readNatural? ds).bind fun n => narrow? (-n)
  | ds => (readNatural? ds).bind fun n => narrow? n

def writeNatural (n : Nat) : String := String.ofList (Nat.toDigits 10 n)

def writeInteger : Int → String
  | .ofNat n => writeNatural n
  | .negSucc n => "-" ++ writeNatural (n + 1)

def writeWord (v : Int32) : String := writeInteger v.toInt

/-- A sign is no digit, so a run of digits is read as it stands. -/
theorem readWord?_eq {ds : List Char} (h : ds.all Char.isDigit) :
    readWord? ds = (readNatural? ds).bind fun n => narrow? n := by
  unfold readWord?
  split
  · simp at h
  · simp at h
  · rfl

end Reckon.Text
