/-! The lines of a text as stretches of bytes. A line keeps the break that ends it; the last line,
which may be empty, has none. -/

namespace Reckon

/-- A stretch of bytes, `stop` excluded. -/
structure Extent where
  start : Nat
  stop : Nat
  deriving DecidableEq, Repr, Hashable

def Extent.Holds (e : Extent) (i : Nat) : Prop := e.start ≤ i ∧ i < e.stop

instance (e : Extent) (i : Nat) : Decidable (e.Holds i) := inferInstanceAs (Decidable (_ ∧ _))

namespace Lines

/-- Cuts after each line break. The current line began at byte `start`, and what is left of the text
begins at byte `i`. A carriage return and a line feed together are one break. -/
def cut (start i : Nat) : List Char → List Extent
  | '\r' :: '\n' :: cs => ⟨start, i + 2⟩ :: cut (i + 2) (i + 2) cs
  | c :: cs =>
    if c = '\n' ∨ c = '\r' then ⟨start, i + 1⟩ :: cut (i + 1) (i + 1) cs
    else cut start (i + c.utf8Size) cs
  | [] => [⟨start, i⟩]

def ofText (cs : List Char) : List Extent := cut 0 0 cs

/-- Halves the `size` lines from index `base` on, keeping the half that can hold byte `i`, until a
single one is left. -/
def narrow (lines : List Extent) (i base size : Nat) : Nat :=
  if size ≤ 1 then base
  else
    let middle := base + size / 2
    let base := if lines[middle]?.any (i < ·.start) then base else middle
    narrow lines i base (size - size / 2)
termination_by size

/-- The index of the line that holds byte `i`. The lines are taken to be in order. -/
def index? (lines : List Extent) (i : Nat) : Option Nat :=
  let k := narrow lines i 0 lines.length
  if lines[k]?.any (·.Holds i) then some k else none

end Lines

end Reckon
