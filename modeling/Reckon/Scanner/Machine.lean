import Reckon.Text.Blank
import Reckon.Text.Numeral
import Reckon.Token.Basic

/-! The finite-state machine that reads tokens off a text, one character at a time. -/

namespace Reckon.Scanner

inductive State where
  | start
  /-- Digits from byte `first` up to byte `stop` were read and may go on. -/
  | inNumber (first stop : Nat)
  | ended
  deriving DecidableEq, Repr

inductive Input where
  | char (index : Nat) (c : Char)
  | endOfInput
  deriving DecidableEq, Repr

/-- What the machine makes of an input. -/
inductive Transition where
  /-- The input is used up. -/
  | consume (state : State) (token : Option Token)
  /-- The token ends before the input, which has to be offered again. -/
  | keep (state : State) (token : Token)
  deriving DecidableEq

/-- The machine was driven on after it had ended. -/
inductive UsageError where
  | terminated
  deriving DecidableEq, Repr

def UsageError.message : UsageError → String
  | terminated => "the tokenizer reached its end state and does not accept any further input."

namespace Transition

variable {s : State} {t : Token} {o : Option Token}

def state : Transition → State
  | consume s _ | keep s _ => s

def isConsumed : Transition → Bool
  | consume .. => true
  | keep .. => false

def token : Transition → Option Token
  | consume _ t => t
  | keep _ t => some t

@[simp] theorem state_consume : (consume s o).state = s := rfl
@[simp] theorem state_keep : (keep s t).state = s := rfl
@[simp] theorem token_consume : (consume s o).token = o := rfl
@[simp] theorem token_keep : (keep s t).token = some t := rfl
@[simp] theorem isConsumed_consume : (consume s o).isConsumed = true := rfl
@[simp] theorem isConsumed_keep : (keep s t).isConsumed = false := rfl

end Transition

/-- The number under a span of digits. -/
def number? (span : Span) : Option Number := do
  let text ← span.text?
  let value ← Text.readWord? text.toList
  return { span, value }

/-- Ends the number under `span`. The character that ends it belongs to the next token, but after a
number out of range there is none. -/
def finishNumber (span : Span) (input : Input) : Transition :=
  match number? span, input with
  | some n, .char .. => .keep .start (.number n)
  | some n, .endOfInput => .consume .start (some (.number n))
  | none, _ => .consume .ended (some (.fault (.outOfRange span)))

/-- The transition on an input. Blanks separate tokens and make none. The machine believes what the
input says about the text, and looks at `source` only for the digits of a number. -/
def State.accept (source : Source) : State → Input → Except UsageError Transition
  | .start, .char i c =>
    if Text.isBlank c then .ok (.consume .start none)
    else if c.isDigit then .ok (.consume (.inNumber i (i + c.utf8Size)) none)
    else
      let span := Span.ofChar source i c
      match Token.ofChar? span c with
      | some t => .ok (.consume .start (some t))
      | none => .ok (.consume .ended (some (.fault (.unexpectedChar span c))))
  | .start, .endOfInput => .ok (.consume .ended (some .endOfInput))
  | .inNumber first stop, .char i c =>
    if c.isDigit then .ok (.consume (.inNumber first (i + c.utf8Size)) none)
    else .ok (finishNumber ⟨source, first, stop⟩ (.char i c))
  | .inNumber first stop, .endOfInput => .ok (finishNumber ⟨source, first, stop⟩ .endOfInput)
  | .ended, _ => .error .terminated

variable {source : Source} {state : State} {input : Input} {t : Transition}

/-- All the transitions that the machine can make. -/
inductive Accepts (source : Source) : State → Input → Transition → Prop where
  | blank {i : Nat} {c : Char} (hb : Text.isBlank c = true) :
    Accepts source .start (.char i c) (.consume .start none)
  | digit {i : Nat} {c : Char} (hd : c.isDigit = true) :
    Accepts source .start (.char i c) (.consume (.inNumber i (i + c.utf8Size)) none)
  | sign {i : Nat} {c : Char} {t : Token} (hd : c.isDigit = false)
    (ht : Token.ofChar? (Span.ofChar source i c) c = some t) :
    Accepts source .start (.char i c) (.consume .start (some t))
  | unexpected {i : Nat} {c : Char} (hd : c.isDigit = false) :
    Accepts source .start (.char i c)
      (.consume .ended (some (.fault (.unexpectedChar (Span.ofChar source i c) c))))
  | finish : Accepts source .start .endOfInput (.consume .ended (some .endOfInput))
  | more {first stop i : Nat} {c : Char} (hd : c.isDigit = true) :
    Accepts source (.inNumber first stop) (.char i c)
      (.consume (.inNumber first (i + c.utf8Size)) none)
  | number {first stop i : Nat} {c : Char} {n : Number} (hd : c.isDigit = false)
    (hn : number? ⟨source, first, stop⟩ = some n) :
    Accepts source (.inNumber first stop) (.char i c) (.keep .start (.number n))
  | last {first stop : Nat} {n : Number} (hn : number? ⟨source, first, stop⟩ = some n) :
    Accepts source (.inNumber first stop) .endOfInput (.consume .start (some (.number n)))
  | outOfRange {first stop : Nat} {input : Input} (hn : number? ⟨source, first, stop⟩ = none) :
    Accepts source (.inNumber first stop) input
      (.consume .ended (some (.fault (.outOfRange ⟨source, first, stop⟩))))

theorem accepts (h : state.accept source input = .ok t) : Accepts source state input t := by
  unfold State.accept at h
  split at h
  · next i c =>
    split at h
    · next hb => cases h; exact .blank hb
    · split at h
      · next hd => cases h; exact .digit hd
      · next hd =>
        have hd : c.isDigit = false := by simpa using hd
        dsimp only at h
        split at h
        · next ht => cases h; exact .sign hd ht
        · cases h; exact .unexpected hd
  · cases h; exact .finish
  · next first stop i c =>
    split at h
    · next hd => cases h; exact .more hd
    · next hd =>
      cases h
      cases hn : number? ⟨source, first, stop⟩ with
      | none => simp only [finishNumber, hn]; exact .outOfRange hn
      | some n => simp only [finishNumber, hn]; exact .number (by simpa using hd) hn
  · next first stop =>
    cases h
    cases hn : number? ⟨source, first, stop⟩ with
    | none => simp only [finishNumber, hn]; exact .outOfRange hn
    | some n => simp only [finishNumber, hn]; exact .last hn
  · cases h

/-- The machine fails only where it has ended. -/
theorem accept_eq_error_iff {e : UsageError} :
    state.accept source input = .error e ↔ state = .ended := by
  cases e
  unfold State.accept
  split
  · simp only [reduceCtorEq, iff_false]
    split
    · simp
    · split
      · simp
      · split <;> simp
  · simp
  · split <;> simp
  · simp
  · simp

end Reckon.Scanner
