import Mathlib.Data.List.SplitBy
import Mathlib.Data.Nat.Digits.Defs
import Reckon.Proofs.Lexing

/-! The tokens of a text without a scanner: the text falls into pieces, and each piece is read on
its own. -/

namespace Reckon

open Text

/-- A token without its place: its kind, its text, and what it stands for. -/
inductive Lexeme where
  | number (text : String) (value : Int)
  | operator (text : String) (kind : OperatorKind)
  | parenthesis (text : String) (isOpen : Bool)
  | fault (text message : String)
  | endOfInput
  deriving DecidableEq

def Token.lexeme : Token → Lexeme
  | number n => .number n.span.text n.value.toInt
  | operator o => .operator o.span.text o.kind
  | parenthesis p => .parenthesis p.span.text p.isOpen
  | fault f => .fault f.span.text f.message
  | endOfInput => .endOfInput

/-- The decimal value of a run of digits, however long. -/
def decimal (ds : List Char) : Nat := Nat.ofDigits 10 (ds.reverse.map fun d => d.toNat - '0'.toNat)

/-- Maximal runs of digits, and all other characters one by one, blanks left out. -/
def pieces (cs : List Char) : List (List Char) :=
  (cs.splitBy fun a b => a.isDigit && b.isDigit).filter fun p => !p.all isBlank

namespace Lexeme

/-- What a single character that is no digit is read as. -/
def ofChar : Char → Lexeme
  | '+' => operator "+" .plus
  | '-' => operator "-" .minus
  | '*' => operator "*" .multiply
  | '/' => operator "/" .divide
  | '(' => parenthesis "(" true
  | ')' => parenthesis ")" false
  | c => fault c.toString ("Unexpected char " ++ c.toString)

def ofDigits (ds : List Char) : Lexeme :=
  if decimal ds ≤ 2147483647 then number (String.ofList ds) (decimal ds)
  else fault (String.ofList ds) "Number is out of range"

def ofPiece (p : List Char) : Lexeme :=
  match p with
  | [c] => if c.isDigit then ofDigits [c] else ofChar c
  | ds => ofDigits ds

/-- Nothing follows a fault. Without one, the end of input comes last. -/
def ended : List Lexeme → List Lexeme
  | [] => [endOfInput]
  | fault text message :: _ => [fault text message]
  | l :: ls => l :: ended ls

/-- An empty text has not even an end of input. -/
def ofText (text : String) : List Lexeme :=
  if text = "" then [] else ended ((pieces text.toList).map ofPiece)

end Lexeme

variable {source : Source} {pre cs ds : List Char} {c : Char} {i : Nat} {ts : List Token}

theorem Text.digitsValue_eq_decimal (ds : List Char) : digitsValue ds = decimal ds := by
  induction ds using List.reverseRecOn with
  | nil => rfl
  | append_singleton ds d ih =>
    have hstep : digitsValue (ds ++ [d]) = 10 * digitsValue ds + digitValue d := by
      simp [digitsValue]
    rw [hstep, ih]
    simp [decimal, Nat.ofDigits_cons, digitValue, Nat.add_comm]

/-- The text under a span is what stands there in the source. -/
theorem Span.text?_eq (h : source.chars = pre ++ ds ++ cs) :
    Span.text? ⟨source, byteLength pre, byteLength pre + byteLength ds⟩ =
      some (String.ofList ds) := by
  simp [Span.text?, h]

theorem Span.text_eq (h : source.chars = pre ++ ds ++ cs) :
    Span.text ⟨source, byteLength pre, byteLength pre + byteLength ds⟩ = String.ofList ds := by
  rw [Span.text, Span.text?_eq h, Option.getD_some]

theorem Span.text_char (h : source.chars = pre ++ c :: cs) :
    Span.text ⟨source, byteLength pre, byteLength pre + c.utf8Size⟩ = c.toString := by
  have hc : source.chars = pre ++ [c] ++ cs := by simpa using h
  simpa using Span.text_eq hc

theorem pieces_cons (hc : c.isDigit = false) (cs : List Char) :
    pieces (c :: cs) = (if isBlank c then [] else [[c]]) ++ pieces cs := by
  have hsplit : (c :: cs).splitBy (fun a b => a.isDigit && b.isDigit) =
      [c] :: cs.splitBy fun a b => a.isDigit && b.isDigit := by
    apply List.splitBy_append (l := [c])
    intro a ha b _
    cases ha
    simp [hc]
  cases hb : isBlank c <;> simp [pieces, hsplit, hb]

theorem pieces_digits (hne : ds ≠ []) (hds : ∀ d ∈ ds, d.isDigit)
    (hcs : ∀ c ∈ cs.head?, c.isDigit = false) : pieces (ds ++ cs) = ds :: pieces cs := by
  have hchain : ds.IsChain fun a b => (a.isDigit && b.isDigit) = true := by
    refine List.Pairwise.isChain (List.pairwise_of_forall_mem_list ?_)
    intro a ha b hb
    simp [hds a ha, hds b hb]
  have hsplit : (ds ++ cs).splitBy (fun a b => a.isDigit && b.isDigit) =
      ds :: cs.splitBy fun a b => a.isDigit && b.isDigit := by
    rw [List.splitBy_append, List.splitBy_of_isChain hne hchain]
    · rfl
    · intro a _ b hb
      simp [hcs b hb]
  have hblank : ds.all isBlank = false := by
    obtain ⟨d, hd⟩ := List.exists_mem_of_ne_nil _ hne
    rw [List.all_eq_false]
    exact ⟨d, hd, by simp [isBlank_eq_false_of_isDigit (hds d hd)]⟩
  simp [pieces, hsplit, hblank]

namespace Lexeme

theorem ofPiece_digits (hne : ds ≠ []) (hds : ∀ d ∈ ds, d.isDigit) :
    ofPiece ds = ofDigits ds := by
  unfold ofPiece
  split
  · next d => simp [hds d]
  · rfl

theorem ofPiece_char (hc : c.isDigit = false) : ofPiece [c] = ofChar c := by
  simp [ofPiece, hc]

theorem ofChar_unexpected (hk : ∀ k : OperatorKind, c ≠ k.char) (ho : c ≠ '(') (hp : c ≠ ')') :
    ofChar c = fault c.toString ("Unexpected char " ++ c.toString) := by
  unfold ofChar
  split
  · exact (hk .plus rfl).elim
  · exact (hk .minus rfl).elim
  · exact (hk .multiply rfl).elim
  · exact (hk .divide rfl).elim
  · exact (ho rfl).elim
  · exact (hp rfl).elim
  · rfl

theorem ended_cons {l : Lexeme} (h : ∀ text message, l ≠ fault text message) (ls : List Lexeme) :
    ended (l :: ls) = l :: ended ls := by
  cases l with
  | fault text message => exact (h text message rfl).elim
  | _ => rfl

/-- A character that is a token on its own comes before what is read from the rest. -/
theorem ended_sign {t : Token} (hb : isBlank c = false) (hd : c.isDigit = false)
    (ht : t.lexeme = ofChar c) (hf : t.isFault = false)
    (ih : ts.map Token.lexeme = ended ((pieces cs).map ofPiece)) :
    (t :: ts).map Token.lexeme = ended ((pieces (c :: cs)).map ofPiece) := by
  have hl : ∀ text message, ofChar c ≠ fault text message := by
    intro text message h
    cases t with
    | fault f => cases hf
    | _ => cases ht.trans h
  have hpiece : (pieces (c :: cs)).map ofPiece = ofChar c :: (pieces cs).map ofPiece := by
    simp [pieces_cons hd, hb, ofPiece_char hd]
  rw [hpiece, ended_cons hl, List.map_cons, ht, ih]

end Lexeme

open Lexeme

/-- Reading on from byte `i` is reading the pieces of what is left of the text. -/
theorem Lexes.map_lexeme (h : Lexes source i cs ts) (pre : List Char)
    (hs : source.chars = pre ++ cs) (hi : byteLength pre = i) :
    ts.map Token.lexeme = ended ((pieces cs).map ofPiece) := by
  induction h generalizing pre with
  | stop => rfl
  | @blank i c cs ts hc _ ih =>
    have hd : c.isDigit = false := by
      cases hd : c.isDigit with
      | false => rfl
      | true =>
        rw [isBlank_eq_false_of_isDigit hd] at hc
        cases hc
    have := ih (pre ++ [c]) (by simp [hs]) (by simp [hi])
    simpa [pieces_cons hd, hc] using this
  | @number i ds cs v ts hne hds hcs hv _ ih =>
    subst hi
    have hlen := byteLength_of_isDigit hds
    have htext := Span.text_eq (by simpa using hs)
    rw [hlen] at htext
    rw [Text.digitsValue_eq_decimal] at hv
    have hvalue : ofDigits ds = .number (String.ofList ds) v.toInt := by
      have := v.toInt_lt
      rw [hv]
      exact if_pos (by omega)
    have hrest := ih (pre ++ ds) (by simpa using hs) (by simp [hlen])
    rw [pieces_digits hne hds hcs, List.map_cons, List.map_cons, ofPiece_digits hne hds, hvalue,
      ended_cons (by simp), hrest, Token.lexeme, htext]
  | @outOfRange i ds cs hne hds hcs hv =>
    subst hi
    have htext := Span.text_eq (by simpa using hs)
    rw [byteLength_of_isDigit hds] at htext
    rw [Text.digitsValue_eq_decimal] at hv
    have hvalue : ofDigits ds = fault (String.ofList ds) "Number is out of range" :=
      if_neg (by omega)
    rw [pieces_digits hne hds hcs, List.map_cons, List.map_cons, ofPiece_digits hne hds, hvalue,
      Token.lexeme, Fault.outOfRange, htext]
    rfl
  | @operator i cs ts k _ ih =>
    subst hi
    have htext := Span.text_char hs
    rw [k.utf8Size_char] at htext
    apply ended_sign k.isBlank_char k.isDigit_char _ rfl
    · exact ih (pre ++ [k.char]) (by simpa using hs) (by simp [k.utf8Size_char])
    · rw [Token.lexeme, htext]
      cases k <;> rfl
  | @opening i cs ts _ ih =>
    subst hi
    apply ended_sign rfl rfl _ rfl
    · exact ih (pre ++ ['(']) (by simpa using hs) (by simp; rfl)
    · exact congrArg (Lexeme.parenthesis · true) (Span.text_char hs)
  | @closing i cs ts _ ih =>
    subst hi
    apply ended_sign rfl rfl _ rfl
    · exact ih (pre ++ [')']) (by simpa using hs) (by simp; rfl)
    · exact congrArg (Lexeme.parenthesis · false) (Span.text_char hs)
  | @unexpected i c cs hb hd hk ho hp =>
    subst hi
    have hpiece : (pieces (c :: cs)).map ofPiece = ofChar c :: (pieces cs).map ofPiece := by
      simp [pieces_cons hd, hb, ofPiece_char hd]
    rw [hpiece, ofChar_unexpected hk ho hp, List.map_cons, Token.lexeme, Fault.unexpectedChar,
      Span.text_char hs]
    rfl

/-- Reading a text character by character gives the lexemes of its pieces. -/
theorem map_lexeme_tokenize (text : String) :
    (tokenize text).map Token.lexeme = Lexeme.ofText text := by
  by_cases hne : text = ""
  · subst hne
    rw [tokenize_empty]
    rfl
  · obtain ⟨ts, h⟩ := exists_lexes (Source.ofText "<input>" text) 0 text.toList
    rw [tokenize_of_lexes hne h, Lexeme.ofText, if_neg hne]
    exact h.map_lexeme [] rfl rfl

/-- Zeros in front do not count, and nothing follows a number that is too large. -/
example : Lexeme.ofText "007*99999999999+1" =
    [.number "007" 7, .operator "*" .multiply,
      .fault "99999999999" "Number is out of range"] := by
  rfl

end Reckon
