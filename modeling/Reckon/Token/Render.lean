import Reckon.Token.Basic

/-! Tokens written out again as text. -/

namespace Reckon

/-- Each token follows a space. A fault stands on lines of its own, and the end of input is a line
break. -/
def Token.rendered : Token → String
  | .fault f => "\nError happened at " ++ f.span.text ++ ".\nMessage: " ++ f.message
  | .endOfInput => "\n"
  | t => " " ++ t.text

def render : List Token → String
  | [] => ""
  | t :: ts => t.rendered ++ render ts

/-- Renders without the space in front of the first token. -/
def renderTrimmed (ts : List Token) : String :=
  match (render ts).toList with
  | ' ' :: cs => String.ofList cs
  | cs => String.ofList cs

@[simp] theorem render_nil : render [] = "" := rfl

@[simp] theorem render_cons (t : Token) (ts : List Token) :
    render (t :: ts) = t.rendered ++ render ts := rfl

@[simp] theorem render_append (ts us : List Token) :
    render (ts ++ us) = render ts ++ render us := by
  induction ts with
  | nil => simp
  | cons t ts ih => simp [ih, String.append_assoc]

end Reckon
