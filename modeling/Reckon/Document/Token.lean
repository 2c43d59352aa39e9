import Reckon.Document.Json
import Reckon.Dump

/-! Tokens as JSON documents. Reading takes what it is given: spans and lines are not compared with
the text they belong to. -/

namespace Reckon

open Json (fields? variant? isNothing string? bool? offset? word? array?)

def Extent.toJson (e : Extent) : Json :=
  .object [("start", .integer e.start), ("end", .integer e.stop)]

/-- An extent has no members but its two ends. -/
def Extent.ofJson? (j : Json) : Option Extent :=
  match j, fields? ["start", "end"] j with
  | .object (_ :: _ :: _ :: _), _ => none
  | _, some [start, stop] => return ⟨← offset? start, ← offset? stop⟩
  | _, _ => none

def Source.toJson (s : Source) : Json :=
  .object [("identifier", .string s.name), ("content", .string s.content),
    ("lines", .array (s.lines.map Extent.toJson))]

def Source.ofJson? (j : Json) : Option Source := do
  match ← fields? ["identifier", "content", "lines"] j with
  | [name, content, lines] =>
    let lines ← (← array? lines).mapM Extent.ofJson?
    return { name := ← string? name, content := ← string? content, lines }
  | _ => none

def Span.toJson (s : Span) : Json :=
  .object [("start", .integer s.start), ("end", .integer s.stop), ("source_file", s.source.toJson)]

def Span.ofJson? (j : Json) : Option Span := do
  match ← fields? ["start", "end", "source_file"] j with
  | [start, stop, source] =>
    return ⟨← Source.ofJson? source, ← offset? start, ← offset? stop⟩
  | _ => none

def OperatorKind.toJson (k : OperatorKind) : Json := .string k.name

def OperatorKind.ofJson? (j : Json) : Option OperatorKind := do
  let (name, content) ← variant? j
  if isNothing content then all.find? (·.name = name) else none

def Number.toJson (n : Number) : Json :=
  .object [("span", n.span.toJson), ("value", .integer n.value.toInt)]

def Number.ofJson? (j : Json) : Option Number := do
  match ← fields? ["span", "value"] j with
  | [span, value] => return ⟨← Span.ofJson? span, ← word? value⟩
  | _ => none

def Operator.toJson (o : Operator) : Json :=
  .object [("span", o.span.toJson), ("kind", o.kind.toJson)]

def Operator.ofJson? (j : Json) : Option Operator := do
  match ← fields? ["span", "kind"] j with
  | [span, kind] => return ⟨← Span.ofJson? span, ← OperatorKind.ofJson? kind⟩
  | _ => none

def Parenthesis.toJson (p : Parenthesis) : Json :=
  .object [("span", p.span.toJson), ("is_open", .bool p.isOpen)]

def Parenthesis.ofJson? (j : Json) : Option Parenthesis := do
  match ← fields? ["span", "is_open"] j with
  | [span, isOpen] => return ⟨← Span.ofJson? span, ← bool? isOpen⟩
  | _ => none

def Fault.toJson (f : Fault) : Json :=
  .object [("span", f.span.toJson), ("message", .string f.message)]

def Fault.ofJson? (j : Json) : Option Fault := do
  match ← fields? ["span", "message"] j with
  | [span, message] => return ⟨← Span.ofJson? span, ← string? message⟩
  | _ => none

def Token.toJson : Token → Json
  | number n => .object [("Number", n.toJson)]
  | operator o => .object [("Operator", o.toJson)]
  | parenthesis p => .object [("Parenthesis", p.toJson)]
  | fault f => .object [("Error", f.toJson)]
  | endOfInput => .string "EndOfInput"

def Token.ofJson? (j : Json) : Option Token := do
  match ← variant? j with
  | ("Number", some content) => return .number (← Number.ofJson? content)
  | ("Operator", some content) => return .operator (← Operator.ofJson? content)
  | ("Parenthesis", some content) => return .parenthesis (← Parenthesis.ofJson? content)
  | ("Error", some content) => return .fault (← Fault.ofJson? content)
  | ("EndOfInput", content) => if isNothing content then return .endOfInput else none
  | _ => none

def writeTokens (ts : List Token) : Json := .array (ts.map Token.toJson)

def readTokens? (j : Json) : Option (List Token) := do (← array? j).mapM Token.ofJson?

end Reckon
