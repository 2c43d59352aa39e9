import Reckon.Calculate
import Reckon.CommandLine.Options
import Reckon.Text.Blank
import Reckon.Token.Render

/-! What the program prints, and the code it exits with. -/

namespace Reckon.CommandLine

/-- What a run finds around it. About colours, these are the values of `NO_COLOR`, `CLICOLOR_FORCE`
and `CLICOLOR`, where set, and whether the output is a terminal. Nobody asks for a log, which would
go to the error output too: `RPN_CALC_LOG` is not set. -/
structure Surroundings where
  noColor? : Option String := none
  force? : Option String := none
  color? : Option String := none
  isTerminal : Bool := false
  /-- The report on an input that is not UTF-8. Its words are not the program's own. -/
  complaint : String := ""
  deriving DecidableEq, Repr

/-- A forced colour beats `NO_COLOR`, which counts whatever its value, even `0`. -/
def Surroundings.wantsColor (s : Surroundings) : Bool :=
  if s.force?.any (· ≠ "0") then true
  else if s.noColor?.isSome then false
  else s.isTerminal && s.color?.all (· ≠ "0")

structure Outcome where
  exitCode : Nat
  stdout : String
  stderr : String
  deriving DecidableEq, Repr

/-- What one expression adds to the output, and the reporter it leaves. With `rpn`, its tokens are
printed in reverse Polish notation, on lines of their own, before any of them is evaluated. -/
def runExpression (rpn : Bool) (text : String) (r : Reporter) : String × Reporter :=
  if rpn then
    let tokens := toRpn (Scanner.ofText text)
    let trace := renderTrimmed tokens
    let shown := if trace.toList.getLast? = some '\n' then trace else trace ++ "\n"
    let value := (evaluate tokens).1.mapError .evaluation
    (shown ++ printed value, r.receiveFrom value)
  else
    let (value, r) := calculate text r
    (printed value, r)
where
  /-- A value is printed on a line of its own, an error nowhere in the output. -/
  printed : Except Error Int32 → String
    | .ok v => Text.writeWord v ++ "\n"
    | .error _ => ""

def lineFeed : UInt8 := 10

def carriageReturn : UInt8 := 13

/-- Cuts an input after each line feed. `line` is the current line so far, last byte first. -/
def cutLines (line : List UInt8) : List UInt8 → List (List UInt8)
  | [] => if line = [] then [] else [line.reverse]
  | b :: rest =>
    if b = lineFeed then
      let line := if line.head? = some carriageReturn then line.tail else line
      line.reverse :: cutLines [] rest
    else cutLines (b :: line) rest

/-- The lines of an input, without their line feeds. A carriage return in front of a line feed goes
too. What follows the last line feed is a line only if there is something. -/
def inputLines (input : List UInt8) : List (List UInt8) := cutLines [] input

/-- Runs the lines of an input, blank ones apart, up to the first that is not UTF-8. Says whether
there was such a line. -/
def runLines (rpn : Bool) (r : Reporter) : List (List UInt8) → Bool × String × Reporter
  | [] => (false, "", r)
  | line :: rest =>
    match String.fromUTF8? line.toByteArray with
    | none => (true, "", r)
    | some text =>
      if text.toList.all Text.isBlank then runLines rpn r rest
      else
        let (shown, r) := runExpression rpn text r
        let (isBroken, output, r) := runLines rpn r rest
        (isBroken, shown ++ output, r)

def version : String := "rpn-calc 0.1.0"

def usage : String := "Usage: rpn-calc [OPTIONS] [EXPRESSION]"

def help : String :=
  "Evaluates integer arithmetic expressions with + - * / and parentheses\n\n" ++ usage ++ "\n\n" ++
  "Arguments:\n" ++
  "  [EXPRESSION]  Expression to evaluate. " ++
  "Reads one expression per line from stdin if omitted\n\n" ++
  "Options:\n" ++
  "  -r, --rpn       Print the expression in reverse polish notation before its value\n" ++
  "      --no-color  Disable colour output\n" ++
  "  -h, --help      Print help\n" ++
  "  -V, --version   Print version\n"

/-- Whether the input is needed to carry out a request. -/
def Request.readsInput : Request → Bool
  | .run options => options.expression?.isNone
  | _ => false

/-- Carries out a request. The code is 1 if anything went wrong with an expression or the input, and
2 if the arguments made no sense. -/
def Request.perform (surroundings : Surroundings) (input : List UInt8) : Request → Outcome
  | .showVersion => ⟨0, version ++ "\n", ""⟩
  | .showHelp => ⟨0, help, ""⟩
  | .refuse => ⟨2, "", usage ++ "\n\nFor more information, try '--help'.\n"⟩
  | .run options =>
    let colored := !options.noColor && surroundings.wantsColor
    let reporter : Reporter := { policy := .print colored }
    match options.expression? with
    | some text =>
      let (output, r) := runExpression options.rpn text reporter
      ⟨if r.hasReceived then 1 else 0, output, r.written⟩
    | none =>
      let (isBroken, output, r) := runLines options.rpn reporter (inputLines input)
      let complaint := if isBroken then surroundings.complaint else ""
      ⟨if r.hasReceived || isBroken then 1 else 0, output, r.written ++ complaint⟩

end Reckon.CommandLine
