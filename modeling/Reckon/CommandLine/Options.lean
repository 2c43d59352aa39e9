/-! What the arguments of the command line ask for. -/

namespace Reckon.CommandLine

/-- Without an expression, expressions are read from the input, one a line. -/
structure Options where
  expression? : Option String := none
  rpn : Bool := false
  noColor : Bool := false
  deriving DecidableEq, Repr

inductive Request where
  | run (options : Options)
  | showVersion
  | showHelp
  /-- The arguments make no sense. -/
  | refuse
  deriving DecidableEq, Repr

/-- One argument read: go on with these options, or stop with an answer. -/
inductive Reading where
  | continue (options : Options)
  | stop (request : Request)

def Options.setRpn (o : Options) : Reading :=
  if o.rpn then .stop .refuse else .continue { o with rpn := true }

def Options.setNoColor (o : Options) : Reading :=
  if o.noColor then .stop .refuse else .continue { o with noColor := true }

def Options.setExpression (o : Options) (text : String) : Reading :=
  if o.expression?.isSome then .stop .refuse else .continue { o with expression? := some text }

def readLong (o : Options) (name : String) : Reading :=
  match name with
  | "rpn" => o.setRpn
  | "no-color" => o.setNoColor
  | "version" => .stop .showVersion
  | "help" => .stop .showHelp
  | _ => .stop .refuse

/-- Reads a cluster of one-letter options. -/
def readShort (o : Options) : List Char → Reading
  | [] => .continue o
  | 'r' :: cs =>
    match o.setRpn with
    | .continue o => readShort o cs
    | stop => stop
  | 'V' :: _ => .stop .showVersion
  | 'h' :: _ => .stop .showHelp
  | _ => .stop .refuse

/-- Reads an argument in front of any `--`. A single dash is an expression. -/
def readArgument (o : Options) (argument : String) : Reading :=
  match argument.toList with
  | '-' :: '-' :: name => readLong o (String.ofList name)
  | '-' :: c :: cs => readShort o (c :: cs)
  | _ => o.setExpression argument

/-- Reads arguments of which none is an option. -/
def readExpressions (o : Options) : List String → Request
  | [] => .run o
  | a :: rest =>
    match o.setExpression a with
    | .continue o => readExpressions o rest
    | .stop request => request

/-- Reads the arguments in order. The first that settles the matter decides: no later one is looked
at. -/
def readArguments (o : Options) : List String → Request
  | [] => .run o
  | "--" :: rest => readExpressions o rest
  | a :: rest =>
    match readArgument o a with
    | .continue o => readArguments o rest
    | .stop request => request

def Request.ofArguments (arguments : List String) : Request := readArguments {} arguments

end Reckon.CommandLine
