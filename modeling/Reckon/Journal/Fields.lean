import Reckon.Dump
import Reckon.Journal.Basic

/-! The records of a journal in words: their names, and the fields that go with them. -/

namespace Reckon

def Level.name : Level → String
  | error => "ERROR"
  | warn => "WARN"
  | info => "INFO"
  | debug => "DEBUG"
  | trace => "TRACE"

namespace Scope

def name : Scope → String
  | calculate _ => "calculate"
  | evaluate => "evaluate"
  | accept _ => "accept"

def fields : Scope → List (String × String)
  | calculate text => [("source", text)]
  | evaluate => []
  | accept token => [("token", token)]

end Scope

/-- The message is a field like the others. Values that are not text are dumped. -/
def Event.fields (e : Event) : List (String × String) :=
  ("message", e.message) ::
    match e with
    | transition m =>
      [("from", m.before.dump), ("to", m.after.dump), ("input", m.input.dump)]
    | emitting token => [("token", token)]
    | passingOn => []
    | unbalanced place _ => [("at", place)]
    | finished result => [("result", Dump.except Failure.dump Text.writeWord result)]

end Reckon
