import AdaptiveScript.Error
import AdaptiveScript.Number.Numeral
import AdaptiveScript.Text.Blank

/-!
# Conversions

`toNumber` reads a text as a number; `toText` writes any value as a text.  The `expect`
functions never convert: a value already has the representation asked for, or the result
is an error that names what was wanted.
-/

namespace AdaptiveScript
namespace Value

/-- The digits after a hexadecimal mark. -/
def hexDigits? : List Char → Option (List Char)
  | '0' :: 'x' :: rest => some rest
  | '0' :: 'X' :: rest => some rest
  | _ => none

/-- The number a text stands for: after a hexadecimal mark an integer and nothing else,
otherwise an integer, otherwise a float, otherwise nil. -/
def parseNumber (s : String) : Value :=
  let cs := Text.trim s.toList
  match hexDigits? cs with
  | some digits => ((Numeral.readInt? 16 digits).map Value.int).getD .nil
  | none =>
    match Numeral.readInt? 10 cs with
    | some n => .int n
    | none => ((Numeral.readFloat? cs).map Value.float).getD .nil

/-- Numbers stay as they are, texts are read, all else is nil. -/
def toNumber : Value → Value
  | .int n => .int n
  | .float x => .float x
  | .str s => parseNumber s
  | _ => .nil

/-- The text of any value. -/
def toText (v : Value) : String :=
  v.text

/-- Fails unless the value is nil. -/
def expectNil : Value → Except RuntimeError Unit
  | .nil => .ok ()
  | v => .error (.expected "nil" v.kind)

/-- The boolean a value is. -/
def expectBool : Value → Except RuntimeError Bool
  | .bool b => .ok b
  | v => .error (.expected "boolean" v.kind)

/-- The integer a value is.  A float is none, whole or not. -/
def expectInt : Value → Except RuntimeError Int64
  | .int n => .ok n
  | v => .error (.expected "integer" v.kind)

/-- The float a value is.  An integer is none. -/
def expectFloat : Value → Except RuntimeError Float
  | .float x => .ok x
  | v => .error (.expected "float" v.kind)

/-- The text a value is. -/
def expectStr : Value → Except RuntimeError String
  | .str s => .ok s
  | v => .error (.expected "string" v.kind)

/-- The table a value is. -/
def expectTable : Value → Except RuntimeError TableId
  | .table t => .ok t
  | v => .error (.expected "table" v.kind)

/-- The function a value is. -/
def expectFunction : Value → Except RuntimeError FunctionRef
  | .function f => .ok f
  | v => .error (.expected "function" v.kind)

end Value
end AdaptiveScript
