import AdaptiveScript.Text.Printable

/-!
# Quoted texts

A text in a message stands between double quotes.  The quote itself, the backslash and
the control characters with a short name are written with a backslash; every other
character that does not print is written by its code point in hexadecimal.
-/

namespace AdaptiveScript
namespace Text

/-- One character of a quoted text. -/
def quotedChar (c : Char) : String :=
  match c with
  | '\x00' => "\\0"
  | '\t' => "\\t"
  | '\n' => "\\n"
  | '\r' => "\\r"
  | '"' => "\\\""
  | '\\' => "\\\\"
  | _ =>
    if isPrintable c then String.singleton c
    else "\\u\x7b" ++ String.ofList (Nat.toDigits 16 c.toNat) ++ "\x7d"

/-- A text in quotes. -/
def quoted (s : String) : String :=
  "\"" ++ String.join (s.toList.map quotedChar) ++ "\""

end Text
end AdaptiveScript
