/-!
# Lines, keys and strings of TOML

Readers take the characters of a text and give what they read with the characters that
follow, or nothing if the text is not of the form they read.
-/

namespace AdaptiveScript
namespace Toml

/-- What a reader gives: its result and the rest of the text. -/
abbrev Reader (α : Type) := List Char → Option (α × List Char)

/-! ## Blanks and lines -/

/-- Blanks within a line. -/
def isSpace (c : Char) : Bool :=
  c == ' ' || c == '\t'

/-- Characters that may stand in comments and strings: all but control characters, tabs
excepted. -/
def isText (c : Char) : Bool :=
  c == '\t' || (0x20 ≤ c.toNat && c.toNat != 0x7F)

/-- The text after blanks within the line. -/
def skipSpaces (cs : List Char) : List Char :=
  cs.dropWhile isSpace

/-- The text after a line break. -/
def lineBreak? : List Char → Option (List Char)
  | '\n' :: rest => some rest
  | '\r' :: '\n' :: rest => some rest
  | _ => none

/-- The text after the end of a line: blanks, a comment, and a line break or the end of the
text. -/
def lineEnd? (cs : List Char) : Option (List Char) :=
  let rest := match skipSpaces cs with
    | '#' :: comment => comment.dropWhile isText
    | rest => rest
  if rest.isEmpty then some [] else lineBreak? rest

/-- The text after blanks, line breaks and comments. -/
def skipBlanks (inComment : Bool) : List Char → List Char
  | [] => []
  | '\n' :: rest => skipBlanks false rest
  | '\r' :: '\n' :: rest => skipBlanks false rest
  | c :: rest =>
    if inComment then (if isText c then skipBlanks true rest else c :: rest)
    else if isSpace c then skipBlanks false rest
    else if c == '#' then skipBlanks true rest
    else c :: rest

/-! ## Strings -/

/-- The value of a hexadecimal digit. -/
def hexDigit? (c : Char) : Option Nat :=
  if c.isDigit then some (c.toNat - '0'.toNat)
  else if 'a' ≤ c ∧ c ≤ 'f' then some (c.toNat - 'a'.toNat + 10)
  else if 'A' ≤ c ∧ c ≤ 'F' then some (c.toNat - 'A'.toNat + 10)
  else none

/-- The character that hexadecimal digits stand for. -/
def hexChar? (digits : List Char) : Option Char := do
  let n ← digits.foldlM (fun total c => do return total * 16 + (← hexDigit? c)) 0
  if h : n.isValidChar then some (Char.ofNatAux n h) else none

/-- The character that a single letter after a backslash stands for. -/
def escape? : Char → Option Char
  | 'b' => some '\x08'
  | 't' => some '\t'
  | 'n' => some '\n'
  | 'f' => some '\x0c'
  | 'r' => some '\r'
  | 'e' => some '\x1b'
  | '"' => some '"'
  | '\\' => some '\\'
  | _ => none

/-- Put a character in front of what a reader gives. -/
def consChar (c? : Option Char) (tail? : Option (List Char × List Char)) :
    Option (List Char × List Char) := do
  let c ← c?
  let (cs, rest) ← tail?
  return (c :: cs, rest)

/-- A basic string after its opening quote. -/
def basic? : Reader (List Char)
  | [] => none
  | '"' :: rest => some ([], rest)
  | '\\' :: 'x' :: a :: b :: rest => consChar (hexChar? [a, b]) (basic? rest)
  | '\\' :: 'u' :: a :: b :: c :: d :: rest => consChar (hexChar? [a, b, c, d]) (basic? rest)
  | '\\' :: 'U' :: a :: b :: c :: d :: e :: f :: g :: h :: rest =>
    consChar (hexChar? [a, b, c, d, e, f, g, h]) (basic? rest)
  | '\\' :: c :: rest => consChar (escape? c) (basic? rest)
  | c :: rest => if isText c then consChar (some c) (basic? rest) else none

/-- A literal string after its opening quote. -/
def literal? (cs : List Char) : Option (List Char × List Char) :=
  match cs.dropWhile fun c => isText c && c != '\'' with
  | '\'' :: rest => some (cs.takeWhile fun c => isText c && c != '\'', rest)
  | _ => none

/-- Where the reader of a basic string of several lines stands. -/
inductive Continuation where
  | none
  /-- After a backslash that must end its line. -/
  | line
  /-- In the blanks after such a line. -/
  | blanks
  deriving DecidableEq, Repr

/-- The text after a basic string of several lines, from after its opening quotes. -/
def afterMultiBasic? (mode : Continuation) : List Char → Option (List Char)
  | [] => .none
  | '"' :: '"' :: '"' :: '"' :: '"' :: rest => if mode = .line then .none else some rest
  | '"' :: '"' :: '"' :: '"' :: rest => if mode = .line then .none else some rest
  | '"' :: '"' :: '"' :: rest => if mode = .line then .none else some rest
  | '\r' :: '\n' :: rest =>
    afterMultiBasic? (if mode = .none then .none else .blanks) rest
  | '\n' :: rest => afterMultiBasic? (if mode = .none then .none else .blanks) rest
  | '\\' :: 'x' :: a :: b :: rest =>
    if mode ≠ .line ∧ (hexChar? [a, b]).isSome then afterMultiBasic? .none rest else .none
  | '\\' :: 'u' :: a :: b :: c :: d :: rest =>
    if mode ≠ .line ∧ (hexChar? [a, b, c, d]).isSome then afterMultiBasic? .none rest else .none
  | '\\' :: 'U' :: a :: b :: c :: d :: e :: f :: g :: h :: rest =>
    if mode ≠ .line ∧ (hexChar? [a, b, c, d, e, f, g, h]).isSome then afterMultiBasic? .none rest
    else .none
  | '\\' :: '\r' :: '\n' :: rest => if mode = .line then .none else afterMultiBasic? .blanks rest
  | '\\' :: c :: rest =>
    if mode = .line then .none
    else if (escape? c).isSome then afterMultiBasic? .none rest
    else if isSpace c then afterMultiBasic? .line rest
    else if c = '\n' then afterMultiBasic? .blanks rest
    else .none
  | c :: rest =>
    if isSpace c then afterMultiBasic? mode rest
    else if mode ≠ .line ∧ isText c then afterMultiBasic? .none rest
    else .none

/-- The text after a literal string of several lines, from after its opening quotes. -/
def afterMultiLiteral? : List Char → Option (List Char)
  | [] => none
  | '\'' :: '\'' :: '\'' :: '\'' :: '\'' :: rest => some rest
  | '\'' :: '\'' :: '\'' :: '\'' :: rest => some rest
  | '\'' :: '\'' :: '\'' :: rest => some rest
  | '\r' :: '\n' :: rest => afterMultiLiteral? rest
  | c :: rest => if isText c || c == '\n' then afterMultiLiteral? rest else none

/-! ## Keys -/

/-- Characters of a key without quotes. -/
def isBare (c : Char) : Bool :=
  c.isAlphanum || c == '_' || c == '-'

/-- A single key. -/
def key? (cs : List Char) : Option (String × List Char) :=
  match cs with
  | '"' :: rest => (basic? rest).map fun (s, rest) => (String.ofList s, rest)
  | '\'' :: rest => (literal? rest).map fun (s, rest) => (String.ofList s, rest)
  | _ =>
    if (cs.takeWhile isBare).isEmpty then none
    else some (String.ofList (cs.takeWhile isBare), cs.dropWhile isBare)

/-- How many keys a path may have, and how deep values may nest. -/
def deepest : Nat := 80

/-- Keys separated by dots, `bound` of them at most, and the text after blanks. -/
def path? : Nat → Reader (List String)
  | 0, _ => none
  | bound + 1, cs => do
    let (key, rest) ← key? (skipSpaces cs)
    match skipSpaces rest with
    | '.' :: more =>
      let (keys, rest) ← path? bound more
      return (key :: keys, rest)
    | rest => return ([key], rest)

end Toml
end AdaptiveScript
