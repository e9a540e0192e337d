import AdaptiveScript.Toml.Atom
import AdaptiveScript.Toml.Text

/-!
# Reading TOML documents

`document?` reads a whole text into the entries of its outermost table.  Arrays and inline
tables nest, up to a fixed depth.  Their readers have two bounds: one on how deep they may
still go, and one by the length of the text on how long they may go on.

Line breaks and comments may stand wherever blanks may inside an array or an inline table,
except within a path of keys.
-/

namespace AdaptiveScript
namespace Toml

/-- The value of a quoted string is not kept. -/
def string? (cs : List Char) : Option (Node × List Char) :=
  let rest? := match cs with
    | '"' :: '"' :: '"' :: rest => afterMultiBasic? .none rest
    | '\'' :: '\'' :: '\'' :: rest => afterMultiLiteral? rest
    | '"' :: rest => (basic? rest).map Prod.snd
    | '\'' :: rest => (literal? rest).map Prod.snd
    | _ => none
  rest?.map fun rest => (.scalar, rest)

mutual

/-- A value that goes at most `depth` deep. -/
def value? : Nat → Nat → Reader Node
  | 0, _, _ => none
  | bound + 1, depth, cs =>
    match depth, cs with
    | depth + 1, '[' :: rest => items? bound depth (skipBlanks false rest)
    | depth + 1, '\x7b' :: rest =>
      (fields? bound depth [] (skipBlanks false rest)).map fun (entries, rest) =>
        (.table .inline entries, rest)
    | _, '"' :: _ => string? cs
    | _, '\'' :: _ => string? cs
    | _, _ => (atom? (cs.take (atomLength cs))).map fun node => (node, cs.drop (atomLength cs))

/-- The items of an array up to its closing bracket. -/
def items? : Nat → Nat → Reader Node
  | 0, _, _ => none
  | _ + 1, _, ']' :: rest => some (.array, rest)
  | bound + 1, depth, cs => do
    let (_, rest) ← value? bound depth cs
    match skipBlanks false rest with
    | ',' :: rest => items? bound depth (skipBlanks false rest)
    | ']' :: rest => return (.array, rest)
    | _ => none

/-- The fields of an inline table up to its closing brace. -/
def fields? : Nat → Nat → Entries → Reader Entries
  | 0, _, _, _ => none
  | _ + 1, _, entries, '\x7d' :: rest => some (entries, rest)
  | bound + 1, depth, entries, cs => do
    let (path, rest) ← path? deepest cs
    let '=' :: rest := skipBlanks false rest | none
    let (node, rest) ← value? bound depth (skipBlanks false rest)
    let entries ← entries.put node path true
    match skipBlanks false rest with
    | ',' :: rest => fields? bound depth entries (skipBlanks false rest)
    | '\x7d' :: rest => return (entries, rest)
    | _ => none

end

/-- What one line does: the table that is open after it, and all entries. -/
def line? (current : List String) (root : Entries) (cs : List Char) :
    Option (List String × Entries × List Char) :=
  match cs with
  | '[' :: '[' :: rest => do
    let (path, rest) ← path? deepest rest
    let ']' :: ']' :: rest := rest | none
    return (path, ← root.header Entries.openNext path, ← lineEnd? rest)
  | '[' :: rest => do
    let (path, rest) ← path? deepest rest
    let ']' :: rest := rest | none
    return (path, ← root.header Entries.openTable path, ← lineEnd? rest)
  | _ => do
    let (path, rest) ← path? deepest cs
    let '=' :: rest := rest | none
    let (node, rest) ← value? (rest.length + 1) deepest (skipSpaces rest)
    return (current, ← root.within (Entries.put node path true) current, ← lineEnd? rest)

/-- The lines of a document, `bound` of them at most. -/
def lines? : Nat → List String → Entries → List Char → Option Entries
  | 0, _, _, _ => none
  | bound + 1, current, root, cs =>
    match skipBlanks false cs with
    | [] => some root
    | rest => do
      let (current, root, rest) ← line? current root rest
      lines? bound current root rest

/-- The entries of a whole text.  A byte order mark in front is skipped. -/
def document? (text : String) : Option Entries :=
  let cs := match text.toList with
    | '\ufeff' :: rest => rest
    | cs => cs
  lines? (cs.length + 1) [] [] cs

end Toml
end AdaptiveScript
