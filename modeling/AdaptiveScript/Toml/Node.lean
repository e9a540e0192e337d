/-!
# TOML documents

A document is a tree of tables.  A table can be defined in four ways, and which one it was
decides how it may be extended later:

* under a header of its own, once;
* on the way to the header of a table inside it, after which a header of its own may still
  follow;
* by dotted keys, after which only dotted keys may add to it;
* inline, after which nothing may.

Entries of an array of tables are added by repeating its header, and what follows always
belongs to the last one; so only the last one is kept here.  Of single values only
integers are kept.
-/

namespace AdaptiveScript
namespace Toml

/-- How a table was defined. -/
inductive Origin where
  | header
  /-- On the way to a header. -/
  | implicit
  | dotted
  | inline
  deriving DecidableEq, Repr

/-- What a key of a document stands for. -/
inductive Node where
  | integer (n : Int)
  /-- A single value other than an integer. -/
  | scalar
  | array
  | table (origin : Origin) (entries : List (String × Node))
  /-- An array of tables, by the entries of the last one. -/
  | tables (last : List (String × Node))

/-- The entries of a table. -/
abbrev Entries := List (String × Node)

namespace Entries

/-- Replace what a key stands for. -/
def replace (key : String) (node : Node) (entries : Entries) : Entries :=
  entries.map fun entry => if entry.1 = key then (key, node) else entry

/-- Add an entry under a path of dotted keys.  `direct` tells whether entries may be added
to this very table. -/
def put (node : Node) : List String → Bool → Entries → Option Entries
  | [], _, _ => none
  | [key], direct, entries =>
    match direct, entries.lookup key with
    | true, none => some (entries ++ [(key, node)])
    | _, _ => none
  | key :: rest, _, entries =>
    match entries.lookup key with
    | none => (put node rest true []).map fun sub => entries ++ [(key, .table .dotted sub)]
    | some (.table .dotted sub) =>
      (put node rest true sub).map fun sub => entries.replace key (.table .dotted sub)
    | some (.table .implicit sub) =>
      (put node rest false sub).map fun sub => entries.replace key (.table .implicit sub)
    | some (.tables last) =>
      (put node rest false last).map fun last => entries.replace key (.tables last)
    | some _ => none

/-- Change the entries of the table that a header names. -/
def within (f : Entries → Option Entries) : List String → Entries → Option Entries
  | [], entries => f entries
  | key :: rest, entries =>
    match entries.lookup key with
    | some (.table origin sub) =>
      (within f rest sub).map fun sub => entries.replace key (.table origin sub)
    | some (.tables last) =>
      (within f rest last).map fun last => entries.replace key (.tables last)
    | _ => none

/-- Change what the last key of a header stands for; the tables on the way are made if they
are missing. -/
def header (f : String → Entries → Option Entries) : List String → Entries → Option Entries
  | [], _ => none
  | [key], entries => f key entries
  | key :: rest, entries =>
    match entries.lookup key with
    | none => (header f rest []).map fun sub => entries ++ [(key, .table .implicit sub)]
    | some (.table .inline _) => none
    | some (.table origin sub) =>
      (header f rest sub).map fun sub => entries.replace key (.table origin sub)
    | some (.tables last) =>
      (header f rest last).map fun last => entries.replace key (.tables last)
    | some _ => none

/-- Open the table of a header.  It may have been named on the way to another one, but not
defined before. -/
def openTable (key : String) (entries : Entries) : Option Entries :=
  match entries.lookup key with
  | none => some (entries ++ [(key, .table .header [])])
  | some (.table .implicit sub) => some (entries.replace key (.table .header sub))
  | some _ => none

/-- Open the next table of an array of tables. -/
def openNext (key : String) (entries : Entries) : Option Entries :=
  match entries.lookup key with
  | none => some (entries ++ [(key, .tables [])])
  | some (.tables _) => some (entries.replace key (.tables []))
  | some _ => none

end Entries
end Toml
end AdaptiveScript
