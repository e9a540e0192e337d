import AdaptiveScript.Code
import AdaptiveScript.Digest
import AdaptiveScript.Signature

/-!
# Specializations

A specialization is the code of one prototype under one signature.  Each prototype has a
cache of its specializations, keyed by signature, from which nothing is ever removed; so
a prototype and a signature determine a specialization, and comparing those two compares
specializations.
-/

namespace AdaptiveScript

/-- Code of one prototype under one signature. -/
structure Specialization where
  /-- The prototype. -/
  proto : PrototypeRef
  /-- The signature it was compiled for. -/
  signature : Signature
  /-- The types of the results. -/
  returns : List Ty
  /-- The name of the routine. -/
  name : String
  /-- How many parameters there are. -/
  paramCount : Nat
  /-- For each local whether it is kept in a cell. -/
  captured : List Bool
  /-- The types found for the locals. -/
  locals : List Ty
  /-- The constants of the code. -/
  constants : Array Value
  /-- The statements. -/
  body : List Step
  /-- The call sites of the code, in order of emission. -/
  sites : List SiteId

namespace Specialization

/-- The letters and digits of a name; every other character becomes an underscore. -/
def sanitized (name : String) : String :=
  name.map fun c => if c.isAlphanum then c else '_'

/-- The name of the routine for a prototype and a signature, which ends in the first
sixteen digits of a digest of the two. -/
def routineName (proto : String) (signature : Signature) : String :=
  let digest := Digest.hex (proto ++ "\n--\n" ++ signature.text)
  "lua_" ++ sanitized proto ++ "_" ++ String.ofList (digest.toList.take 16)

/-! ### Texts without digests

The digest in a routine name covers the numbers of shapes and prototypes.  Texts that are
to stay the same under another numbering leave it out.
-/

/-- Whether a character can stand in a routine name. -/
def isNameChar (c : Char) : Bool :=
  c.isAlphanum || c == '_'

/-- Whether a character can stand in a digest. -/
def isDigestChar (c : Char) : Bool :=
  c.isDigit || ('a' ≤ c && c ≤ 'f')

/-- A word with its digest hidden, if it is a routine name. -/
def hideDigest (word : List Char) : List Char :=
  let stem := word.take (word.length - 16)
  if "lua_".toList.isPrefixOf stem && stem.getLast? == some '_' && 4 < stem.length
      && (word.drop stem.length).all isDigestChar
  then stem ++ ['*'] else word

/-- Go through a text; `word` holds the characters of the word being read, in reverse. -/
def hideFrom (word : List Char) : List Char → List Char
  | [] => hideDigest word.reverse
  | c :: rest =>
    if isNameChar c then hideFrom (c :: word) rest
    else hideDigest word.reverse ++ c :: hideFrom [] rest

/-- A text with the digests of all routine names in it hidden. -/
def hideDigests (text : String) : String :=
  String.ofList (hideFrom [] text.toList)

/-! ### Results -/

/-- The types of the results that callers see: exactly one if they keep one. -/
def visibleReturns (signature : Signature) (returns : List Ty) : List Ty :=
  if signature.truncate then [returns.headD .nil] else returns

/-- The results that callers see: exactly one if they keep one. -/
def visibleResults (spec : Specialization) (results : List Value) : List Value :=
  if spec.signature.truncate then [results.headD .nil] else results

/-- Whether two specializations are the same one. -/
def isSame (a b : Specialization) : Bool :=
  a.proto == b.proto && a.signature == b.signature

end Specialization

/-- The specializations of one prototype. -/
structure Cache where
  /-- All of them, the newest first. -/
  entries : List Specialization
  /-- How many compilations were started. -/
  compileCount : Nat

namespace Cache

/-- A cache before the first compilation. -/
def empty : Cache :=
  ⟨[], 0⟩

/-- The specialization for a signature. -/
def lookup? (cache : Cache) (signature : Signature) : Option Specialization :=
  cache.entries.find? fun spec => spec.signature == signature

/-- Add a specialization. -/
def insert (cache : Cache) (spec : Specialization) : Cache :=
  { cache with entries := spec :: cache.entries }

/-- How many specializations there are. -/
def size (cache : Cache) : Nat :=
  cache.entries.length

/-- The signatures compiled so far. -/
def signatures (cache : Cache) : List Signature :=
  cache.entries.map Specialization.signature

@[simp] theorem lookup?_insert (cache : Cache) (spec : Specialization) :
    (cache.insert spec).lookup? spec.signature = some spec := by
  simp [lookup?, insert]

theorem lookup?_insert_of_ne (cache : Cache) {spec : Specialization} {signature : Signature}
    (h : spec.signature ≠ signature) :
    (cache.insert spec).lookup? signature = cache.lookup? signature := by
  have hne : (spec.signature == signature) = false := by simpa using h
  simp [lookup?, insert, hne]

@[simp] theorem size_insert (cache : Cache) (spec : Specialization) :
    (cache.insert spec).size = cache.size + 1 := rfl

end Cache
end AdaptiveScript
