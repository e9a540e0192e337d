import AdaptiveScript.Number.Numeral
import AdaptiveScript.Text.Blank
import AdaptiveScript.Text.Quoted

/-!
# Engine configuration

Three limits steer an engine: how many links bind single functions, how many changes of
argument types a call site follows, and how many passes type inference makes.  They have
defaults, may be written in a configuration text, and may be overridden one by one by
named variables whose texts are decimal numbers; a variable that is blank is as good as
absent.
-/

namespace AdaptiveScript

/-- The limits of an engine. -/
structure Config where
  /-- How many links of a call site may bind a single function. -/
  relinkLimit : Nat
  /-- How many changes of argument types a call site follows. -/
  typeChangeLimit : Nat
  /-- How many passes type inference makes at most. -/
  maxInferenceIterations : Nat
  deriving DecidableEq, Repr

namespace Config

/-- The limits of an engine that was not configured. -/
def default : Config :=
  ⟨5, 3, 8⟩

/-- Why a configuration is refused. -/
inductive Error where
  /-- A file that cannot be read. -/
  | unreadable (path reason : String)
  /-- A text that is no configuration. -/
  | malformed
  /-- A variable whose text is no number in range. -/
  | invalidVariable (name value : String)
  /-- Inference needs at least one pass. -/
  | noIterations
  deriving DecidableEq, Repr

namespace Error

/-- The wording of a refusal. -/
def message : Error → String
  | .unreadable path reason => s!"failed to read config file {path}: {reason}"
  | .malformed => "invalid config"
  | .invalidVariable name value =>
    "invalid value " ++ Text.quoted value ++ " for " ++ name
  | .noIterations => "invalid config: max_inference_iterations must be at least 1"

end Error

/-- The variable that overrides the limit on links. -/
def relinkVariable : String := "SUBSET_LUA_JIT_RELINK_LIMIT"

/-- The variable that overrides the limit on type changes. -/
def typeChangeVariable : String := "SUBSET_LUA_JIT_TYPE_CHANGE_LIMIT"

/-- The variable that overrides the limit on inference passes. -/
def iterationsVariable : String := "SUBSET_LUA_JIT_MAX_INFERENCE_ITERATIONS"

/-- Refuse a configuration that allows no inference pass. -/
def validate (config : Config) : Except Error Config :=
  if config.maxInferenceIterations = 0 then .error .noIterations else .ok config

/-- The number a variable sets, below `bound`; nothing if it is absent or blank. -/
def override? (lookup : String → Option String) (name : String) (bound : Nat) :
    Except Error (Option Nat) :=
  match lookup name with
  | none => .ok none
  | some raw =>
    let body := Text.trim raw.toList
    if body.isEmpty then .ok none
    else
      match Numeral.readNat? bound body with
      | some n => .ok (some n)
      | none => .error (.invalidVariable name raw)

/-- A configuration with the limits that variables set.  The first faulty variable is
reported, in the order of the limits. -/
def withVariables (config : Config) (lookup : String → Option String) : Except Error Config := do
  let relinks ← override? lookup relinkVariable UInt32.size
  let changes ← override? lookup typeChangeVariable UInt32.size
  let iterations ← override? lookup iterationsVariable UInt64.size
  validate
    { relinkLimit := relinks.getD config.relinkLimit
      typeChangeLimit := changes.getD config.typeChangeLimit
      maxInferenceIterations := iterations.getD config.maxInferenceIterations }

end Config
end AdaptiveScript
