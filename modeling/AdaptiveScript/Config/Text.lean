import AdaptiveScript.Config
import AdaptiveScript.Toml.Reader

/-!
# Configuration texts

A configuration is written as a TOML document.  Its outermost table may set each of the
three limits to an integer in range; all other keys are ignored.
-/

namespace AdaptiveScript
namespace Config

/-- The limit that a key sets, below `bound`; without the key it is `dflt`. -/
def limit? (entries : Toml.Entries) (key : String) (dflt bound : Nat) : Except Error Nat :=
  match entries.lookup key with
  | none => .ok dflt
  | some (.integer n) => if 0 ≤ n ∧ n < bound then .ok n.toNat else .error .malformed
  | some _ => .error .malformed

/-- The configuration that a text describes. -/
def ofText (text : String) : Except Error Config :=
  match Toml.document? text with
  | none => .error .malformed
  | some entries => do
    let relinks ← limit? entries "relink_limit" default.relinkLimit UInt32.size
    let changes ← limit? entries "type_change_limit" default.typeChangeLimit UInt32.size
    let iterations ← limit? entries "max_inference_iterations" default.maxInferenceIterations
      UInt64.size
    validate ⟨relinks, changes, iterations⟩

end Config
end AdaptiveScript
