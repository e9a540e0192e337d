import AdaptiveScript.Config.Text
import AdaptiveScript.File

/-!
# Configuration files

A configuration is read from the text that a path leads to.  Where texts come from is not
known here, and neither is why there may be none: both are up to the files that are given.
-/

namespace AdaptiveScript
namespace Config

/-- The configuration in the file that a path leads to. -/
def ofFile (files : Files) (path : String) : Except Error Config :=
  match files.read path with
  | .ok text => ofText text
  | .error reason => .error (.unreadable path reason)

end Config
end AdaptiveScript
