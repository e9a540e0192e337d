import AdaptiveScript.Program
import AdaptiveScript.Table

/-!
# Code of the host

A host function is a list of overloads, each with patterns for its parameters; the earliest
overload that matches is the one that is called.

What an overload does with its arguments is up to the host.  The only way in which its code
can touch the program is to ask for something to be done: to call a value, to read or write
a table, to read or set a global variable.  So the code of the host is a tree (`HostCode`).
A node asks for one thing, and there is a branch for every answer; which branch is taken, and
all that is computed in between, is arbitrary.  An error of a call may be handled; all other
errors pass through.
-/

namespace AdaptiveScript

/-- Reference to an engine. -/
abbrev EngineId := Nat

/-- What a parameter of a host function takes. -/
inductive Pattern where
  | any
  | exact (type : Ty)
  deriving DecidableEq, Repr

namespace Pattern

/-- Whether a pattern takes all values of a type.  Unknown values match only `any`, and
the type of all tables takes tables of every shape. -/
def accepts : Pattern → Ty → Bool
  | .any, _ => true
  | .exact .anyTable, .tableOf _ => true
  | .exact expected, type => expected == type

end Pattern

/-- Code of the host, once it has its arguments. -/
inductive HostCode where
  | done (results : List Value)
  | raise (fault : HostFault)
  /-- Call a value.  The errors that are handled do not pass through. -/
  | call (callee : Value) (args : List Value) (next : List Value → HostCode)
    (handles : RuntimeError → Bool) (handler : RuntimeError → HostCode)
  | makeTable (next : Value → HostCode)
  | read (target key : Value) (next : Value → HostCode)
  | write (target key v : Value) (next : HostCode)
  | global (engine : EngineId) (name : String) (next : Value → HostCode)
  | setGlobal (engine : EngineId) (name : String) (v : Value) (next : HostCode)

/-- What code of the host does with its arguments. -/
def Action := List Value → HostCode

namespace Action

/-- Return fixed values. -/
def yield (values : List Value) : Action :=
  fun _ => .done values

/-- Return the arguments. -/
def echo : Action :=
  .done

/-- Return how many arguments there are. -/
def count : Action :=
  fun args => .done [.int (Int64.ofNat args.length)]

/-- Return one argument, nil if it is missing. -/
def select (index : Nat) : Action :=
  fun args => .done [args[index]?.getD .nil]

/-- Raise an error. -/
def raise (fault : HostFault) : Action :=
  fun _ => .raise fault

/-- Call the first argument with the others. -/
def apply : Action :=
  fun args => .call (args.headD .nil) args.tail .done (fun _ => false) fun _ => .done []

/-- Read a key of the first argument. -/
def fetch (key : String) : Action :=
  fun args => .read (args.headD .nil) (.str key) fun v => .done [v]

/-- Set a global to the first argument. -/
def setGlobal (engine : EngineId) (name : String) : Action :=
  fun args => .setGlobal engine name (args.headD .nil) (.done [])

end Action

/-- One way to call a host function. -/
structure Overload where
  /-- What its parameters take. -/
  params : List Pattern
  /-- What it does. -/
  action : Action

namespace Overload

/-- Whether the patterns take all values of the given types. -/
def accepts (overload : Overload) (types : List Ty) : Bool :=
  overload.params.length == types.length
    && (overload.params.zip types).all fun (pattern, type) => pattern.accepts type

/-- The first overload whose patterns take all values of the given types. -/
def select? (overloads : List Overload) (types : List Ty) : Option Nat :=
  overloads.findIdx? fun overload => overload.accepts types

end Overload
end AdaptiveScript
