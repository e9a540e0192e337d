import AdaptiveScript.Ty

/-!
# Errors

Three families of error, each a type of causes with one function that words them.

* `CompileError`: a prototype cannot be turned into code;
* `HostFault`: what code of the host may raise, with a text of its own;
* `RuntimeError`: what a running program ends in.

A runtime error also has a `kind`, which is all that callers may branch on, and its
message opens with the heading of that kind.
-/

namespace AdaptiveScript

/-- Why a prototype cannot be turned into code. -/
inductive CompileError where
  /-- A `break` that no loop of the same function encloses. -/
  | breakOutsideLoop (function : String)
  /-- A local slot that the function does not have. -/
  | badLocal (function : String) (slot count : Nat)
  /-- An upvalue that the function does not have. -/
  | badUpvalue (function : String) (index count : Nat)
  /-- A routine whose constants are delivered a second time. -/
  | constantsPopulated (routine : String)
  /-- A function literal that captures more or fewer values than its prototype declares. -/
  | captureCount (function : String) (captured declared : Nat)
  /-- Any other reason. -/
  | other (text : String)
  deriving DecidableEq, Repr

namespace CompileError

/-- The wording of a compile error. -/
def message : CompileError → String
  | .breakOutsideLoop function => s!"break outside of a loop in {function}"
  | .badLocal function slot count =>
    s!"local slot {slot} out of range in {function} ({count} locals)"
  | .badUpvalue function index count =>
    s!"upvalue {index} out of range in {function} ({count} upvalues)"
  | .constantsPopulated routine => s!"constants already populated for {routine}"
  | .captureCount function captured declared =>
    s!"function literal {function} captures {captured} values but declares {declared} upvalues"
  | .other text => text

end CompileError

/-- The kinds of runtime error. -/
inductive ErrorKind where
  | typeError
  | linkFailure
  | noMatchingOverload
  | divisionByZero
  | invalidKey
  | internal
  | custom
  deriving DecidableEq, Repr

namespace ErrorKind

/-- How the message of an error of this kind opens. -/
def heading : ErrorKind → String
  | .typeError => "TypeError: "
  | .linkFailure => "LinkError: "
  | .noMatchingOverload => "MethodError: "
  | .divisionByZero => "ArithmeticError: "
  | .invalidKey => "KeyError: "
  | .internal => "InternalError: "
  | .custom => ""

end ErrorKind

/-- Why a value is no table key. -/
inductive KeyFault where
  | nan
  | nil
  | unsupported (kind : Kind)
  deriving DecidableEq, Repr

/-- The integer operations that division by zero stops. -/
inductive ZeroDivision where
  | modulo
  | floorDivision
  deriving DecidableEq, Repr

/-- The operands of a numeric loop. -/
inductive LoopOperand where
  | start
  | limit
  | step
  deriving DecidableEq, Repr

/-- The unboxed representations that specialized code counts on. -/
inductive Unboxed where
  | int
  | float
  | bool
  deriving DecidableEq, Repr

/-- An error that code of the host raises.  The texts are the host's own. -/
inductive HostFault where
  | typeError (text : String)
  | linkFailure (typeName : String)
  | noMatchingOverload (name argTypes : String)
  | divisionByZero (operation : ZeroDivision)
  | indexError (typeName : String)
  | invalidKey (text : String)
  | internal (text : String)
  | custom (text : String)
  deriving DecidableEq, Repr

/-- Why a running program stops. -/
inductive RuntimeError where
  /-- Arithmetic on something that is no number. -/
  | arithmetic (operand : Kind)
  /-- Concatenation of something that is neither text nor number. -/
  | concatenation (operand : Kind)
  /-- Length of something that has none. -/
  | length (operand : Kind)
  /-- Order of two values that have none. -/
  | comparison (left right : Kind)
  /-- Field access on something that is no table. -/
  | index (target : Kind)
  /-- A value that lacks the representation asked for. -/
  | expected (wanted : String) (got : Kind)
  /-- A table laid out by another shape than the one asked for. -/
  | expectedShape (wanted : Ty) (actual : ShapeId)
  /-- A function of another prototype than the one asked for. -/
  | expectedFunction (wanted : Ty) (name : String)
  /-- A numeric loop over something that is no number. -/
  | loopOperand (operand : LoopOperand)
  /-- A routine entered with the wrong number of upvalues. -/
  | upvalueMismatch (routine : String) (wanted got : Nat)
  /-- Arguments that an overload bound earlier does not admit. -/
  | overloadMismatch (overload : Nat) (name : String)
  /-- A target bound to a prototype, met by something that is no closure. -/
  | nonClosureCallee
  /-- A call of something that is no function. -/
  | notCallable (callee : Kind)
  /-- No overload of a host function admits the arguments. -/
  | noOverload (name : String) (argTypes : List Ty)
  /-- Integer division by zero. -/
  | zeroDivision (operation : ZeroDivision)
  /-- A value that is no table key. -/
  | key (fault : KeyFault)
  /-- An operator without an integer kernel. -/
  | noIntKernel (op : BinOp)
  /-- A slot that the table's layout does not have. -/
  | slotRange (slot count : Nat)
  /-- Specialized code met a value outside the type inferred for it. -/
  | violation (wanted : Unboxed) (got : Kind)
  /-- The callee could not be compiled. -/
  | compilation (error : CompileError)
  /-- A captured local that is not kept in a cell. -/
  | unboxedCapture (slot : Nat)
  /-- An upvalue that the running closure does not have. -/
  | upvalueRange (index bound : Nat)
  /-- A closure whose engine is gone. -/
  | engineDropped (function : String)
  /-- A specialization bound to the wrong number of cells. -/
  | bindingMismatch (routine : String) (wanted got : Nat)
  /-- A target bound to a host function, holding something else. -/
  | hostTargetLost
  /-- An overload that a host function does not have. -/
  | missingOverload (name : String) (overload : Nat)
  /-- A numeric loop with step zero. -/
  | zeroStep
  /-- An error raised by the host. -/
  | raised (fault : HostFault)
  deriving DecidableEq, Repr

namespace ZeroDivision

/-- How the division is written in messages. -/
def text : ZeroDivision → String
  | .modulo => "n%0"
  | .floorDivision => "n//0"

end ZeroDivision

namespace LoopOperand

/-- The name of a loop operand in messages. -/
def text : LoopOperand → String
  | .start => "initial value"
  | .limit => "limit"
  | .step => "step"

end LoopOperand

namespace Unboxed

/-- The type that an unboxed representation stands for. -/
def text : Unboxed → String
  | .int => "Integer"
  | .float => "Float"
  | .bool => "Boolean"

end Unboxed

namespace KeyFault

/-- The wording of a key fault. -/
def text : KeyFault → String
  | .nan => "table index is NaN"
  | .nil => "table index is nil"
  | .unsupported kind => "unsupported table key of type " ++ kind.name

end KeyFault

namespace HostFault

/-- The kind of a fault. -/
def kind : HostFault → ErrorKind
  | .typeError _ => .typeError
  | .linkFailure _ => .linkFailure
  | .noMatchingOverload _ _ => .noMatchingOverload
  | .divisionByZero _ => .divisionByZero
  | .indexError _ => .typeError
  | .invalidKey _ => .invalidKey
  | .internal _ => .internal
  | .custom _ => .custom

/-- The wording of a fault, after the heading of its kind. -/
def detail : HostFault → String
  | .typeError text => text
  | .linkFailure typeName => s!"attempt to call a {typeName} value"
  | .noMatchingOverload name argTypes => s!"no method matching {name}({argTypes})"
  | .divisionByZero operation => "attempt to perform '" ++ operation.text ++ "' by zero"
  | .indexError typeName => s!"attempt to index a {typeName} value"
  | .invalidKey text => text
  | .internal text => text
  | .custom text => text

end HostFault

namespace RuntimeError

/-- The kind of an error. -/
def kind : RuntimeError → ErrorKind
  | .arithmetic _ => .typeError
  | .concatenation _ => .typeError
  | .length _ => .typeError
  | .comparison _ _ => .typeError
  | .index _ => .typeError
  | .expected _ _ => .typeError
  | .expectedShape _ _ => .typeError
  | .expectedFunction _ _ => .typeError
  | .loopOperand _ => .typeError
  | .upvalueMismatch _ _ _ => .typeError
  | .overloadMismatch _ _ => .typeError
  | .nonClosureCallee => .typeError
  | .notCallable _ => .linkFailure
  | .noOverload _ _ => .noMatchingOverload
  | .zeroDivision _ => .divisionByZero
  | .key _ => .invalidKey
  | .noIntKernel _ => .internal
  | .slotRange _ _ => .internal
  | .violation _ _ => .internal
  | .compilation _ => .internal
  | .unboxedCapture _ => .internal
  | .upvalueRange _ _ => .internal
  | .engineDropped _ => .internal
  | .bindingMismatch _ _ _ => .internal
  | .hostTargetLost => .internal
  | .missingOverload _ _ => .internal
  | .zeroStep => .custom
  | .raised fault => fault.kind

/-- The wording of an error, after the heading of its kind. -/
def detail : RuntimeError → String
  | .arithmetic operand => "attempt to perform arithmetic on a " ++ operand.name ++ " value"
  | .concatenation operand => "attempt to concatenate a " ++ operand.name ++ " value"
  | .length operand => "attempt to get length of a " ++ operand.name ++ " value"
  | .comparison left right => "attempt to compare " ++ left.name ++ " with " ++ right.name
  | .index target => "attempt to index a " ++ target.name ++ " value"
  | .expected wanted got => "expected " ++ wanted ++ ", got " ++ got.name
  | .expectedShape wanted actual =>
    "expected " ++ wanted.text ++ ", got table of shape #" ++ toString actual
  | .expectedFunction wanted name => "expected " ++ wanted.text ++ ", got function " ++ name
  | .loopOperand operand => "'for' " ++ operand.text ++ " must be a number"
  | .upvalueMismatch routine wanted got => s!"{routine} expects {wanted} upvalues, got {got}"
  | .overloadMismatch overload name => s!"arguments do not match overload {overload} of {name}"
  | .nonClosureCallee => "prototype-bound target called with a non-closure"
  | .notCallable callee => "attempt to call a " ++ callee.name ++ " value"
  | .noOverload name argTypes => "no method matching " ++ name ++ "(" ++ Ty.commaText argTypes ++ ")"
  | .zeroDivision operation => "attempt to perform '" ++ operation.text ++ "' by zero"
  | .key fault => fault.text
  | .noIntKernel op => "operator " ++ op.symbol ++ " has no integer kernel"
  | .slotRange slot count => s!"slot {slot} out of range for layout with {count} slots"
  | .violation wanted got =>
    "specialized code expected " ++ wanted.text ++ ", found a " ++ got.name ++ " value"
  | .compilation error => "compilation failed: " ++ error.message
  | .unboxedCapture slot => s!"local slot {slot} is captured but not boxed"
  | .upvalueRange position bound => s!"upvalue {position} out of range ({bound} bound)"
  | .engineDropped function => s!"engine of {function} has been dropped"
  | .bindingMismatch routine wanted got => s!"{routine} expects {wanted} upvalues, got {got}"
  | .hostTargetLost => "host-bound target is not a host function"
  | .missingOverload name overload => s!"{name} has no overload {overload}"
  | .zeroStep => "'for' step is zero"
  | .raised fault => fault.detail

/-- The full message of an error. -/
def message (e : RuntimeError) : String :=
  e.kind.heading ++ e.detail

/-- Whether an error reports a value of the wrong type. -/
def isTypeMismatch (e : RuntimeError) : Bool :=
  e.kind == .typeError

end RuntimeError

/-- Why a run stops without a result. -/
inductive Stop where
  | error (e : RuntimeError)
  /-- The bound on the length of the run was reached. -/
  | exhausted
  deriving DecidableEq

end AdaptiveScript
