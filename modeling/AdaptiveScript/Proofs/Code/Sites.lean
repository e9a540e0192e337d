import AdaptiveScript.Emission

/-!
# The call sites of code

Code names call sites by number, and a number means something only if there is such a site.
This module says which numbers occur in a piece of code (`Code.sites`, `Step.sites`), and that
the conversions between representations neither add nor lose any.
-/

namespace AdaptiveScript

mutual

/-- The call sites that occur in the code of an expression. -/
def Code.sites : {r : Rep} → Code r → List SiteId
  | _, .box _ c => c.sites
  | _, .unbox _ c => c.sites
  | _, .widen _ c => c.sites
  | _, .truthy _ c => c.sites
  | _, .intArith _ a b => a.sites ++ b.sites
  | _, .floatArith _ a b => a.sites ++ b.sites
  | _, .intCompare _ a b => a.sites ++ b.sites
  | _, .intFloatCompare _ a b => a.sites ++ b.sites
  | _, .floatIntCompare _ a b => a.sites ++ b.sites
  | _, .floatCompare _ a b => a.sites ++ b.sites
  | _, .same _ a b => a.sites ++ b.sites
  | _, .order _ a b => a.sites ++ b.sites
  | _, .concat a b => a.sites ++ b.sites
  | _, .binary _ a b => a.sites ++ b.sites
  | _, .boolLogical _ a b => a.sites ++ b.sites
  | _, .logical _ a b => a.sites ++ b.sites
  | _, .negInt c => c.sites
  | _, .negFloat c => c.sites
  | _, .not c => c.sites
  | _, .unary _ c => c.sites
  | _, .field _ target => target.sites
  | _, .index target key => target.sites ++ key.sites
  | _, .first code => code.sites
  | _, .table _ inits => Init.allSites inits
  | _, .nil => []
  | _, .bool _ => []
  | _, .int _ => []
  | _, .float _ => []
  | _, .constant _ => []
  | _, .slot _ => []
  | _, .upvalue _ => []
  | _, .global _ => []
  | _, .function _ _ => []

/-- The call sites that occur in the code of a call. -/
def CallCode.sites : CallCode → List SiteId
  | .mk site callee args => site :: (callee.sites ++ Code.allSites args)

/-- The call sites that occur in the code of some expressions. -/
def Code.allSites : List (Code .value) → List SiteId
  | [] => []
  | c :: cs => c.sites ++ Code.allSites cs

/-- The call sites that occur in the entries of a table constructor. -/
def Init.allSites : List Init → List SiteId
  | [] => []
  | .slot _ value :: rest => value.sites ++ Init.allSites rest
  | .named _ value :: rest => value.sites ++ Init.allSites rest
  | .keyed key value :: rest => key.sites ++ value.sites ++ Init.allSites rest
  | .positional value :: rest => value.sites ++ Init.allSites rest

end

/-- The call sites that occur in the operands of a numeric loop. -/
def RangeCode.sites : RangeCode → List SiteId
  | .int start limit step => start.sites ++ limit.sites ++ step.sites
  | .float start limit step => start.sites ++ limit.sites ++ step.sites
  | .dynamic start limit step => start.sites ++ limit.sites ++ step.sites

mutual

/-- The call sites that occur in the code of a statement. -/
def Step.sites : Step → List SiteId
  | .declare _ value => value.sites
  | .assign _ value => value.sites
  | .setUpvalue _ value => value.sites
  | .setGlobal _ value => value.sites
  | .setField _ target value => target.sites ++ value.sites
  | .setIndex target key value => target.sites ++ key.sites ++ value.sites
  | .discard value => value.sites
  | .call code => code.sites
  | .branch cond thenBlock elseBlock =>
    cond.sites ++ Step.allSites thenBlock ++ Step.allSites elseBlock
  | .whileLoop cond body => cond.sites ++ Step.allSites body
  | .forLoop _ range body => range.sites ++ Step.allSites body
  | .ret values => Code.allSites values
  | .retCall code => code.sites
  | .breakLoop => []

/-- The call sites that occur in the code of a block. -/
def Step.allSites : List Step → List SiteId
  | [] => []
  | s :: rest => s.sites ++ Step.allSites rest

end

/-! ## Conversions -/

namespace Emitted

attribute [local simp] Code.sites Code.allSites

/-- The call sites that occur in emitted code. -/
def sites (e : Emitted) : List SiteId :=
  e.code.sites

@[simp] theorem sites_mk (type : Ty) (r : Rep) (c : Code r) :
    (⟨type, r, c⟩ : Emitted).sites = c.sites := rfl

@[simp] theorem sites_narrow (type : Ty) (c : Code .value) : (narrow type c).sites = c.sites := by
  unfold narrow
  split <;> simp

@[simp] theorem sites_boxed (e : Emitted) : e.boxed.sites = e.sites := by
  obtain ⟨type, r, c⟩ := e
  cases r <;> simp [boxed]

@[simp] theorem sites_toInt (e : Emitted) : e.toInt.sites = e.sites := by
  obtain ⟨type, r, c⟩ := e
  cases r <;> simp [toInt, boxed]

@[simp] theorem sites_toFloat (e : Emitted) : e.toFloat.sites = e.sites := by
  obtain ⟨type, r, c⟩ := e
  cases r <;> simp [toFloat]

@[simp] theorem sites_toTruth (e : Emitted) : e.toTruth.sites = e.sites := by
  obtain ⟨type, r, c⟩ := e
  cases r <;> simp [toTruth]

/-- The boxed code of some expressions. -/
@[simp] theorem allSites_boxed (es : List Emitted) :
    Code.allSites (es.map boxed) = es.flatMap sites := by
  induction es with
  | nil => simp
  | cons e es ih => simp [ih]

@[simp] theorem sites_boxedBinary (op : BinOp) (l r : Emitted) :
    (boxedBinary op l r).sites = l.sites ++ r.sites := by
  unfold boxedBinary
  split <;> simp

@[simp] theorem sites_binary (op : BinOp) (l r : Emitted) :
    (binary op l r).sites = l.sites ++ r.sites := by
  unfold binary
  dsimp only
  repeat' split
  all_goals simp

@[simp] theorem sites_logical (op : LogicalOp) (l r : Emitted) :
    (logical op l r).sites = l.sites ++ r.sites := by
  unfold logical
  dsimp only
  split <;> simp

@[simp] theorem sites_unary (op : UnOp) (e : Emitted) : (unary op e).sites = e.sites := by
  unfold unary
  dsimp only
  split <;> simp

end Emitted

theorem Emit.sites_range (start limit step : Emitted) :
    (Emit.range start limit step).sites = start.sites ++ limit.sites ++ step.sites := by
  unfold Emit.range
  split <;> simp [RangeCode.sites]

theorem Emit.allSites_namedInit (l : Layout) (name : String) (value : Emitted) (rest : List Init) :
    Init.allSites (Emit.namedInit l name value :: rest) = value.sites ++ Init.allSites rest := by
  unfold Emit.namedInit
  split <;> simp [Init.allSites]

end AdaptiveScript
