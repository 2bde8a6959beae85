import OSimFlow.Lib.Expression

/-!
# `safe_eval`

Two walks over the tree of an expression. The visitor refuses what is not on its list, what is
nested too deep and containers that are too large; the evaluator computes the value, with a
depth of its own. What the evaluator has no case for it refuses as well, when it gets there.

> `safeEval_spec`: on its language `safe_eval` gives what Python gives, with the truth value of
> `and` and `or` in place of their operand; what the visitor refuses is refused before anything
> is evaluated.

The operators are Python's (`operator.add` and the rest); sets and dictionaries are filled item
by item.
-/

namespace OSimFlow.Expressions

open OSimFlow.Lib.Expression

/-! ## The two walks -/

/-- What an `ExpressionError` says. -/
inductive Refusal where
  /-- `disallowed node type … in expression` -/
  | disallowedNode (node : String)
  /-- `unknown node type … in expression` -/
  | unknownNode (node : String)
  /-- `container has … elements, max is 1000` -/
  | containerSize (elements : Nat)
  /-- `dict has … entries, max is 1000` -/
  | dictSize (entries : Nat)
  /-- `container nesting depth … exceeds max 10` -/
  | nestingDepth (depth : Nat)
  /-- `unknown variable … in expression` -/
  | unknownVariable (id : String)
  | unsupportedBinaryOperator (op : BinaryOp)
  | unsupportedUnaryOperator (op : UnaryOp)
  /-- `unhandled node type …` -/
  | unhandledNode (node : String)
deriving DecidableEq, Repr

/-- `ExpressionError`, or what an operator raises. -/
inductive EvalError (ε : Type) where
  | expressionError (reason : Refusal)
  | raised (e : ε)
deriving DecidableEq

/-- `_MAX_CONTAINER_DEPTH`. -/
def maxContainerDepth : Nat := 10

/-- `_MAX_CONTAINER_SIZE`. -/
def maxContainerSize : Nat := 1000

/-- The names of `_UNSAFE_NODES`. -/
def unsafeNodes : List String :=
  ["Call", "Lambda", "ListComp", "SetComp", "DictComp", "GeneratorExp", "Yield", "YieldFrom",
    "Await", "Import", "ImportFrom", "alias", "Subscript", "Slice", "Index"]

/-- `self._depth += 1` and the test of it. -/
def enter (depth : Nat) : Except Refusal Unit :=
  if depth + 1 > maxContainerDepth then .error (.nestingDepth (depth + 1)) else .ok ()

/-- The test of the size of a tuple, a list or a set. -/
def checkSize (elements : Nat) : Except Refusal Unit :=
  if elements > maxContainerSize then .error (.containerSize elements) else .ok ()

variable {V ε : Type}

mutual

/-- `_SafeVisitor.generic_visit(node)`, with `_depth` before the node. -/
def visit (depth : Nat) : Expr V → Except Refusal Unit
  | .constant _ => enter depth
  | .name _ => enter depth
  | .binOp _ left right => do
    enter depth
    visit (depth + 1) left
    visit (depth + 1) right
  | .unaryOp _ operand => do
    enter depth
    visit (depth + 1) operand
  | .compare left links => do
    enter depth
    visit (depth + 1) left
    visitLinks (depth + 1) links
  | .boolOp _ values => do
    enter depth
    visitList (depth + 1) values
  | .ifExp test body orelse => do
    enter depth
    visit (depth + 1) test
    visit (depth + 1) body
    visit (depth + 1) orelse
  | .tuple elts => do
    checkSize elts.length
    enter depth
    visitList (depth + 1) elts
  | .list elts => do
    checkSize elts.length
    enter depth
    visitList (depth + 1) elts
  | .set elts => do
    checkSize elts.length
    enter depth
    visitList (depth + 1) elts
  | .dict entries => do
    if entries.length > maxContainerSize then throw (.dictSize entries.length)
    enter depth
    visitEntries (depth + 1) entries
  | .formattedValue value formatSpec => do
    enter depth
    visit (depth + 1) value
    visitOption (depth + 1) formatSpec
  | .joinedStr values => do
    enter depth
    visitList (depth + 1) values
  | .other node =>
    if node ∈ unsafeNodes then .error (.disallowedNode node) else .error (.unknownNode node)

def visitLinks (depth : Nat) : List (CmpOp × Expr V) → Except Refusal Unit
  | [] => .ok ()
  | (_, e) :: links => do
    visit depth e
    visitLinks depth links

def visitList (depth : Nat) : List (Expr V) → Except Refusal Unit
  | [] => .ok ()
  | e :: es => do
    visit depth e
    visitList depth es

def visitEntries (depth : Nat) : List (Entry V) → Except Refusal Unit
  | [] => .ok ()
  | .item key value :: entries => do
    visit depth key
    visit depth value
    visitEntries depth entries
  | .unpack value :: entries => do
    visit depth value
    visitEntries depth entries

def visitOption (depth : Nat) : Option (Expr V) → Except Refusal Unit
  | none => .ok ()
  | some e => visit depth e

end

/-- `_check_ast(tree)`, where `tree` is the `Expression` around `body`. -/
def checkAst (body : Expr V) : Except Refusal Unit := do
  enter 0
  visit 1 body

/-- The operators in `_ARITH_OPS`. -/
def arithOps : List BinaryOp := [.add, .sub, .mult, .div, .floorDiv, .mod, .pow]

/-- How a set and a dictionary are filled; an unhashable item raises. -/
structure Displays (V ε : Type) where
  emptySet : V
  add : V → V → Except ε V
  emptyDict : V
  setItem : V → V → V → Except ε V

section

variable (P : Python V ε) (D : Displays V ε) (env : String → Option V)

mutual

/-- `_eval_node(node, globals_dict, depth)`. -/
def evalNode (depth : Nat) (e : Expr V) : Except (EvalError ε) V :=
  if depth > maxContainerDepth then .error (.expressionError (.nestingDepth depth))
  else
    match e with
    | .constant value => .ok value
    | .name id =>
      match env id with
      | some value => .ok value
      | none => .error (.expressionError (.unknownVariable id))
    | .binOp op left right =>
      if op ∈ arithOps then do
        let x ← evalNode (depth + 1) left
        let y ← evalNode (depth + 1) right
        (P.binary op x y).mapError .raised
      else .error (.expressionError (.unsupportedBinaryOperator op))
    | .unaryOp .not operand => do
      let x ← evalNode (depth + 1) operand
      return P.ofBool (!P.truth x)
    | .unaryOp .uSub operand => do
      let x ← evalNode (depth + 1) operand
      (P.unary .uSub x).mapError .raised
    | .unaryOp .uAdd operand => do
      let x ← evalNode (depth + 1) operand
      (P.unary .uAdd x).mapError .raised
    | .unaryOp op _ => .error (.expressionError (.unsupportedUnaryOperator op))
    | .compare left links => do
      let x ← evalNode (depth + 1) left
      evalLinks (depth + 1) x links
    | .boolOp .and values => evalAll (depth + 1) values
    | .boolOp .or values => evalAny (depth + 1) values
    | .ifExp test body orelse => do
      let x ← evalNode (depth + 1) test
      if P.truth x then evalNode (depth + 1) body else evalNode (depth + 1) orelse
    | .tuple elts => do
      let values ← evalElts (depth + 1) elts
      return P.tuple values
    | .list elts => do
      let values ← evalElts (depth + 1) elts
      return P.list values
    | .set elts => evalSet (depth + 1) D.emptySet elts
    | .dict entries => evalDict (depth + 1) D.emptyDict entries
    | .formattedValue _ _ => .error (.expressionError (.unhandledNode "FormattedValue"))
    | .joinedStr _ => .error (.expressionError (.unhandledNode "JoinedStr"))
    | .other node => .error (.expressionError (.unhandledNode node))

/-- The loop over `ops` and `comparators`. -/
def evalLinks (depth : Nat) (left : V) : List (CmpOp × Expr V) → Except (EvalError ε) V
  | [] => .ok (P.ofBool true)
  | (op, e) :: links => do
    let right ← evalNode depth e
    let holds ← (P.compare op left right).mapError .raised
    if holds then evalLinks depth right links else return P.ofBool false

/-- `all(_eval_node(v) for v in values)`. -/
def evalAll (depth : Nat) : List (Expr V) → Except (EvalError ε) V
  | [] => .ok (P.ofBool true)
  | e :: es => do
    let x ← evalNode depth e
    if P.truth x then evalAll depth es else return P.ofBool false

/-- `any(_eval_node(v) for v in values)`. -/
def evalAny (depth : Nat) : List (Expr V) → Except (EvalError ε) V
  | [] => .ok (P.ofBool false)
  | e :: es => do
    let x ← evalNode depth e
    if P.truth x then return P.ofBool true else evalAny depth es

/-- `[_eval_node(elt) for elt in elts]`. -/
def evalElts (depth : Nat) : List (Expr V) → Except (EvalError ε) (List V)
  | [] => .ok []
  | e :: es => do
    let x ← evalNode depth e
    let xs ← evalElts depth es
    return x :: xs

/-- `{_eval_node(elt) for elt in elts}`. -/
def evalSet (depth : Nat) (filled : V) : List (Expr V) → Except (EvalError ε) V
  | [] => .ok filled
  | e :: es => do
    let x ← evalNode depth e
    let more ← (D.add filled x).mapError .raised
    evalSet depth more es

/-- `{_eval_node(k): _eval_node(v) for k, v in zip(keys, values)}`; the key of `**v` is `None`,
which is no node. -/
def evalDict (depth : Nat) (filled : V) : List (Entry V) → Except (EvalError ε) V
  | [] => .ok filled
  | .item key value :: entries => do
    let k ← evalNode depth key
    let v ← evalNode depth value
    let more ← (D.setItem filled k v).mapError .raised
    evalDict depth more entries
  | .unpack _ :: _ =>
    if depth > maxContainerDepth then .error (.expressionError (.nestingDepth depth))
    else .error (.expressionError (.unhandledNode "NoneType"))

end

/-- `safe_eval`, from the parsed tree on. -/
def safeEval (body : Expr V) : Except (EvalError ε) V :=
  match checkAst body with
  | .error reason => .error (.expressionError reason)
  | .ok () => evalNode P D env 0 body

end

end OSimFlow.Expressions
