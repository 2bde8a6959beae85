import Mathlib.Data.List.Basic

/-!
# Python expressions and what they evaluate to

The nodes of `ast` for expressions. Values and their operators are a parameter, `Python`; it
also says what the nodes are worth that have no rule here (sets, dictionaries, f-strings, calls
and the rest). Comparisons give booleans, as they do on numbers, strings and sequences of them.

`and` and `or` stop at the operand that decides and give that operand, a chain of comparisons
stops at the first that fails, and each operand is evaluated once, from left to right.
-/

namespace OSimFlow.Lib.Expression

inductive BinaryOp where
  | add | sub | mult | div | floorDiv | mod | pow
  | matMult | lShift | rShift | bitOr | bitXor | bitAnd
deriving DecidableEq, Repr

inductive UnaryOp where
  | not | uSub | uAdd | invert
deriving DecidableEq, Repr

inductive CmpOp where
  | eq | notEq | lt | ltE | gt | gtE | is | isNot | isIn | notIn
deriving DecidableEq, Repr

inductive BoolOp where
  | and | or
deriving DecidableEq, Repr

mutual

/-- An expression; a literal is the value it stands for. -/
inductive Expr (V : Type) where
  | constant (value : V)
  | name (id : String)
  | binOp (op : BinaryOp) (left right : Expr V)
  | unaryOp (op : UnaryOp) (operand : Expr V)
  /-- `left`, then every operator with the operand at its right. -/
  | compare (left : Expr V) (links : List (CmpOp × Expr V))
  | boolOp (op : BoolOp) (values : List (Expr V))
  | ifExp (test body orelse : Expr V)
  | tuple (elts : List (Expr V))
  | list (elts : List (Expr V))
  | set (elts : List (Expr V))
  | dict (entries : List (Entry V))
  | formattedValue (value : Expr V) (formatSpec : Option (Expr V))
  | joinedStr (values : List (Expr V))
  /-- Any other node, by the name of its class. -/
  | other (node : String)

/-- `key: value` or `**value` in a dictionary. -/
inductive Entry (V : Type) where
  | item (key value : Expr V)
  | unpack (value : Expr V)

end

/-- What an evaluation raises: an unknown name, or what an operator raises. -/
inductive Raised (ε : Type) where
  | nameError (id : String)
  | raised (e : ε)
deriving DecidableEq

/-- Values in `V` and their operators, which may raise an `ε`. -/
structure Python (V ε : Type) where
  truth : V → Bool
  ofBool : Bool → V
  truth_ofBool : ∀ b, truth (ofBool b) = b
  binary : BinaryOp → V → V → Except ε V
  /-- All of them but `not`. -/
  unary : UnaryOp → V → Except ε V
  compare : CmpOp → V → V → Except ε Bool
  tuple : List V → V
  list : List V → V
  /-- What the other nodes are worth. -/
  beyond : (String → Option V) → Expr V → Except (Raised ε) V

namespace Python

variable {V ε : Type} (P : Python V ε) (env : String → Option V)

mutual

def eval : Expr V → Except (Raised ε) V
  | .constant value => .ok value
  | .name id =>
    match env id with
    | some value => .ok value
    | none => .error (.nameError id)
  | .binOp op left right => do
    let x ← eval left
    let y ← eval right
    (P.binary op x y).mapError .raised
  | .unaryOp op operand => do
    let x ← eval operand
    match op with
    | .not => .ok (P.ofBool (!P.truth x))
    | _ => (P.unary op x).mapError .raised
  | .compare left links => do
    let x ← eval left
    evalLinks x links
  | .boolOp .and values => evalAnd values
  | .boolOp .or values => evalOr values
  | .ifExp test body orelse => do
    let x ← eval test
    if P.truth x then eval body else eval orelse
  | .tuple elts => do
    let values ← evalList elts
    return P.tuple values
  | .list elts => do
    let values ← evalList elts
    return P.list values
  | e => P.beyond env e

/-- `x op y and y op z and …`. -/
def evalLinks (x : V) : List (CmpOp × Expr V) → Except (Raised ε) V
  | [] => .ok (P.ofBool true)
  | (op, right) :: links => do
    let y ← eval right
    let holds ← (P.compare op x y).mapError .raised
    if holds then evalLinks y links else .ok (P.ofBool false)

def evalAnd : List (Expr V) → Except (Raised ε) V
  | [] => .ok (P.ofBool true)
  | [e] => eval e
  | e :: es => do
    let x ← eval e
    if P.truth x then evalAnd es else .ok x

def evalOr : List (Expr V) → Except (Raised ε) V
  | [] => .ok (P.ofBool false)
  | [e] => eval e
  | e :: es => do
    let x ← eval e
    if P.truth x then .ok x else evalOr es

def evalList : List (Expr V) → Except (Raised ε) (List V)
  | [] => .ok []
  | e :: es => do
    let x ← eval e
    let xs ← evalList es
    return x :: xs

end

variable {P env}

theorem evalAnd_cons_cons (e e' : Expr V) (es : List (Expr V)) :
    P.evalAnd env (e :: e' :: es) = (do
      let x ← P.eval env e
      if P.truth x then P.evalAnd env (e' :: es) else .ok x) := by
  rw [evalAnd]
  exact nofun

theorem evalOr_cons_cons (e e' : Expr V) (es : List (Expr V)) :
    P.evalOr env (e :: e' :: es) = (do
      let x ← P.eval env e
      if P.truth x then .ok x else P.evalOr env (e' :: es)) := by
  rw [evalOr]
  exact nofun

theorem eval_not_not (e : Expr V) : P.eval env (.unaryOp .not (.unaryOp .not e)) =
    (P.eval env e).map fun x => P.ofBool (P.truth x) := by
  show (do
    let y ← (do
      let x ← P.eval env e
      .ok (P.ofBool (!P.truth x)))
    .ok (P.ofBool (!P.truth y))) = _
  cases P.eval env e with
  | error r => rfl
  | ok x =>
    show Except.ok (P.ofBool (!P.truth (P.ofBool (!P.truth x)))) = _
    rw [P.truth_ofBool, Bool.not_not]
    rfl

end Python

end OSimFlow.Lib.Expression
