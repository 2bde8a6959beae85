import OSimFlow.Expressions.SafeEval

/-!
# `safe_eval` agrees with Python on its language

The visitor counts the levels of a tree from one, the expression around it included, and the
evaluator from zero: what the visitor lets pass is never too deep for the evaluator. On the
language of the evaluator each case is Python's, but for `and` and `or`, which give the truth
value of the operand that decides.

> `safeEval_spec`: on the language Python's value of the tree with `not not` around each `and`
> and `or`; elsewhere a refusal, before anything is evaluated where the visitor refuses.
-/

namespace OSimFlow.Expressions

open OSimFlow.Lib.Expression

variable {V ε : Type}

/-! ## What the visitor accepts -/

mutual

/-- The levels of a tree. -/
def height : Expr V → Nat
  | .constant _ | .name _ | .other _ => 1
  | .binOp _ left right => 1 + max (height left) (height right)
  | .unaryOp _ operand => 1 + height operand
  | .compare left links => 1 + max (height left) (heightLinks links)
  | .boolOp _ values => 1 + heightList values
  | .ifExp test body orelse => 1 + max (height test) (max (height body) (height orelse))
  | .tuple elts | .list elts | .set elts | .joinedStr elts => 1 + heightList elts
  | .dict entries => 1 + heightEntries entries
  | .formattedValue value formatSpec => 1 + max (height value) (heightOption formatSpec)

def heightLinks : List (CmpOp × Expr V) → Nat
  | [] => 0
  | (_, e) :: links => max (height e) (heightLinks links)

def heightList : List (Expr V) → Nat
  | [] => 0
  | e :: es => max (height e) (heightList es)

def heightEntries : List (Entry V) → Nat
  | [] => 0
  | .item key value :: entries => max (height key) (max (height value) (heightEntries entries))
  | .unpack value :: entries => max (height value) (heightEntries entries)

def heightOption : Option (Expr V) → Nat
  | none => 0
  | some e => height e

end

mutual

/-- Only nodes of the list, and no container that is too large. -/
def NodesAllowed : Expr V → Prop
  | .constant _ | .name _ => True
  | .binOp _ left right => NodesAllowed left ∧ NodesAllowed right
  | .unaryOp _ operand => NodesAllowed operand
  | .compare left links => NodesAllowed left ∧ LinksAllowed links
  | .boolOp _ values | .joinedStr values => ListAllowed values
  | .ifExp test body orelse => NodesAllowed test ∧ NodesAllowed body ∧ NodesAllowed orelse
  | .tuple elts | .list elts | .set elts => elts.length ≤ maxContainerSize ∧ ListAllowed elts
  | .dict entries => entries.length ≤ maxContainerSize ∧ EntriesAllowed entries
  | .formattedValue value formatSpec => NodesAllowed value ∧ OptionAllowed formatSpec
  | .other _ => False

def LinksAllowed : List (CmpOp × Expr V) → Prop
  | [] => True
  | (_, e) :: links => NodesAllowed e ∧ LinksAllowed links

def ListAllowed : List (Expr V) → Prop
  | [] => True
  | e :: es => NodesAllowed e ∧ ListAllowed es

def EntriesAllowed : List (Entry V) → Prop
  | [] => True
  | .item key value :: entries => NodesAllowed key ∧ NodesAllowed value ∧ EntriesAllowed entries
  | .unpack value :: entries => NodesAllowed value ∧ EntriesAllowed entries

def OptionAllowed : Option (Expr V) → Prop
  | none => True
  | some e => NodesAllowed e

end

theorem bind_ok_iff {β : Type} {a b : Except β Unit} :
    (a >>= fun _ => b) = .ok () ↔ a = .ok () ∧ b = .ok () := by
  cases a with
  | error e => exact ⟨fun h => (nomatch h), fun h => (nomatch h.1)⟩
  | ok u => exact ⟨fun h => ⟨rfl, h⟩, fun h => h.2⟩

theorem enter_ok_iff {depth : Nat} : enter depth = .ok () ↔ depth + 1 ≤ maxContainerDepth := by
  unfold enter
  split
  next h => exact ⟨fun hok => (nomatch hok), fun hle => absurd h (Nat.not_lt.mpr hle)⟩
  next h => exact ⟨fun _ => Nat.le_of_not_lt h, fun _ => rfl⟩

theorem checkSize_ok_iff {elements : Nat} :
    checkSize elements = .ok () ↔ elements ≤ maxContainerSize := by
  unfold checkSize
  split
  next h => exact ⟨fun hok => (nomatch hok), fun hle => absurd h (Nat.not_lt.mpr hle)⟩
  next h => exact ⟨fun _ => Nat.le_of_not_lt h, fun _ => rfl⟩

mutual

theorem visit_ok_iff (depth : Nat) : ∀ e : Expr V,
    visit depth e = .ok () ↔ NodesAllowed e ∧ depth + height e ≤ maxContainerDepth
  | .constant value => by
    rw [visit, enter_ok_iff, NodesAllowed, height, true_and]
  | .name id => by
    rw [visit, enter_ok_iff, NodesAllowed, height, true_and]
  | .binOp op left right => by
    rw [visit, bind_ok_iff, bind_ok_iff, enter_ok_iff, visit_ok_iff _ left, visit_ok_iff _ right,
      NodesAllowed, height]
    grind
  | .unaryOp op operand => by
    rw [visit, bind_ok_iff, enter_ok_iff, visit_ok_iff _ operand, NodesAllowed, height]
    grind
  | .compare left links => by
    rw [visit, bind_ok_iff, bind_ok_iff, enter_ok_iff, visit_ok_iff _ left, NodesAllowed, height]
    constructor
    · intro ⟨hdepth, hleft, hlinks⟩
      have hall := (visitLinks_ok_iff hdepth links).mp hlinks
      exact ⟨⟨hleft.1, hall.1⟩, by omega⟩
    · intro ⟨hall, hheight⟩
      have hdepth : depth + 1 ≤ maxContainerDepth := by omega
      exact ⟨hdepth, ⟨hall.1, by omega⟩, (visitLinks_ok_iff hdepth links).mpr ⟨hall.2, by omega⟩⟩
  | .boolOp op values => by
    rw [visit, bind_ok_iff, enter_ok_iff, NodesAllowed, height]
    exact visitList_body_iff values
  | .ifExp test body orelse => by
    rw [visit, bind_ok_iff, bind_ok_iff, bind_ok_iff, enter_ok_iff, visit_ok_iff _ test,
      visit_ok_iff _ body, visit_ok_iff _ orelse, NodesAllowed, height]
    grind
  | .tuple elts => by
    rw [visit, bind_ok_iff, bind_ok_iff, enter_ok_iff, checkSize_ok_iff, NodesAllowed, height,
      visitList_body_iff elts, and_assoc]
  | .list elts => by
    rw [visit, bind_ok_iff, bind_ok_iff, enter_ok_iff, checkSize_ok_iff, NodesAllowed, height,
      visitList_body_iff elts, and_assoc]
  | .set elts => by
    rw [visit, bind_ok_iff, bind_ok_iff, enter_ok_iff, checkSize_ok_iff, NodesAllowed, height,
      visitList_body_iff elts, and_assoc]
  | .dict entries => by
    rw [visit, NodesAllowed, height]
    by_cases hsize : entries.length > maxContainerSize
    · rw [if_pos hsize]
      exact ⟨fun h => (nomatch h), fun h => absurd hsize (Nat.not_lt.mpr h.1.1)⟩
    · rw [if_neg hsize]
      show (enter depth >>= fun _ => visitEntries (depth + 1) entries) = .ok () ↔ _
      rw [bind_ok_iff, enter_ok_iff]
      constructor
      · intro ⟨hdepth, hentries⟩
        have hall := (visitEntries_ok_iff hdepth entries).mp hentries
        exact ⟨⟨Nat.le_of_not_lt hsize, hall.1⟩, by omega⟩
      · intro ⟨hall, hheight⟩
        have hdepth : depth + 1 ≤ maxContainerDepth := by omega
        exact ⟨hdepth, (visitEntries_ok_iff hdepth entries).mpr ⟨hall.2, by omega⟩⟩
  | .formattedValue value none => by
    rw [visit, bind_ok_iff, bind_ok_iff, enter_ok_iff, visit_ok_iff _ value, visitOption,
      NodesAllowed, height, OptionAllowed, heightOption, and_true]
    grind
  | .formattedValue value (some spec) => by
    rw [visit, bind_ok_iff, bind_ok_iff, enter_ok_iff, visit_ok_iff _ value, visitOption,
      visit_ok_iff _ spec, NodesAllowed, height, OptionAllowed, heightOption]
    grind
  | .joinedStr values => by
    rw [visit, bind_ok_iff, enter_ok_iff, NodesAllowed, height]
    exact visitList_body_iff values
  | .other node => by
    rw [visit, NodesAllowed, false_and]
    split <;> exact ⟨fun h => (nomatch h), fun h => h.elim⟩

theorem visitList_body_iff {depth : Nat} (es : List (Expr V)) :
    (depth + 1 ≤ maxContainerDepth ∧ visitList (depth + 1) es = .ok ()) ↔
      ListAllowed es ∧ depth + (1 + heightList es) ≤ maxContainerDepth := by
  constructor
  · intro ⟨hdepth, hes⟩
    have hall := (visitList_ok_iff hdepth es).mp hes
    exact ⟨hall.1, by omega⟩
  · intro ⟨hall, hheight⟩
    have hdepth : depth + 1 ≤ maxContainerDepth := by omega
    exact ⟨hdepth, (visitList_ok_iff hdepth es).mpr ⟨hall, by omega⟩⟩

theorem visitLinks_ok_iff {depth : Nat} (h : depth ≤ maxContainerDepth) :
    ∀ links : List (CmpOp × Expr V), visitLinks depth links = .ok () ↔
      LinksAllowed links ∧ depth + heightLinks links ≤ maxContainerDepth
  | [] => ⟨fun _ => ⟨trivial, h⟩, fun _ => rfl⟩
  | (op, e) :: links => by
    rw [visitLinks, bind_ok_iff, visit_ok_iff _ e, visitLinks_ok_iff h links, LinksAllowed,
      heightLinks]
    grind

theorem visitList_ok_iff {depth : Nat} (h : depth ≤ maxContainerDepth) :
    ∀ es : List (Expr V), visitList depth es = .ok () ↔
      ListAllowed es ∧ depth + heightList es ≤ maxContainerDepth
  | [] => ⟨fun _ => ⟨trivial, h⟩, fun _ => rfl⟩
  | e :: es => by
    rw [visitList, bind_ok_iff, visit_ok_iff _ e, visitList_ok_iff h es, ListAllowed, heightList]
    grind

theorem visitEntries_ok_iff {depth : Nat} (h : depth ≤ maxContainerDepth) :
    ∀ entries : List (Entry V), visitEntries depth entries = .ok () ↔
      EntriesAllowed entries ∧ depth + heightEntries entries ≤ maxContainerDepth
  | [] => ⟨fun _ => ⟨trivial, h⟩, fun _ => rfl⟩
  | .item key value :: entries => by
    rw [visitEntries, bind_ok_iff, bind_ok_iff, visit_ok_iff _ key, visit_ok_iff _ value,
      visitEntries_ok_iff h entries, EntriesAllowed, heightEntries]
    grind
  | .unpack value :: entries => by
    rw [visitEntries, bind_ok_iff, visit_ok_iff _ value, visitEntries_ok_iff h entries,
      EntriesAllowed, heightEntries]
    grind

end

/-- The visitor's decision: the nodes, the sizes, and at most nine levels. -/
theorem checkAst_ok_iff (e : Expr V) :
    checkAst e = .ok () ↔ NodesAllowed e ∧ height e + 1 ≤ maxContainerDepth := by
  unfold checkAst
  rw [bind_ok_iff, visit_ok_iff, Nat.add_comm 1]
  exact ⟨fun h => h.2, fun h => ⟨rfl, h⟩⟩

/-! ## The language of the evaluator -/

mutual

/-- Literals, names, the operators of the evaluator, comparisons, `and`, `or`, `not`, conditional
expressions, and tuples and lists that are not too large. -/
def InLanguage : Expr V → Prop
  | .constant _ | .name _ => True
  | .binOp op left right => op ∈ arithOps ∧ InLanguage left ∧ InLanguage right
  | .unaryOp op operand => op ≠ .invert ∧ InLanguage operand
  | .compare left links => InLanguage left ∧ LinksInLanguage links
  | .boolOp _ values => ListInLanguage values
  | .ifExp test body orelse => InLanguage test ∧ InLanguage body ∧ InLanguage orelse
  | .tuple elts | .list elts => elts.length ≤ maxContainerSize ∧ ListInLanguage elts
  | _ => False

def LinksInLanguage : List (CmpOp × Expr V) → Prop
  | [] => True
  | (_, e) :: links => InLanguage e ∧ LinksInLanguage links

def ListInLanguage : List (Expr V) → Prop
  | [] => True
  | e :: es => InLanguage e ∧ ListInLanguage es

end

mutual

theorem InLanguage.nodesAllowed : ∀ {e : Expr V}, InLanguage e → NodesAllowed e
  | .constant _, _ => trivial
  | .name _, _ => trivial
  | .binOp _ _ _, h => ⟨h.2.1.nodesAllowed, h.2.2.nodesAllowed⟩
  | .unaryOp _ operand, h => InLanguage.nodesAllowed (e := operand) h.2
  | .compare _ _, h => ⟨h.1.nodesAllowed, LinksInLanguage.linksAllowed h.2⟩
  | .boolOp _ _, h => ListInLanguage.listAllowed h
  | .ifExp _ _ _, h => ⟨h.1.nodesAllowed, h.2.1.nodesAllowed, h.2.2.nodesAllowed⟩
  | .tuple _, h => ⟨h.1, ListInLanguage.listAllowed h.2⟩
  | .list _, h => ⟨h.1, ListInLanguage.listAllowed h.2⟩

theorem LinksInLanguage.linksAllowed :
    ∀ {links : List (CmpOp × Expr V)}, LinksInLanguage links → LinksAllowed links
  | [], _ => trivial
  | (_, _) :: _, h => ⟨h.1.nodesAllowed, LinksInLanguage.linksAllowed h.2⟩

theorem ListInLanguage.listAllowed : ∀ {es : List (Expr V)}, ListInLanguage es → ListAllowed es
  | [], _ => trivial
  | _ :: _, h => ⟨h.1.nodesAllowed, ListInLanguage.listAllowed h.2⟩

end

mutual

/-- The tree with `not not` around each `and` and `or`. -/
def boolValued : Expr V → Expr V
  | .binOp op left right => .binOp op (boolValued left) (boolValued right)
  | .unaryOp op operand => .unaryOp op (boolValued operand)
  | .compare left links => .compare (boolValued left) (boolValuedLinks links)
  | .boolOp op values => .unaryOp .not (.unaryOp .not (.boolOp op (boolValuedList values)))
  | .ifExp test body orelse => .ifExp (boolValued test) (boolValued body) (boolValued orelse)
  | .tuple elts => .tuple (boolValuedList elts)
  | .list elts => .list (boolValuedList elts)
  | .constant value => .constant value
  | .name id => .name id
  | .set elts => .set elts
  | .dict entries => .dict entries
  | .formattedValue value formatSpec => .formattedValue value formatSpec
  | .joinedStr values => .joinedStr values
  | .other node => .other node

def boolValuedLinks : List (CmpOp × Expr V) → List (CmpOp × Expr V)
  | [] => []
  | (op, e) :: links => (op, boolValued e) :: boolValuedLinks links

def boolValuedList : List (Expr V) → List (Expr V)
  | [] => []
  | e :: es => boolValued e :: boolValuedList es

end

/-- An unknown name is an `ExpressionError` here. -/
def asEvalError : Raised ε → EvalError ε
  | .nameError id => .expressionError (.unknownVariable id)
  | .raised e => .raised e

theorem mapError_raised {β : Type} (x : Except ε β) :
    (x.mapError Raised.raised).mapError asEvalError = x.mapError EvalError.raised := by
  cases x <;> rfl

section

variable {P : Python V ε} {D : Displays V ε} {env : String → Option V}

mutual

/-- The evaluator's case is Python's, below any depth that leaves room for the tree. -/
theorem evalNode_eq : ∀ (e : Expr V) (depth : Nat), InLanguage e →
    depth + height e ≤ maxContainerDepth + 1 →
    evalNode P D env depth e = (P.eval env (boolValued e)).mapError asEvalError
  | .constant value, depth, _, hd => by
    rw [height] at hd
    rw [evalNode, if_neg (by omega)]
    rfl
  | .name id, depth, _, hd => by
    rw [height] at hd
    rw [evalNode, if_neg (by omega), boolValued, Python.eval]
    cases env id <;> rfl
  | .binOp op left right, depth, h, hd => by
    rw [height] at hd
    obtain ⟨hop, hl, hr⟩ := h
    rw [evalNode, if_neg (by omega), if_pos hop, evalNode_eq left (depth + 1) hl (by omega),
      evalNode_eq right (depth + 1) hr (by omega), boolValued, Python.eval]
    cases P.eval env (boolValued left) with
    | error r => rfl
    | ok x =>
      cases P.eval env (boolValued right) with
      | error r => rfl
      | ok y => exact (mapError_raised (P.binary op x y)).symm
  | .unaryOp .invert _, _, h, _ => absurd rfl h.1
  | .unaryOp .not operand, depth, h, hd => by
    rw [height] at hd
    rw [evalNode, if_neg (by omega), evalNode_eq operand (depth + 1) h.2 (by omega), boolValued,
      Python.eval]
    cases P.eval env (boolValued operand) <;> rfl
  | .unaryOp .uSub operand, depth, h, hd => by
    rw [height] at hd
    rw [evalNode, if_neg (by omega), evalNode_eq operand (depth + 1) h.2 (by omega), boolValued,
      Python.eval]
    cases P.eval env (boolValued operand) with
    | error r => rfl
    | ok x => exact (mapError_raised (P.unary .uSub x)).symm
  | .unaryOp .uAdd operand, depth, h, hd => by
    rw [height] at hd
    rw [evalNode, if_neg (by omega), evalNode_eq operand (depth + 1) h.2 (by omega), boolValued,
      Python.eval]
    cases P.eval env (boolValued operand) with
    | error r => rfl
    | ok x => exact (mapError_raised (P.unary .uAdd x)).symm
  | .compare left links, depth, h, hd => by
    rw [height] at hd
    rw [evalNode, if_neg (by omega), evalNode_eq left (depth + 1) h.1 (by omega), boolValued,
      Python.eval]
    cases P.eval env (boolValued left) with
    | error r => rfl
    | ok x => exact evalLinks_eq x links (depth + 1) h.2 (by omega)
  | .boolOp .and values, depth, h, hd => by
    rw [height] at hd
    rw [evalNode, if_neg (by omega), boolValued, Python.eval_not_not, Python.eval]
    exact evalAll_eq values (depth + 1) h (by omega)
  | .boolOp .or values, depth, h, hd => by
    rw [height] at hd
    rw [evalNode, if_neg (by omega), boolValued, Python.eval_not_not, Python.eval]
    exact evalAny_eq values (depth + 1) h (by omega)
  | .ifExp test body orelse, depth, h, hd => by
    rw [height] at hd
    rw [evalNode, if_neg (by omega), evalNode_eq test (depth + 1) h.1 (by omega),
      evalNode_eq body (depth + 1) h.2.1 (by omega), evalNode_eq orelse (depth + 1) h.2.2 (by omega), boolValued, Python.eval]
    cases P.eval env (boolValued test) with
    | error r => rfl
    | ok x =>
      show (if P.truth x = true then _ else _) = Except.mapError _ (if P.truth x = true then _ else _)
      split <;> rfl
  | .tuple elts, depth, h, hd => by
    rw [height] at hd
    rw [evalNode, if_neg (by omega), evalElts_eq elts (depth + 1) h.2 (by omega), boolValued,
      Python.eval]
    cases P.evalList env (boolValuedList elts) <;> rfl
  | .list elts, depth, h, hd => by
    rw [height] at hd
    rw [evalNode, if_neg (by omega), evalElts_eq elts (depth + 1) h.2 (by omega), boolValued,
      Python.eval]
    cases P.evalList env (boolValuedList elts) <;> rfl

theorem evalLinks_eq (x : V) : ∀ (links : List (CmpOp × Expr V)) (depth : Nat),
    LinksInLanguage links → depth + heightLinks links ≤ maxContainerDepth + 1 →
    evalLinks P D env depth x links =
      (P.evalLinks env x (boolValuedLinks links)).mapError asEvalError
  | [], _, _, _ => rfl
  | (op, e) :: links, depth, h, hd => by
    rw [heightLinks] at hd
    rw [evalLinks, evalNode_eq e depth h.1 (by omega), boolValuedLinks, Python.evalLinks]
    cases P.eval env (boolValued e) with
    | error r => rfl
    | ok y =>
      cases hcmp : P.compare op x y with
      | error r =>
        show ((P.compare op x y).mapError EvalError.raised >>= _) =
          Except.mapError _ ((P.compare op x y).mapError Raised.raised >>= _)
        rw [hcmp]
        rfl
      | ok holds =>
        show ((P.compare op x y).mapError EvalError.raised >>= _) =
          Except.mapError _ ((P.compare op x y).mapError Raised.raised >>= _)
        rw [hcmp]
        cases holds with
        | false => rfl
        | true => exact evalLinks_eq y links depth h.2 (by omega)

theorem evalAll_eq : ∀ (es : List (Expr V)) (depth : Nat), ListInLanguage es →
    depth + heightList es ≤ maxContainerDepth + 1 →
    evalAll P D env depth es = Except.mapError asEvalError
      ((P.evalAnd env (boolValuedList es)).map fun x => P.ofBool (P.truth x))
  | [], _, _, _ => by
    show Except.ok (P.ofBool true) = Except.ok (P.ofBool (P.truth (P.ofBool true)))
    rw [P.truth_ofBool]
  | [e], depth, h, hd => by
    rw [heightList] at hd
    rw [evalAll, evalNode_eq e depth h.1 (by omega), boolValuedList, boolValuedList, Python.evalAnd]
    cases P.eval env (boolValued e) with
    | error r => rfl
    | ok x =>
      show (if P.truth x = true then _ else _) = Except.ok (P.ofBool (P.truth x))
      cases P.truth x <;> rfl
  | e :: e' :: es, depth, h, hd => by
    rw [heightList] at hd
    rw [evalAll, evalNode_eq e depth h.1 (by omega), evalAll_eq (e' :: es) depth h.2 (by omega),
      boolValuedList, boolValuedList, boolValuedList, Python.evalAnd_cons_cons]
    cases P.eval env (boolValued e) with
    | error r => rfl
    | ok x =>
      show (if P.truth x = true then _ else _) =
        Except.mapError _ (Except.map _ (if P.truth x = true then _ else _))
      cases htruth : P.truth x with
      | true => rfl
      | false =>
        show Except.ok (P.ofBool false) = Except.ok (P.ofBool (P.truth x))
        rw [htruth]

theorem evalAny_eq : ∀ (es : List (Expr V)) (depth : Nat), ListInLanguage es →
    depth + heightList es ≤ maxContainerDepth + 1 →
    evalAny P D env depth es = Except.mapError asEvalError
      ((P.evalOr env (boolValuedList es)).map fun x => P.ofBool (P.truth x))
  | [], _, _, _ => by
    show Except.ok (P.ofBool false) = Except.ok (P.ofBool (P.truth (P.ofBool false)))
    rw [P.truth_ofBool]
  | [e], depth, h, hd => by
    rw [heightList] at hd
    rw [evalAny, evalNode_eq e depth h.1 (by omega), boolValuedList, boolValuedList, Python.evalOr]
    cases P.eval env (boolValued e) with
    | error r => rfl
    | ok x =>
      show (if P.truth x = true then _ else _) = Except.ok (P.ofBool (P.truth x))
      cases P.truth x <;> rfl
  | e :: e' :: es, depth, h, hd => by
    rw [heightList] at hd
    rw [evalAny, evalNode_eq e depth h.1 (by omega), evalAny_eq (e' :: es) depth h.2 (by omega),
      boolValuedList, boolValuedList, boolValuedList, Python.evalOr_cons_cons]
    cases P.eval env (boolValued e) with
    | error r => rfl
    | ok x =>
      show (if P.truth x = true then _ else _) =
        Except.mapError _ (Except.map _ (if P.truth x = true then _ else _))
      cases htruth : P.truth x with
      | true =>
        show Except.ok (P.ofBool true) = Except.ok (P.ofBool (P.truth x))
        rw [htruth]
      | false => rfl

theorem evalElts_eq : ∀ (es : List (Expr V)) (depth : Nat), ListInLanguage es →
    depth + heightList es ≤ maxContainerDepth + 1 →
    evalElts P D env depth es = (P.evalList env (boolValuedList es)).mapError asEvalError
  | [], _, _, _ => rfl
  | e :: es, depth, h, hd => by
    rw [heightList] at hd
    rw [evalElts, evalNode_eq e depth h.1 (by omega), evalElts_eq es depth h.2 (by omega),
      boolValuedList, Python.evalList]
    cases P.eval env (boolValued e) with
    | error r => rfl
    | ok x => cases P.evalList env (boolValuedList es) <;> rfl

end

end

/-! ## The specification -/

/-- What the evaluator refuses when it gets there. -/
def unsupported : Expr V → Option Refusal
  | .binOp op _ _ => if op ∈ arithOps then none else some (.unsupportedBinaryOperator op)
  | .unaryOp .invert _ => some (.unsupportedUnaryOperator .invert)
  | .formattedValue _ _ => some (.unhandledNode "FormattedValue")
  | .joinedStr _ => some (.unhandledNode "JoinedStr")
  | _ => none

/-- An operator without a case and an f-string are refused with no operand evaluated. -/
theorem evalNode_unsupported (P : Python V ε) (D : Displays V ε) (env : String → Option V)
    {e : Expr V} {reason : Refusal} {depth : Nat} (h : unsupported e = some reason)
    (hd : depth ≤ maxContainerDepth) :
    evalNode P D env depth e = .error (.expressionError reason) := by
  unfold unsupported at h
  split at h
  next op left right =>
    split at h
    next => exact nomatch h
    next hop =>
      cases h
      rw [evalNode, if_neg (by omega), if_neg hop]
  next =>
    cases h
    rw [evalNode, if_neg (by omega)]
    all_goals exact nofun
  next =>
    cases h
    rw [evalNode, if_neg (by omega)]
  next =>
    cases h
    rw [evalNode, if_neg (by omega)]
  next => exact nomatch h

/-- `safe_eval` on every tree. In its language, up to nine levels, it gives what Python gives for
the tree with `not not` around each `and` and `or`, an unknown name being an `ExpressionError`. A
tree with another node than those of the visitor's list, with a container that is too large or
with more levels is refused by the visitor. The operators and f-strings that only the visitor
knows, and `**` in a dictionary, are refused by the evaluator with no operand evaluated. -/
theorem safeEval_spec (P : Python V ε) (D : Displays V ε) (env : String → Option V) :
    (∀ e, InLanguage e → height e + 1 ≤ maxContainerDepth →
      safeEval P D env e = (P.eval env (boolValued e)).mapError asEvalError) ∧
    (∀ e, ¬ (NodesAllowed e ∧ height e + 1 ≤ maxContainerDepth) →
      ∃ reason, checkAst e = .error reason ∧
        safeEval P D env e = .error (.expressionError reason)) ∧
    (∀ e reason depth, unsupported e = some reason → depth ≤ maxContainerDepth →
      evalNode P D env depth e = .error (.expressionError reason)) ∧
    ∀ filled value entries depth, depth ≤ maxContainerDepth →
      evalDict P D env depth filled (.unpack value :: entries) =
        .error (.expressionError (.unhandledNode "NoneType")) := by
  refine ⟨?_, ?_, ?_, ?_⟩
  · intro e hlang hheight
    have hcheck : checkAst e = .ok () := (checkAst_ok_iff e).mpr ⟨hlang.nodesAllowed, hheight⟩
    unfold safeEval
    rw [hcheck]
    exact evalNode_eq e 0 hlang (by omega)
  · intro e hnot
    unfold safeEval
    cases hcheck : checkAst e with
    | ok u => exact absurd ((checkAst_ok_iff e).mp hcheck) hnot
    | error reason => exact ⟨reason, rfl, rfl⟩
  · intro e reason depth h hd
    exact evalNode_unsupported P D env h hd
  · intro filled value entries depth hd
    rw [evalDict, if_neg (by omega)]

/-! ## The operand of `and` -/

/-- Integers and booleans, with the operators that stay among them. -/
inductive Scalar where
  | bool (b : Bool)
  | int (n : Int)
  | tuple (values : List Scalar)

namespace Scalar

/-- A boolean counts as `0` or `1`. -/
def toInt : Scalar → Option Int
  | .bool b => some (if b then 1 else 0)
  | .int n => some n
  | .tuple _ => none

/-- Python's operators, where both operands are integers or booleans and the result is; the
others are left out. -/
def python : Python Scalar String where
  truth
    | .bool b => b
    | .int n => decide (n ≠ 0)
    | .tuple values => !values.isEmpty
  ofBool := .bool
  truth_ofBool _ := rfl
  binary op x y :=
    match op, x.toInt, y.toInt with
    | .add, some m, some n => .ok (.int (m + n))
    | .sub, some m, some n => .ok (.int (m - n))
    | .mult, some m, some n => .ok (.int (m * n))
    | _, _, _ => .error "TypeError"
  unary op x :=
    match op, x.toInt with
    | .uSub, some n => .ok (.int (-n))
    | .uAdd, some n => .ok (.int n)
    | _, _ => .error "TypeError"
  compare op x y :=
    match op, x.toInt, y.toInt with
    | .eq, some m, some n => .ok (decide (m = n))
    | .lt, some m, some n => .ok (decide (m < n))
    | _, _, _ => .error "TypeError"
  tuple := .tuple
  list := .tuple
  beyond _ _ := .error (.raised "TypeError")

def displays : Displays Scalar String where
  emptySet := .tuple []
  add _ _ := .error "TypeError"
  emptyDict := .tuple []
  setItem _ _ _ := .error "TypeError"

end Scalar

/-- `0 < x < 10 and not y`, with `x = 4` and `y = False`. -/
theorem safeEval_between :
    safeEval Scalar.python Scalar.displays
        (fun id => if id = "x" then some (.int 4) else if id = "y" then some (.bool false) else none)
        (.boolOp .and [.compare (.constant (.int 0)) [(.lt, .name "x"), (.lt, .constant (.int 10))],
          .unaryOp .not (.name "y")]) = .ok (.bool true) := by
  have hheight : 3 + 1 ≤ maxContainerDepth := by decide
  exact (safeEval_spec _ _ _).1 _
    ⟨⟨trivial, trivial, trivial, trivial⟩, ⟨nofun, trivial⟩, trivial⟩ hheight

/-- `2 and 3` is `True` for `safe_eval` and `3` for Python. -/
theorem and_gives_truth_value :
    safeEval Scalar.python Scalar.displays (fun _ => none)
        (.boolOp .and [.constant (.int 2), .constant (.int 3)]) = .ok (.bool true) ∧
      Scalar.python.eval (fun _ => none)
        (.boolOp .and [.constant (.int 2), .constant (.int 3)]) = .ok (.int 3) :=
  ⟨rfl, rfl⟩

end OSimFlow.Expressions
