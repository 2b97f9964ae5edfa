import LoxLang.Proofs.Splitting.Rules

/-!
# Trees without numbers

The numbers of mentions depend on what was read before them. Two trees that differ in nothing else
are the same text; with every number set to nought they are equal.

1. `Stmt.unnumberedAll_moveAll`: what is read later differs in its numbers only.
-/

namespace LoxLang

def Occurrence.unnumbered (o : Occurrence) : Occurrence :=
  { o with id := 0 }

mutual

def Expr.unnumbered : Expr → Expr
  | .literal value => .literal value
  | .grouping inner => .grouping inner.unnumbered
  | .unary operator operand => .unary operator operand.unnumbered
  | .binary left operator right => .binary left.unnumbered operator right.unnumbered
  | .logical left operator right => .logical left.unnumbered operator right.unnumbered
  | .var name => .var name.unnumbered
  | .assign target value => .assign target.unnumbered value.unnumbered
  | .call callee close arguments =>
    .call callee.unnumbered close (Expr.unnumberedAll arguments)
  | .get object name => .get object.unnumbered name
  | .set object name value => .set object.unnumbered name value.unnumbered
  | .this keyword => .this keyword.unnumbered
  | .super keyword method => .super keyword.unnumbered method

def Expr.unnumberedAll : List Expr → List Expr
  | [] => []
  | e :: rest => e.unnumbered :: Expr.unnumberedAll rest

end

mutual

def Stmt.unnumbered : Stmt → Stmt
  | .expression value => .expression value.unnumbered
  | .print value => .print value.unnumbered
  | .varDecl name initializer => .varDecl name (initializer.map Expr.unnumbered)
  | .block body => .block (Stmt.unnumberedAll body)
  | .ifThen condition thenBranch => .ifThen condition.unnumbered thenBranch.unnumbered
  | .ifElse condition thenBranch elseBranch =>
    .ifElse condition.unnumbered thenBranch.unnumbered elseBranch.unnumbered
  | .whileDo condition body => .whileDo condition.unnumbered body.unnumbered
  | .funDecl decl => .funDecl decl.unnumbered
  | .ret keyword value => .ret keyword (value.map Expr.unnumbered)
  | .classDecl name superclass methods =>
    .classDecl name (superclass.map Occurrence.unnumbered) (FunctionDecl.unnumberedAll methods)

def FunctionDecl.unnumbered : FunctionDecl → FunctionDecl
  | ⟨name, params, body⟩ => ⟨name, params, Stmt.unnumberedAll body⟩

def Stmt.unnumberedAll : List Stmt → List Stmt
  | [] => []
  | s :: rest => s.unnumbered :: Stmt.unnumberedAll rest

def FunctionDecl.unnumberedAll : List FunctionDecl → List FunctionDecl
  | [] => []
  | m :: rest => m.unnumbered :: FunctionDecl.unnumberedAll rest

end

theorem Stmt.unnumberedAll_append (body rest : List Stmt) :
    Stmt.unnumberedAll (body ++ rest) = Stmt.unnumberedAll body ++ Stmt.unnumberedAll rest := by
  induction body with
  | nil => rfl
  | cons s body ih => rw [List.cons_append, Stmt.unnumberedAll, ih]; rfl

theorem Stmt.unnumbered_forLoop (initializer : Option Stmt) (condition increment : Option Expr)
    (body : Stmt) :
    (Stmt.forLoop initializer condition increment body).unnumbered =
      Stmt.forLoop (initializer.map Stmt.unnumbered) (condition.map Expr.unnumbered)
        (increment.map Expr.unnumbered) body.unnumbered := by
  cases initializer <;> cases condition <;> cases increment <;>
    simp [Stmt.forLoop, Stmt.unnumbered, Stmt.unnumberedAll, Expr.unnumbered]

/-! ## Text read later -/

variable (k : Nat)

theorem Token.move_on (t : Token) : t.move (.on k) = t := rfl

theorem Token.map_move_on (ts : List Token) : ts.map (Token.move (.on k)) = ts :=
  List.map_id ts

theorem Occurrence.unnumbered_move (o : Occurrence) :
    (o.move (.on k)).unnumbered = o.unnumbered := rfl

mutual

theorem Expr.unnumbered_move : (e : Expr) → (e.move (.on k)).unnumbered = e.unnumbered
  | .literal _ => rfl
  | .grouping inner => by rw [Expr.move, unnumbered, inner.unnumbered_move, unnumbered]
  | .unary _ operand => by
    rw [Expr.move, unnumbered, operand.unnumbered_move, unnumbered, Token.move_on]
  | .binary left _ right => by
    rw [Expr.move, unnumbered, left.unnumbered_move, right.unnumbered_move, unnumbered,
      Token.move_on]
  | .logical left _ right => by
    rw [Expr.move, unnumbered, left.unnumbered_move, right.unnumbered_move, unnumbered,
      Token.move_on]
  | .var _ => rfl
  | .assign target value => by
    rw [Expr.move, unnumbered, value.unnumbered_move, target.unnumbered_move, unnumbered]
  | .call callee _ arguments => by
    rw [Expr.move, unnumbered, callee.unnumbered_move, Expr.unnumberedAll_moveAll arguments,
      unnumbered, Token.move_on]
  | .get object _ => by
    rw [Expr.move, unnumbered, object.unnumbered_move, unnumbered, Token.move_on]
  | .set object _ value => by
    rw [Expr.move, unnumbered, object.unnumbered_move, value.unnumbered_move, unnumbered,
      Token.move_on]
  | .this _ => rfl
  | .super _ _ => rfl

theorem Expr.unnumberedAll_moveAll : (es : List Expr) →
    Expr.unnumberedAll (Expr.moveAll (.on k) es) = Expr.unnumberedAll es
  | [] => rfl
  | e :: rest => by
    rw [Expr.moveAll, unnumberedAll, e.unnumbered_move, Expr.unnumberedAll_moveAll rest,
      unnumberedAll]

end

theorem Expr.unnumbered_moved (o : Option Expr) :
    (o.map (Expr.move (.on k))).map Expr.unnumbered = o.map Expr.unnumbered := by
  cases o with
  | none => rfl
  | some e => exact congrArg some (e.unnumbered_move k)

mutual

theorem Stmt.unnumbered_move : (s : Stmt) → (s.move (.on k)).unnumbered = s.unnumbered
  | .expression value => by rw [Stmt.move, Stmt.unnumbered, value.unnumbered_move, Stmt.unnumbered]
  | .print value => by rw [Stmt.move, Stmt.unnumbered, value.unnumbered_move, Stmt.unnumbered]
  | .varDecl _ initializer => by
    rw [Stmt.move, Stmt.unnumbered, Expr.unnumbered_moved, Stmt.unnumbered, Token.move_on]
  | .block body => by
    rw [Stmt.move, Stmt.unnumbered, Stmt.unnumberedAll_moveAll body, Stmt.unnumbered]
  | .ifThen condition thenBranch => by
    rw [Stmt.move, Stmt.unnumbered, condition.unnumbered_move, thenBranch.unnumbered_move,
      Stmt.unnumbered]
  | .ifElse condition thenBranch elseBranch => by
    rw [Stmt.move, Stmt.unnumbered, condition.unnumbered_move, thenBranch.unnumbered_move,
      elseBranch.unnumbered_move, Stmt.unnumbered]
  | .whileDo condition body => by
    rw [Stmt.move, Stmt.unnumbered, condition.unnumbered_move, body.unnumbered_move,
      Stmt.unnumbered]
  | .funDecl decl => by rw [Stmt.move, Stmt.unnumbered, decl.unnumbered_move, Stmt.unnumbered]
  | .ret _ value => by
    rw [Stmt.move, Stmt.unnumbered, Expr.unnumbered_moved, Stmt.unnumbered, Token.move_on]
  | .classDecl _ superclass methods => by
    rw [Stmt.move, Stmt.unnumbered, FunctionDecl.unnumberedAll_moveAll methods, Stmt.unnumbered,
      Token.move_on]
    cases superclass <;> rfl

theorem FunctionDecl.unnumbered_move :
    (decl : FunctionDecl) → (decl.move (.on k)).unnumbered = decl.unnumbered
  | ⟨_, params, body⟩ => by
    rw [FunctionDecl.move, FunctionDecl.unnumbered, Stmt.unnumberedAll_moveAll body,
      FunctionDecl.unnumbered, Token.map_move_on, Token.move_on]

theorem Stmt.unnumberedAll_moveAll : (body : List Stmt) →
    Stmt.unnumberedAll (Stmt.moveAll (.on k) body) = Stmt.unnumberedAll body
  | [] => rfl
  | s :: rest => by
    rw [Stmt.moveAll, Stmt.unnumberedAll, s.unnumbered_move, Stmt.unnumberedAll_moveAll rest,
      Stmt.unnumberedAll]

theorem FunctionDecl.unnumberedAll_moveAll : (methods : List FunctionDecl) →
    FunctionDecl.unnumberedAll (FunctionDecl.moveAll (.on k) methods) =
      FunctionDecl.unnumberedAll methods
  | [] => rfl
  | m :: rest => by
    rw [FunctionDecl.moveAll, FunctionDecl.unnumberedAll, m.unnumbered_move,
      FunctionDecl.unnumberedAll_moveAll rest, FunctionDecl.unnumberedAll]

end

end LoxLang
