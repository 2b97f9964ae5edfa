import LoxLang.Number.Style
import LoxLang.Tree

/-!
# The text of a tree

A tree is written as nested parentheses with the operator first, as in `(+ 1.0 (group 2.0))`.
-/

namespace LoxLang

namespace Literal

/-- A constant: strings stand without quotes, integral numbers keep one decimal. -/
def text : Literal → String
  | nil => "nil"
  | boolean true => "true"
  | boolean false => "false"
  | number value => NumberStyle.inTree.text value
  | string contents => contents

end Literal

mutual

/-- The text of an expression. -/
def Expr.text : Expr → String
  | .literal value => value.text
  | .grouping inner => "(group " ++ inner.text ++ ")"
  | .unary operator operand => "(" ++ operator.lexeme ++ " " ++ operand.text ++ ")"
  | .binary left operator right =>
    "(" ++ operator.lexeme ++ " " ++ left.text ++ " " ++ right.text ++ ")"
  | .logical left operator right =>
    "(" ++ operator.lexeme ++ " " ++ left.text ++ " " ++ right.text ++ ")"
  | .var name => name.name
  | .assign target value => "(= " ++ target.name ++ " " ++ value.text ++ ")"
  | .call callee _ arguments => "(call " ++ callee.text ++ Expr.tailText arguments ++ ")"
  | .get object name => "(. " ++ object.text ++ " " ++ name.lexeme ++ ")"
  | .set object name value =>
    "(= (. " ++ object.text ++ " " ++ name.lexeme ++ ") " ++ value.text ++ ")"
  | .this _ => "this"
  | .super _ method => "(super " ++ method.lexeme ++ ")"

/-- Expressions, each after a blank. -/
def Expr.tailText : List Expr → String
  | [] => ""
  | e :: rest => " " ++ e.text ++ Expr.tailText rest

end

mutual

/-- The text of a statement. -/
def Stmt.text : Stmt → String
  | .expression value => "(; " ++ value.text ++ ")"
  | .print value => "(print " ++ value.text ++ ")"
  | .varDecl name (some value) => "(var " ++ name.lexeme ++ " " ++ value.text ++ ")"
  | .varDecl name none => "(var " ++ name.lexeme ++ ")"
  | .block body => "(block" ++ Stmt.tailText body ++ ")"
  | .ifThen condition thenBranch => "(if " ++ condition.text ++ " " ++ thenBranch.text ++ ")"
  | .ifElse condition thenBranch elseBranch =>
    "(if " ++ condition.text ++ " " ++ thenBranch.text ++ " " ++ elseBranch.text ++ ")"
  | .whileDo condition body => "(while " ++ condition.text ++ " " ++ body.text ++ ")"
  | .funDecl decl => decl.text "fun"
  | .ret _ (some value) => "(return " ++ value.text ++ ")"
  | .ret _ none => "(return)"
  | .classDecl name superclass methods =>
    let parent := match superclass with
      | some parent => " < " ++ parent.name
      | none => ""
    "(class " ++ name.lexeme ++ parent ++ FunctionDecl.tailText methods ++ ")"

/-- The text of a function, headed by its role. -/
def FunctionDecl.text (role : String) : FunctionDecl → String
  | ⟨name, params, body⟩ =>
    "(" ++ role ++ " " ++ name.lexeme ++ "(" ++ " ".intercalate (params.map Token.lexeme) ++ ")" ++
      Stmt.tailText body ++ ")"

/-- Statements, each after a blank. -/
def Stmt.tailText : List Stmt → String
  | [] => ""
  | s :: rest => " " ++ s.text ++ Stmt.tailText rest

/-- Methods, each after a blank. -/
def FunctionDecl.tailText : List FunctionDecl → String
  | [] => ""
  | m :: rest => " " ++ m.text "method" ++ FunctionDecl.tailText rest

end

end LoxLang
