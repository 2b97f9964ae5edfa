import LoxLang.Token

/-!
# Syntax trees

A program is a list of statements. Every mention of a variable, of `this` or of `super` carries a
number of its own, so that what is found out about one mention can be recorded beside the tree.
-/

namespace LoxLang

/-- A constant written in the source. -/
inductive Literal where
  | nil
  | boolean (value : Bool)
  | number (value : Float)
  | string (contents : String)
  deriving DecidableEq

/-- One mention of a name; `id` tells it from every other mention in a session. -/
structure Occurrence where
  id : Nat
  token : Token
  deriving DecidableEq

namespace Occurrence

/-- The name mentioned. -/
def name (o : Occurrence) : String :=
  o.token.lexeme

end Occurrence

/-- Expressions. -/
inductive Expr where
  | literal (value : Literal)
  /-- An expression in parentheses. -/
  | grouping (inner : Expr)
  | unary (operator : Token) (operand : Expr)
  | binary (left : Expr) (operator : Token) (right : Expr)
  /-- `and` and `or`, whose right side may go unused. -/
  | logical (left : Expr) (operator : Token) (right : Expr)
  | var (name : Occurrence)
  | assign (target : Occurrence) (value : Expr)
  /-- A call; a fault in it is reported where its arguments are closed. -/
  | call (callee : Expr) (close : Token) (arguments : List Expr)
  | get (object : Expr) (name : Token)
  | set (object : Expr) (name : Token) (value : Expr)
  | this (keyword : Occurrence)
  | super (keyword : Occurrence) (method : Token)

mutual

/-- Statements and declarations. -/
inductive Stmt where
  | expression (value : Expr)
  | print (value : Expr)
  | varDecl (name : Token) (initializer : Option Expr)
  | block (body : List Stmt)
  | ifThen (condition : Expr) (thenBranch : Stmt)
  | ifElse (condition : Expr) (thenBranch elseBranch : Stmt)
  | whileDo (condition : Expr) (body : Stmt)
  | funDecl (decl : FunctionDecl)
  | ret (keyword : Token) (value : Option Expr)
  | classDecl (name : Token) (superclass : Option Occurrence) (methods : List FunctionDecl)

/-- A named function or a method. -/
structure FunctionDecl where
  name : Token
  params : List Token
  body : List Stmt

end

namespace Stmt

/-- A `for` loop is a `while` loop in a block of its own: the initializer stands before it, and the
increment at the end of its body. A missing condition is `true`; a block that would hold the loop
or the body alone is left out. -/
def forLoop (initializer : Option Stmt) (condition increment : Option Expr) (body : Stmt) : Stmt :=
  let body := match increment with
    | some increment => block [body, expression increment]
    | none => body
  let loop := whileDo (condition.getD (.literal (.boolean true))) body
  match initializer with
  | some initializer => block [initializer, loop]
  | none => loop

end Stmt

namespace FunctionDecl

/-- The method that sets up a new instance. -/
def initializerName : String := "init"

/-- Does this declaration, as a method, set up new instances? -/
def isInitializer (decl : FunctionDecl) : Bool :=
  decl.name.lexeme == initializerName

end FunctionDecl

end LoxLang
