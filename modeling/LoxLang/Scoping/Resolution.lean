import Std.Data.TreeMap
import LoxLang.Bindings
import LoxLang.Scoping.Fault
import LoxLang.Tree

/-!
# Resolution of names

Walking a tree in the order in which it runs, a resolution knows which names the scopes around the
present place have declared so far. It records how many scopes lie between a mention and the scope
that declares its name. A mention that no scope around it declares is left out: it means a global.
-/

namespace LoxLang

/-- How many scopes out each mention's variable is found, by the number of the mention. -/
abbrev Distances := Std.TreeMap Nat Nat

/-- How far the declaration of a name has come. -/
inductive Status where
  /-- Its initial value is still being computed. -/
  | declared
  | defined
  deriving DecidableEq, Repr

/-- The names declared so far in one scope. -/
abbrev LexicalScope := Bindings Status

/-- What kind of function body surrounds a place, if any. -/
inductive FunctionContext where
  | outside
  | function
  | method
  | initializer
  deriving DecidableEq, Repr

/-- What kind of class body surrounds a place, if any. -/
inductive ClassContext where
  | outside
  | plain
  | subclass
  deriving DecidableEq, Repr

/-- What is known at one place of a tree: the scopes around it, innermost first, the function and
class bodies around it, and all that has been found out on the way to it. -/
structure Resolution where
  scopes : List LexicalScope
  inFunction : FunctionContext
  inClass : ClassContext
  distances : Distances
  errors : List ScopingError

namespace Resolution

/-- Before the first statement: no scope but the globals, which are not tracked. -/
def start : Resolution :=
  ⟨[], .outside, .outside, ∅, []⟩

/-- Notes a fault at a token. -/
def report (r : Resolution) (t : Token) (fault : ScopingFault) : Resolution :=
  { r with errors := r.errors ++ [⟨Site.ofToken t, fault⟩] }

/-- Into a new scope. -/
def enter (r : Resolution) : Resolution :=
  { r with scopes := [] :: r.scopes }

/-- Out of the innermost scope. -/
def leave (r : Resolution) : Resolution :=
  { r with scopes := r.scopes.tail }

/-- Sets how far a name has come in the innermost scope. -/
def put (r : Resolution) (name : String) (status : Status) : Resolution :=
  match r.scopes with
  | [] => r
  | scope :: outer => { r with scopes := Bindings.put name status scope :: outer }

/-- The declaration of a name begins; it must be new to its scope. -/
def declare (r : Resolution) (t : Token) : Resolution :=
  match r.scopes with
  | [] => r
  | scope :: _ =>
    if Bindings.has scope t.lexeme then r.report t .alreadyDeclared else r.put t.lexeme .declared

/-- The declaration of a name is complete. -/
def define (r : Resolution) (t : Token) : Resolution :=
  r.put t.lexeme .defined

/-- A name that is usable from its declaration on. -/
def introduce (r : Resolution) (t : Token) : Resolution :=
  (r.declare t).define t

/-- How many scopes out the innermost declaration of a name is. -/
def locate? (scopes : List LexicalScope) (name : String) : Option Nat :=
  scopes.findIdx? fun scope => Bindings.has scope name

/-- Records where a mention's variable is found, unless that is among the globals. -/
def refer (r : Resolution) (o : Occurrence) : Resolution :=
  match locate? r.scopes o.name with
  | some distance => { r with distances := r.distances.insert o.id distance }
  | none => r

/-- Is the name one whose initial value is being computed, in the innermost scope? -/
def initializing (r : Resolution) (name : String) : Bool :=
  match r.scopes with
  | [] => false
  | scope :: _ => Bindings.get? scope name = some .declared

/-- A variable is read. -/
def read (r : Resolution) (o : Occurrence) : Resolution :=
  if r.initializing o.name then (r.report o.token .inOwnInitializer).refer o else r.refer o

/-- The keyword `this` is met. -/
def this (r : Resolution) (o : Occurrence) : Resolution :=
  match r.inClass with
  | .outside => r.report o.token .thisOutsideClass
  | _ => r.refer o

/-- The keyword `super` is met. -/
def super (r : Resolution) (o : Occurrence) : Resolution :=
  match r.inClass with
  | .outside => (r.report o.token .superOutsideClass).refer o
  | .plain => (r.report o.token .superWithoutSuperclass).refer o
  | .subclass => r.refer o

/-- The keyword `return` is met. -/
def leaveFunction (r : Resolution) (keyword : Token) (hasValue : Bool) : Resolution :=
  match r.inFunction, hasValue with
  | .outside, _ => r.report keyword .returnOutsideFunction
  | .initializer, true => r.report keyword .valueFromInitializer
  | _, _ => r

/-- The superclass of a class is named: it must not be the class itself. -/
def inherit (r : Resolution) (name : Token) (parent : Occurrence) : Resolution :=
  let r := if parent.name = name.lexeme then r.report parent.token .inheritsFromItself else r
  { r with inClass := .subclass }.read parent

end Resolution

mutual

/-- Resolves the mentions in an expression. The value given to a property comes before the object
that has it. -/
def Expr.resolve : Expr → Resolution → Resolution
  | .literal _, r => r
  | .grouping inner, r => inner.resolve r
  | .unary _ operand, r => operand.resolve r
  | .binary left _ right, r => right.resolve (left.resolve r)
  | .logical left _ right, r => right.resolve (left.resolve r)
  | .var name, r => r.read name
  | .assign target value, r => (value.resolve r).refer target
  | .call callee _ arguments, r => Expr.resolveAll arguments (callee.resolve r)
  | .get object _, r => object.resolve r
  | .set object _ value, r => object.resolve (value.resolve r)
  | .this keyword, r => r.this keyword
  | .super keyword _, r => r.super keyword

/-- Resolves expressions from left to right. -/
def Expr.resolveAll : List Expr → Resolution → Resolution
  | [], r => r
  | e :: rest, r => Expr.resolveAll rest (e.resolve r)

end

mutual

/-- Resolves the mentions in a statement. -/
def Stmt.resolve : Stmt → Resolution → Resolution
  | .expression value, r => value.resolve r
  | .print value, r => value.resolve r
  | .varDecl name (some value), r => (value.resolve (r.declare name)).define name
  | .varDecl name none, r => r.introduce name
  | .block body, r => (Stmt.resolveAll body r.enter).leave
  | .ifThen condition thenBranch, r => thenBranch.resolve (condition.resolve r)
  | .ifElse condition thenBranch elseBranch, r =>
    elseBranch.resolve (thenBranch.resolve (condition.resolve r))
  | .whileDo condition body, r => body.resolve (condition.resolve r)
  | .funDecl decl, r => decl.resolve .function (r.introduce decl.name)
  | .ret keyword (some value), r => value.resolve (r.leaveFunction keyword true)
  | .ret keyword none, r => r.leaveFunction keyword false
  | .classDecl name superclass methods, r =>
    let outer := r.inClass
    let r := { r with inClass := .plain }.introduce name
    let r := match superclass with
      | some parent =>
        let r := ((r.inherit name parent).enter.put "super" .defined).enter.put "this" .defined
        (FunctionDecl.resolveAll methods r).leave.leave
      | none => (FunctionDecl.resolveAll methods (r.enter.put "this" .defined)).leave
    { r with inClass := outer }

/-- Resolves a function whose own name is already declared: its parameters share the scope of its
body. -/
def FunctionDecl.resolve (context : FunctionContext) : FunctionDecl → Resolution → Resolution
  | ⟨_, params, body⟩, r =>
    let outer := r.inFunction
    let r := { r with inFunction := context }.enter
    let r := (Stmt.resolveAll body (params.foldl Resolution.introduce r)).leave
    { r with inFunction := outer }

/-- Resolves statements in order. -/
def Stmt.resolveAll : List Stmt → Resolution → Resolution
  | [], r => r
  | s :: rest, r => Stmt.resolveAll rest (s.resolve r)

/-- Resolves the methods of a class. -/
def FunctionDecl.resolveAll : List FunctionDecl → Resolution → Resolution
  | [], r => r
  | m :: rest, r =>
    let context := if m.isInitializer then .initializer else .method
    FunctionDecl.resolveAll rest (m.resolve context r)

end

/-- The distances of all mentions of local variables in a program, or all its scoping errors in
the order of the walk. -/
def resolve (statements : List Stmt) : Except (List ScopingError) Distances :=
  let r := Stmt.resolveAll statements Resolution.start
  if r.errors.isEmpty then .ok r.distances else .error r.errors

end LoxLang
