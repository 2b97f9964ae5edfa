import Mathlib.Logic.Relation
import LoxLang.Machine.Evaluation

/-!
# What evaluation comes to

Evaluating a part of a program means evaluating other parts one after another: those it consists of
and the bodies of the functions it calls. `Starts` lists, for each part, what it starts and on which
machine; what is started later depends on how what came before has ended.

1. `Visits`: everything that is evaluated in the course of a part, at any depth of calls.
-/

namespace LoxLang

/-- A piece of work of the evaluation. An expression knows in the initial value of which variable it
stands, if any; a body that is called from there does not stand in it. -/
inductive Task where
  | expr (initializing : Option String) (e : Expr)
  | exprs (initializing : Option String) (es : List Expr)
  | stmt (s : Stmt)
  | stmts (body : List Stmt)
  | loop (condition : Expr) (body : Stmt)
  | program (statements : List Stmt)
  /-- Reads a variable, or `this`. -/
  | read (o : Occurrence)
  /-- Gives a variable another value. -/
  | write (initializing : Option String) (target : Occurrence) (value : Value)
  | super (keyword : Occurrence) (method : Token)
  | call (callee : Value) (line : Nat) (arguments : List Value)
  | apply (closure : Closure) (arguments : List Value)
  | construct (c : Class) (arguments : List Value)
  /-- Declares a class whose superclass is already known. -/
  | makeClass (name : Token) (parent : Option Class) (methods : List FunctionDecl)

/-- A task, the budget for it, and the machine at its beginning. -/
structure Visit where
  budget : Nat
  task : Task
  machine : Machine

open Eval in
/-- The second task is started by the first one itself. What a task starts later begins on the
machine that its earlier parts leave, and begins only if these end with a value or normally. Parts
of the text have one less to spend; a program, a call and what a call makes of its body spend
nothing.

* `grouping` to `super`: an expression starts its parts from left to right, only that the value of
  an assignment comes before the write to its target. Names and `this` start a read, and `super`
  the look for its method.
* `logicalRight`: the right side starts if the left one does not decide.
* `arguments`, `call`: arguments start once the callee has a value, and the call once all of them
  have.
* `setValue`: the value starts if what it is to be set in is an object.
* `first`, `others`: expressions one after another.
* `expression` to `classDecl`: a statement starts its expressions, with the name of the variable
  that they are to initialize, and its bodies: a block in a scope of its own, a branch by what its
  condition comes to, a class once its superclass is known.
* `head`, `tail`: statements one after another, as long as none of them returns.
* `loopCondition`, `loopBody`, `loopAgain`: one round of a loop, and the rounds behind it.
* `programHead`, `programTail`: the statements of a program.
* `callFunction`, `callClass`: a call with as many arguments as there should be is counted and
  starts what is called, if there is room for one more; a host function starts nothing.
* `construct`: the initializer of a class starts bound to the new object.
* `apply`: the body of a function starts in a scope for its arguments. -/
inductive Starts : Visit → Visit → Prop
  | grouping {n m x inner} :
      Starts ⟨n + 1, .expr x (.grouping inner), m⟩ ⟨n, .expr x inner, m⟩
  | unary {n m x operator operand} :
      Starts ⟨n + 1, .expr x (.unary operator operand), m⟩ ⟨n, .expr x operand, m⟩
  | binaryLeft {n m x left operator right} :
      Starts ⟨n + 1, .expr x (.binary left operator right), m⟩ ⟨n, .expr x left, m⟩
  | binaryRight {n m m₁ x left operator right v} : expr n left m = .done v m₁ →
      Starts ⟨n + 1, .expr x (.binary left operator right), m⟩ ⟨n, .expr x right, m₁⟩
  | logicalLeft {n m x left operator right} :
      Starts ⟨n + 1, .expr x (.logical left operator right), m⟩ ⟨n, .expr x left, m⟩
  | logicalRight {n m m₁ x left operator right v} : expr n left m = .done v m₁ →
      Operator.decides operator.kind v = false →
      Starts ⟨n + 1, .expr x (.logical left operator right), m⟩ ⟨n, .expr x right, m₁⟩
  | var {n m x name} : Starts ⟨n + 1, .expr x (.var name), m⟩ ⟨n, .read name, m⟩
  | assignValue {n m x target value} :
      Starts ⟨n + 1, .expr x (.assign target value), m⟩ ⟨n, .expr x value, m⟩
  | assignTarget {n m m₁ x target value v} : expr n value m = .done v m₁ →
      Starts ⟨n + 1, .expr x (.assign target value), m⟩ ⟨n, .write x target v, m₁⟩
  | callee {n m x callee close arguments} :
      Starts ⟨n + 1, .expr x (.call callee close arguments), m⟩ ⟨n, .expr x callee, m⟩
  | arguments {n m m₁ x callee close arguments v} : expr n callee m = .done v m₁ →
      Starts ⟨n + 1, .expr x (.call callee close arguments), m⟩ ⟨n, .exprs x arguments, m₁⟩
  | call {n m m₁ m₂ x callee close arguments v vs} : expr n callee m = .done v m₁ →
      exprs n arguments m₁ = .done vs m₂ →
      Starts ⟨n + 1, .expr x (.call callee close arguments), m⟩ ⟨n, .call v close.line vs, m₂⟩
  | getObject {n m x object name} :
      Starts ⟨n + 1, .expr x (.get object name), m⟩ ⟨n, .expr x object, m⟩
  | setObject {n m x object name value} :
      Starts ⟨n + 1, .expr x (.set object name value), m⟩ ⟨n, .expr x object, m⟩
  | setValue {n m m₁ x object name value address c} :
      expr n object m = .done (.object address c) m₁ →
      Starts ⟨n + 1, .expr x (.set object name value), m⟩ ⟨n, .expr x value, m₁⟩
  | this {n m x keyword} : Starts ⟨n + 1, .expr x (.this keyword), m⟩ ⟨n, .read keyword, m⟩
  | super {n m x keyword method} :
      Starts ⟨n + 1, .expr x (.super keyword method), m⟩ ⟨n, .super keyword method, m⟩
  | first {n m x e rest} : Starts ⟨n + 1, .exprs x (e :: rest), m⟩ ⟨n, .expr x e, m⟩
  | others {n m m₁ x e rest v} : expr n e m = .done v m₁ →
      Starts ⟨n + 1, .exprs x (e :: rest), m⟩ ⟨n, .exprs x rest, m₁⟩
  | expression {n m value} :
      Starts ⟨n + 1, .stmt (.expression value), m⟩ ⟨n, .expr none value, m⟩
  | print {n m value} : Starts ⟨n + 1, .stmt (.print value), m⟩ ⟨n, .expr none value, m⟩
  | initializer {n m name value} :
      Starts ⟨n + 1, .stmt (.varDecl name (some value)), m⟩ ⟨n, .expr (some name.lexeme) value, m⟩
  | block {n m m₁ scope body} : openScope m.scope [] m = .done scope m₁ →
      Starts ⟨n + 1, .stmt (.block body), m⟩ ⟨n, .stmts body, { m₁ with scope := scope }⟩
  | ifThenCondition {n m condition thenBranch} :
      Starts ⟨n + 1, .stmt (.ifThen condition thenBranch), m⟩ ⟨n, .expr none condition, m⟩
  | ifThenBranch {n m m₁ condition thenBranch v} : expr n condition m = .done v m₁ →
      v.truthy = true →
      Starts ⟨n + 1, .stmt (.ifThen condition thenBranch), m⟩ ⟨n, .stmt thenBranch, m₁⟩
  | ifElseCondition {n m condition thenBranch elseBranch} :
      Starts ⟨n + 1, .stmt (.ifElse condition thenBranch elseBranch), m⟩
        ⟨n, .expr none condition, m⟩
  | ifElseThen {n m m₁ condition thenBranch elseBranch v} : expr n condition m = .done v m₁ →
      v.truthy = true →
      Starts ⟨n + 1, .stmt (.ifElse condition thenBranch elseBranch), m⟩ ⟨n, .stmt thenBranch, m₁⟩
  | ifElseElse {n m m₁ condition thenBranch elseBranch v} : expr n condition m = .done v m₁ →
      v.truthy = false →
      Starts ⟨n + 1, .stmt (.ifElse condition thenBranch elseBranch), m⟩ ⟨n, .stmt elseBranch, m₁⟩
  | whileDo {n m condition body} :
      Starts ⟨n + 1, .stmt (.whileDo condition body), m⟩ ⟨n, .loop condition body, m⟩
  | ret {n m keyword value} :
      Starts ⟨n + 1, .stmt (.ret keyword (some value)), m⟩ ⟨n, .expr none value, m⟩
  | superclass {n m name o methods} :
      Starts ⟨n + 1, .stmt (.classDecl name (some o) methods), m⟩ ⟨n, .read o, m⟩
  | classDecl {n m m₁ name superclass methods parent} :
      superclass? superclass m = .done parent m₁ →
      Starts ⟨n + 1, .stmt (.classDecl name superclass methods), m⟩
        ⟨n, .makeClass name parent methods, m₁⟩
  | head {n m s rest} : Starts ⟨n + 1, .stmts (s :: rest), m⟩ ⟨n, .stmt s, m⟩
  | tail {n m m₁ s rest} : stmt n s m = .done .normal m₁ →
      Starts ⟨n + 1, .stmts (s :: rest), m⟩ ⟨n, .stmts rest, m₁⟩
  | loopCondition {n m condition body} :
      Starts ⟨n + 1, .loop condition body, m⟩ ⟨n, .expr none condition, m⟩
  | loopBody {n m m₁ condition body v} : expr n condition m = .done v m₁ → v.truthy = true →
      Starts ⟨n + 1, .loop condition body, m⟩ ⟨n, .stmt body, m₁⟩
  | loopAgain {n m m₁ m₂ condition body v} : expr n condition m = .done v m₁ →
      v.truthy = true → stmt n body m₁ = .done .normal m₂ →
      Starts ⟨n + 1, .loop condition body, m⟩ ⟨n, .loop condition body, m₂⟩
  | programHead {n m s rest} : Starts ⟨n, .program (s :: rest), m⟩ ⟨n, .stmt s, m⟩
  | programTail {n m m₁ s rest completion} : stmt n s m = .done completion m₁ →
      Starts ⟨n, .program (s :: rest), m⟩ ⟨n, .program rest, m₁⟩
  | callFunction {n m id closure line arguments} : arguments.length = closure.arity →
      m.depth < Machine.maxDepth →
      Starts ⟨n, .call (.function id closure) line arguments, m⟩
        ⟨n, .apply closure arguments, { m with depth := m.depth + 1 }⟩
  | callClass {n m c line arguments} : arguments.length = c.arity → m.depth < Machine.maxDepth →
      Starts ⟨n, .call (.classValue c) line arguments, m⟩
        ⟨n, .construct c arguments, { m with depth := m.depth + 1 }⟩
  | construct {n m m₁ m₂ c arguments object initializer closure} :
      newObject c m = .done object m₁ → c.initializer? = some initializer →
      bindThis initializer object m₁ = .done closure m₂ →
      Starts ⟨n, .construct c arguments, m⟩ ⟨n, .apply closure arguments, m₂⟩
  | apply {n m m₁ closure arguments scope} :
      openScope closure.scope (closure.contents arguments) m = .done scope m₁ →
      Starts ⟨n, .apply closure arguments, m⟩
        ⟨n, .stmts closure.decl.body, { m₁ with scope := scope }⟩

/-- The second task is started in the course of the first one. -/
def Visits : Visit → Visit → Prop :=
  Relation.ReflTransGen Starts

end LoxLang
