import LoxLang.Machine
import LoxLang.Operator

/-!
# Evaluation

Expressions have values, statements have effects. A `return` ends all statements around it up to
the call in progress; it is how a statement completes and not a failure.

Every part of a program is evaluated within a budget, which each part passes on to its own parts
less one. A budget that is too small ends the run as `exhausted`; with a larger one the same run
goes on from there in the same way.
-/

namespace LoxLang

/-- How a statement completes. -/
inductive Completion where
  | normal
  | returned (value : Value)

/-- The first bindings of a function's scope. -/
def Closure.contents (closure : Closure) (arguments : List Value) : Bindings Value :=
  ((closure.decl.params.map Token.lexeme).zip arguments).foldl
    (fun b (name, value) => Bindings.put name value b) []

namespace Eval

open Step

/-- The fault of a mention that finds nothing. -/
def missing (o : Occurrence) (distance? : Option Nat) : RuntimeFault :=
  if distance?.isSome then .unboundLocal o.name else .undefinedVariable o.name

/-- The frame that a mention of a variable means: so many scopes out if that is known, and otherwise
the globals, if they have the name. -/
def target (o : Occurrence) : Eval Nat := do
  let distance? ← look fun m => m.distances[o.id]?
  let found ← look fun m =>
    match distance? with
    | some distance => (Scope.ancestor? distance m.scope).map Scope.frame
    | none => m.store.owner? Machine.globals.chain o.name
  require o.token.line (missing o distance?) found

/-- The value of a variable or of `this`. -/
def lookUp (o : Occurrence) : Eval Value := do
  let address ← target o
  require o.token.line (.unboundLocal o.name)
    (← look fun m => Bindings.get? (m.store.frame address) o.name)

/-- Gives a variable another value. -/
def assign (o : Occurrence) (value : Value) : Eval Unit := do
  let address ← target o
  put address o.name value

/-- Gives the name of a class its value, in the nearest scope that has it. -/
def assignClass (name : Token) (value : Value) : Eval Unit := do
  let address ← require name.line (.unboundClass name.lexeme)
    (← look fun m => m.store.owner? m.scope.chain name.lexeme)
  put address name.lexeme value

/-- What the frame exactly so many scopes out binds `this` or `super` to. -/
def implicit (distance : Nat) (name : String) (line : Nat) : Eval Value := do
  require line (.unboundKeyword name) (← look fun m => m.store.getAt? m.scope distance name)

/-- A function value with an identity of its own. -/
def function (closure : Closure) : Eval Value := do
  return .function (← freshId) closure

/-- A method whose scope binds `this` to an object. -/
def bindThis (method : Closure) (object : Value) : Eval Closure := do
  return { method with scope := ← openScope method.scope [("this", object)] }

/-- A property of an object: a field of that name before a method. -/
def property (address : Nat) (c : Class) (name : Token) : Eval Value := do
  match ← field? address name.lexeme with
  | some value => return value
  | none =>
    let method ← require name.line (.undefinedProperty name.lexeme) (c.method? name.lexeme)
    function (← bindThis method (.object address c))

/-- A method of a superclass, bound to an object. -/
def inherited (line : Nat) (method : Token) : (parent this : Value) → Eval Value
  | .classValue parent, .object address c => do
    let found ← require method.line (.undefinedProperty method.lexeme)
      (parent.method? method.lexeme)
    function (← bindThis found (.object address c))
  | _, _ => fail line .invalidSuper

/-- The method of a superclass, bound to the object of the method around it: `this` is bound one
scope inside the scope that binds `super`. -/
def superMethod (o : Occurrence) (method : Token) : Eval Value := do
  let line := o.token.line
  let distance ← require line .superOutsideClass (← look fun m => m.distances[o.id]?)
  let parent ← implicit distance "super" line
  let this ← implicit (distance - 1) "this" line
  inherited line method parent this

/-- How many arguments a value takes when it is called, if it can be. -/
def arity? : Value → Eval (Option Nat)
  | .native index => look fun m => m.natives[index]?.map Native.arity
  | .function _ closure => return some closure.arity
  | .classValue c => return some c.arity
  | _ => return none

/-- Runs a function of the host. -/
def native (index line : Nat) (arguments : List Value) : Eval Value := do
  match ← look fun m => m.natives[index]?.map Native.body with
  | some .clock => tell
  | some (.host run) => lift line ((run arguments).mapError .host)
  | none => fail line .notCallable

/-- Runs a function's body, as `run` runs statements. Its parameters and its local variables share
one scope. An initializer answers with its object, whatever it returns. -/
def apply (run : List Stmt → Eval Completion) (closure : Closure) (arguments : List Value) :
    Eval Value := do
  let scope ← openScope closure.scope (closure.contents arguments)
  let completion ← within scope (run closure.decl.body)
  if closure.isInitializer then
    look fun m => (m.store.getLocal? closure.scope "this").getD .nil
  else
    match completion with
    | .normal => return .nil
    | .returned value => return value

/-- Makes an object and has its initializer, if any, set it up. -/
def construct (run : List Stmt → Eval Completion) (c : Class) (arguments : List Value) :
    Eval Value := do
  let object ← newObject c
  match c.initializer? with
  | none => return object
  | some initializer =>
    let _ ← apply run (← bindThis initializer object) arguments
    return object

/-- Calls a value, with faults reported at a line. The number of arguments is checked before the
number of calls in progress. -/
def call (run : List Stmt → Eval Completion) (callee : Value) (line : Nat)
    (arguments : List Value) : Eval Value := do
  let arity ← require line .notCallable (← arity? callee)
  let depth ← look Machine.depth
  if arguments.length ≠ arity then fail line (.wrongArity arity arguments.length)
  else if Machine.maxDepth ≤ depth then fail line .stackOverflow
  else counted do
    match callee with
    | .native index => native index line arguments
    | .function _ closure => apply run closure arguments
    | .classValue c => construct run c arguments
    | _ => fail line .notCallable

/-- The scope in which the methods of a class are declared: with a superclass, one that binds
`super`. -/
def methodScope (parent : Option Class) : Eval Scope := do
  let scope ← look Machine.scope
  match parent with
  | none => return scope
  | some parent => openScope scope [("super", .classValue parent)]

/-- The superclass that a class declaration names. -/
def superclass? : Option Occurrence → Eval (Option Class)
  | none => return none
  | some o => do
    match ← lookUp o with
    | .classValue c => return some c
    | _ => fail o.token.line .superclassNotClass

/-- Declares a class whose superclass is known. Its name exists, without a value, while its methods
are made. -/
def makeClass (name : Token) (parent : Option Class) (methods : List FunctionDecl) : Eval Unit := do
  define name.lexeme .nil
  let scope ← methodScope parent
  let closures := methods.map fun decl => ⟨decl, scope, decl.isInitializer⟩
  let body : ClassBody := ⟨← freshId, name.lexeme, closures⟩
  assignClass name (.classValue ⟨body, (parent.map Class.chain).getD []⟩)

/-- Declares a class. -/
def classDecl (name : Token) (superclass : Option Occurrence) (methods : List FunctionDecl) :
    Eval Unit := do
  makeClass name (← superclass? superclass) methods

mutual

/-- The value of an expression. -/
def expr : (budget : Nat) → Expr → Eval Value
  | 0, _ => exhausted
  | _ + 1, .literal value => return .ofLiteral value
  | n + 1, .grouping inner => expr n inner
  | n + 1, .unary operator operand => do
    let operand ← expr n operand
    lift operator.line (Operator.unary operator.kind operand)
  | n + 1, .binary left operator right => do
    let left ← expr n left
    let right ← expr n right
    lift operator.line (Operator.binary operator.kind left right)
  | n + 1, .logical left operator right => do
    let left ← expr n left
    if Operator.decides operator.kind left then return left else expr n right
  | _ + 1, .var name => lookUp name
  | n + 1, .assign name value => do
    let value ← expr n value
    assign name value
    return value
  | n + 1, .call callee close arguments => do
    let callee ← expr n callee
    let arguments ← exprs n arguments
    call (stmts n) callee close.line arguments
  | n + 1, .get object name => do
    match ← expr n object with
    | .object address c => property address c name
    | _ => fail name.line .noProperties
  | n + 1, .set object name value => do
    match ← expr n object with
    | .object address _ =>
      let value ← expr n value
      setField address name.lexeme value
      return value
    | _ => fail name.line .noFields
  | _ + 1, .this keyword => lookUp keyword
  | _ + 1, .super keyword method => superMethod keyword method

/-- The values of expressions, from left to right. -/
def exprs : (budget : Nat) → List Expr → Eval (List Value)
  | 0, _ => exhausted
  | _ + 1, [] => return []
  | n + 1, e :: rest => do
    let first ← expr n e
    let others ← exprs n rest
    return first :: others

/-- Runs a statement. -/
def stmt : (budget : Nat) → Stmt → Eval Completion
  | 0, _ => exhausted
  | n + 1, .expression value => do
    let _ ← expr n value
    return .normal
  | n + 1, .print value => do
    let value ← expr n value
    printLine value.text
    return .normal
  | n + 1, .varDecl name (some value) => do
    let value ← expr n value
    define name.lexeme value
    return .normal
  | _ + 1, .varDecl name none => do
    define name.lexeme .nil
    return .normal
  | n + 1, .block body => do
    let scope ← openScope (← look Machine.scope) []
    within scope (stmts n body)
  | n + 1, .ifThen condition thenBranch => do
    let condition ← expr n condition
    if condition.truthy then stmt n thenBranch else return .normal
  | n + 1, .ifElse condition thenBranch elseBranch => do
    let condition ← expr n condition
    if condition.truthy then stmt n thenBranch else stmt n elseBranch
  | n + 1, .whileDo condition body => loop n condition body
  | _ + 1, .funDecl decl => do
    let scope ← look Machine.scope
    define decl.name.lexeme (← function ⟨decl, scope, false⟩)
    return .normal
  | n + 1, .ret _ (some value) => do
    let value ← expr n value
    return .returned value
  | _ + 1, .ret _ none => return .returned .nil
  | _ + 1, .classDecl name superclass methods => do
    classDecl name superclass methods
    return .normal

/-- Runs statements in order, up to one that returns. -/
def stmts : (budget : Nat) → List Stmt → Eval Completion
  | 0, _ => exhausted
  | _ + 1, [] => return .normal
  | n + 1, s :: rest => do
    match ← stmt n s with
    | .normal => stmts n rest
    | .returned value => return .returned value

/-- Runs a body as long as its condition holds. -/
def loop : (budget : Nat) → (condition : Expr) → (body : Stmt) → Eval Completion
  | 0, _, _ => exhausted
  | n + 1, condition, body => fun m =>
    match expr n condition m with
    | .done value m =>
      if value.truthy then
        match stmt n body m with
        | .done .normal m => loop n condition body m
        | ended => ended
      else .done .normal m
    | .failed failure m => .failed failure m
    | .exhausted m => .exhausted m

end

/-- One more turn of a loop, as a sequence of steps. -/
theorem loop_succ (n : Nat) (condition : Expr) (body : Stmt) :
    loop (n + 1) condition body = (do
      let value ← expr n condition
      if value.truthy then
        match ← stmt n body with
        | .normal => loop n condition body
        | .returned value => return .returned value
      else return .normal) := by
  funext m
  simp only [loop, Bind.bind, Step.bind]
  cases expr n condition m with
  | done value m =>
    by_cases holds : value.truthy
    · simp only [holds, if_true, Step.bind]
      cases stmt n body m with
      | done completion m => cases completion <;> rfl
      | failed failure m => rfl
      | exhausted m => rfl
    · simp only [holds]
      rfl
  | failed failure m => rfl
  | exhausted m => rfl

/-- Runs a program: a `return` outside every function ends its own statement only. The sink is
flushed if all went well. -/
def program (budget : Nat) : List Stmt → Eval Unit
  | [] => flush
  | s :: rest => do
    let _ ← stmt budget s
    program budget rest

end Eval

end LoxLang
