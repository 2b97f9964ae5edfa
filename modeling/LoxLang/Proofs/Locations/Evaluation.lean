import LoxLang.Proofs.Sessions.Actions

/-!
# Evaluation with locations

The meaning of programs under static scoping, without frames and distances. Every execution of a
declaration of a local variable makes a new location. A place knows the names that are declared
before it in the scopes around, each with its location; functions and classes keep what was known
where they were declared. A name that is not known at its place is looked for among the globals when
it is evaluated.

Budgets are spent as in evaluation on frames, so that the two can be compared part by part.
-/

namespace LoxLang

namespace Located

/-- The locations of the variables that are known at a place, innermost first. -/
abbrev Places := Bindings Nat

/-- The state of a running program. -/
structure Machine where
  /-- What the locations hold. -/
  cells : Array (Value Places)
  globals : Bindings (Value Places)
  /-- The fields of all objects. -/
  objects : Array (Bindings (Value Places))
  /-- The identity that the next function or class gets. -/
  nextId : Nat
  natives : Array (Native Places)
  /-- The readings of the clock that are still to come. -/
  clock : Clock
  /-- What is known at the present place; outside of all scopes, where what is declared is global,
  there is nothing to know. -/
  places : Option Places
  /-- How many calls are in progress. -/
  depth : Nat
  sink : Sink

namespace Machine

/-- A machine before its first program. -/
def start (sink : Sink) (clock : Clock) : Machine where
  cells := #[]
  globals := [("clock", .native 0)]
  objects := #[]
  nextId := 0
  natives := #[⟨0, .clock⟩]
  clock := clock
  places := none
  depth := 0
  sink := sink

/-- Offers a host function as a global. -/
def defineNative (m : Machine) (name : String) (native : Native Places) : Machine :=
  { m with
    natives := m.natives.push native
    globals := Bindings.put name (.native m.natives.size) m.globals }

end Machine

/-- How a statement completes. -/
inductive Completion where
  | normal
  | returned (value : Value Places)

/-- A step of evaluation. -/
abbrev Eval : Type → Type :=
  Step Machine

namespace Eval

open Step

variable {α : Type}

/-- A step inside a scope; however it ends, the place is put back. -/
def within (places : Places) (step : Eval α) : Eval α :=
  fun m =>
    (step { m with places := some places }).mapMachine fun m' => { m' with places := m.places }

/-- A step with one more call in progress; however it ends, the call is over. -/
def counted (step : Eval α) : Eval α :=
  fun m =>
    (step { m with depth := m.depth + 1 }).mapMachine fun m => { m with depth := m.depth - 1 }

/-- An identity that nothing had before. -/
def freshId : Eval Nat :=
  fun m => .done m.nextId { m with nextId := m.nextId + 1 }

/-- A new location. -/
def allocate (value : Value Places) : Eval Nat :=
  fun m => .done m.cells.size { m with cells := m.cells.push value }

/-- What a location holds. -/
def read (location : Nat) : Eval (Value Places) :=
  look fun m => m.cells[location]?.getD .nil

/-- Puts a value at a location. -/
def write (location : Nat) (value : Value Places) : Eval Unit :=
  change fun m => { m with cells := m.cells.setIfInBounds location value }

/-- What is known at the present place. -/
def known : Eval Places := do
  return (← look Machine.places).getD []

/-- Begins a declaration: a local variable has a new location, known from here on. -/
def declare (name : String) : Eval (Option Nat) := do
  match ← look Machine.places with
  | none => return none
  | some places =>
    let location ← allocate .nil
    change fun m => { m with places := some ((name, location) :: places) }
    return some location

/-- Gives what has been declared its value. -/
def define (name : String) (location? : Option Nat) (value : Value Places) : Eval Unit :=
  match location? with
  | some location => write location value
  | none => change fun m => { m with globals := Bindings.put name value m.globals }

/-- A new object without fields. -/
def newObject (c : Class Places) : Eval (Value Places) :=
  fun m => .done (.object m.objects.size c) { m with objects := m.objects.push [] }

/-- The field of an object, if it has one of that name. -/
def field? (address : Nat) (name : String) : Eval (Option (Value Places)) :=
  look fun m => Bindings.get? (m.objects[address]?.getD []) name

/-- Sets a field of an object. -/
def setField (address : Nat) (name : String) (value : Value Places) : Eval Unit :=
  change fun m => { m with objects := m.objects.modify address (Bindings.put name value) }

/-- Writes text and a line end to the sink. -/
def printLine (text : String) : Eval Unit :=
  fun m =>
    match m.sink.write (text ++ "\n").toUTF8.data with
    | (none, sink) => .done () { m with sink := sink }
    | (some fault, sink) => .failed (.output fault) { m with sink := sink }

/-- Flushes the sink. -/
def flush : Eval Unit :=
  fun m =>
    match m.sink.flush with
    | none => .done () m
    | some fault => .failed (.output fault) m

/-- Reads the clock, in seconds. -/
def tell : Eval (Value Places) :=
  fun m => .done (.number (Float.ofInt m.clock.now / 1000000)) { m with clock := m.clock.later }

/-- The value of a name: at its location if it is known, and otherwise among the globals. -/
def lookUp (o : Occurrence) : Eval (Value Places) := do
  match Bindings.get? (← known) o.name with
  | some location => read location
  | none =>
    require o.token.line (.undefinedVariable o.name)
      (← look fun m => Bindings.get? m.globals o.name)

/-- Gives a name another value. -/
def assign (o : Occurrence) (value : Value Places) : Eval Unit := do
  match Bindings.get? (← known) o.name with
  | some location => write location value
  | none =>
    if ← look fun m => Bindings.has m.globals o.name then define o.name none value
    else fail o.token.line (.undefinedVariable o.name)

/-- A function value with an identity of its own. -/
def function (closure : Closure Places) : Eval (Value Places) := do
  return .function (← freshId) closure

/-- A method for which `this` is an object. -/
def bindThis (method : Closure Places) (object : Value Places) : Eval (Closure Places) := do
  return { method with scope := ("this", ← allocate object) :: method.scope }

/-- A property of an object: a field of that name before a method. -/
def property (address : Nat) (c : Class Places) (name : Token) : Eval (Value Places) := do
  match ← field? address name.lexeme with
  | some value => return value
  | none =>
    let method ← require name.line (.undefinedProperty name.lexeme) (c.method? name.lexeme)
    function (← bindThis method (.object address c))

/-- A method of a superclass, for an object. -/
def inherited (line : Nat) (method : Token) : (parent this : Value Places) → Eval (Value Places)
  | .classValue parent, .object address c => do
    let found ← require method.line (.undefinedProperty method.lexeme)
      (parent.method? method.lexeme)
    function (← bindThis found (.object address c))
  | _, _ => fail line .invalidSuper

/-- The method of a superclass, for the object that `this` is. -/
def superMethod (o : Occurrence) (method : Token) : Eval (Value Places) := do
  let line := o.token.line
  let places ← known
  let parent ← require line .superOutsideClass (Bindings.get? places "super")
  let this ← require line .superOutsideClass (Bindings.get? places "this")
  inherited line method (← read parent) (← read this)

/-- How many arguments a value takes when it is called, if it can be. -/
def arity? : Value Places → Eval (Option Nat)
  | .native index => look fun m => m.natives[index]?.map Native.arity
  | .function _ closure => return some closure.arity
  | .classValue c => return some c.arity
  | _ => return none

/-- Runs a function of the host. -/
def native (index line : Nat) (arguments : List (Value Places)) : Eval (Value Places) := do
  match ← look fun m => m.natives[index]?.map Native.body with
  | some .clock => tell
  | some (.host run) => lift line ((run arguments).mapError .host)
  | none => fail line .notCallable

/-- Declares names one after another, each at a new location with its value. -/
def bindAll : List (String × Value Places) → Places → Eval Places
  | [], places => return places
  | (name, value) :: rest, places => do
    bindAll rest ((name, ← allocate value) :: places)

/-- Runs a function's body, as `run` runs statements. An initializer answers with its object,
whatever it returns. -/
def apply (run : List Stmt → Eval Completion) (closure : Closure Places)
    (arguments : List (Value Places)) : Eval (Value Places) := do
  let names := closure.decl.params.map Token.lexeme
  let places ← bindAll (names.zip arguments) closure.scope
  let completion ← within places (run closure.decl.body)
  if closure.isInitializer then
    match Bindings.get? closure.scope "this" with
    | some location => read location
    | none => return .nil
  else
    match completion with
    | .normal => return .nil
    | .returned value => return value

/-- Makes an object and has its initializer, if any, set it up. -/
def construct (run : List Stmt → Eval Completion) (c : Class Places)
    (arguments : List (Value Places)) : Eval (Value Places) := do
  let object ← newObject c
  match c.initializer? with
  | none => return object
  | some initializer =>
    let _ ← apply run (← bindThis initializer object) arguments
    return object

/-- Calls a value, with faults reported at a line. -/
def call (run : List Stmt → Eval Completion) (callee : Value Places) (line : Nat)
    (arguments : List (Value Places)) : Eval (Value Places) := do
  let arity ← require line .notCallable (← arity? callee)
  let depth ← look Machine.depth
  if arguments.length ≠ arity then fail line (.wrongArity arity arguments.length)
  else if LoxLang.Machine.maxDepth ≤ depth then fail line .stackOverflow
  else counted do
    match callee with
    | .native index => native index line arguments
    | .function _ closure => apply run closure arguments
    | .classValue c => construct run c arguments
    | _ => fail line .notCallable

/-- What the methods of a class know: with a superclass, `super` as well. -/
def methodPlaces (parent : Option (Class Places)) : Eval Places := do
  let places ← known
  match parent with
  | none => return places
  | some parent => return ("super", ← allocate (.classValue parent)) :: places

/-- The superclass that a class declaration names. -/
def superclass? : Option Occurrence → Eval (Option (Class Places))
  | none => return none
  | some o => do
    match ← lookUp o with
    | .classValue c => return some c
    | _ => fail o.token.line .superclassNotClass

/-- Declares a class. Its methods know its name, which has no value while they are made. -/
def classDecl (name : Token) (superclass : Option Occurrence) (methods : List FunctionDecl) :
    Eval Unit := do
  let parent ← superclass? superclass
  let location? ← declare name.lexeme
  define name.lexeme location? .nil
  let places ← methodPlaces parent
  let closures := methods.map fun decl => ⟨decl, places, decl.isInitializer⟩
  let body : ClassBody Places := ⟨← freshId, name.lexeme, closures⟩
  define name.lexeme location? (.classValue ⟨body, (parent.map Class.chain).getD []⟩)

mutual

/-- The value of an expression. -/
def expr : (budget : Nat) → Expr → Eval (Value Places)
  | 0, _ => exhausted
  | _ + 1, .literal value => return .ofLiteral value
  | n + 1, .grouping inner => expr n inner
  | n + 1, .unary operator operand => do
    let operand ← expr n operand
    lift operator.line (Operator.unary operator.kind operand)
  | n + 1, .binary left operator right => do
    let left ← expr n left
    let right ← expr n right
    lift operator.line (Operator.binary operator.kind left right)
  | n + 1, .logical left operator right => do
    let left ← expr n left
    if Operator.decides operator.kind left then return left else expr n right
  | _ + 1, .var name => lookUp name
  | n + 1, .assign name value => do
    let value ← expr n value
    assign name value
    return value
  | n + 1, .call callee close arguments => do
    let callee ← expr n callee
    let arguments ← exprs n arguments
    call (stmts n) callee close.line arguments
  | n + 1, .get object name => do
    match ← expr n object with
    | .object address c => property address c name
    | _ => fail name.line .noProperties
  | n + 1, .set object name value => do
    match ← expr n object with
    | .object address _ =>
      let value ← expr n value
      setField address name.lexeme value
      return value
    | _ => fail name.line .noFields
  | _ + 1, .this keyword => lookUp keyword
  | _ + 1, .super keyword method => superMethod keyword method

/-- The values of expressions, from left to right. -/
def exprs : (budget : Nat) → List Expr → Eval (List (Value Places))
  | 0, _ => exhausted
  | _ + 1, [] => return []
  | n + 1, e :: rest => do
    let first ← expr n e
    let others ← exprs n rest
    return first :: others

/-- Runs a statement. A variable is declared before its initial value is computed, a function before
it is made. -/
def stmt : (budget : Nat) → Stmt → Eval Completion
  | 0, _ => exhausted
  | n + 1, .expression value => do
    let _ ← expr n value
    return .normal
  | n + 1, .print value => do
    let value ← expr n value
    printLine value.text
    return .normal
  | n + 1, .varDecl name (some value) => do
    let location? ← declare name.lexeme
    let value ← expr n value
    define name.lexeme location? value
    return .normal
  | _ + 1, .varDecl name none => do
    let location? ← declare name.lexeme
    define name.lexeme location? .nil
    return .normal
  | n + 1, .block body => do
    within (← known) (stmts n body)
  | n + 1, .ifThen condition thenBranch => do
    let condition ← expr n condition
    if condition.truthy then stmt n thenBranch else return .normal
  | n + 1, .ifElse condition thenBranch elseBranch => do
    let condition ← expr n condition
    if condition.truthy then stmt n thenBranch else stmt n elseBranch
  | n + 1, .whileDo condition body => loop n condition body
  | _ + 1, .funDecl decl => do
    let location? ← declare decl.name.lexeme
    let value ← function ⟨decl, ← known, false⟩
    define decl.name.lexeme location? value
    return .normal
  | n + 1, .ret _ (some value) => do
    let value ← expr n value
    return .returned value
  | _ + 1, .ret _ none => return .returned .nil
  | _ + 1, .classDecl name superclass methods => do
    classDecl name superclass methods
    return .normal

/-- Runs statements in order, up to one that returns. -/
def stmts : (budget : Nat) → List Stmt → Eval Completion
  | 0, _ => exhausted
  | _ + 1, [] => return .normal
  | n + 1, s :: rest => do
    match ← stmt n s with
    | .normal => stmts n rest
    | .returned value => return .returned value

/-- Runs a body as long as its condition holds. -/
def loop : (budget : Nat) → (condition : Expr) → (body : Stmt) → Eval Completion
  | 0, _, _ => exhausted
  | n + 1, condition, body => do
    let value ← expr n condition
    if value.truthy then
      match ← stmt n body with
      | .normal => loop n condition body
      | .returned value => return .returned value
    else return .normal

end

/-- Runs a program: a `return` outside every function ends its own statement only. -/
def program (budget : Nat) : List Stmt → Eval Unit
  | [] => flush
  | s :: rest => do
    let _ ← stmt budget s
    program budget rest

end Eval

/-- A machine, and the number of the next mention. -/
structure Session where
  machine : Machine
  nextId : Nat

namespace Session

/-- A session before its first source. -/
def start (sink : Sink) (clock : Clock) : Session :=
  ⟨Machine.start sink clock, 0⟩

/-- Runs a source as it was read, which must be free of errors; of its resolution nothing else is
used. -/
def runReading (budget : Nat) (reading : Reading) (s : Session) : RunResult × Session :=
  if reading.errors.isEmpty then
    match resolve reading.statements with
    | .error errors =>
      (.rejected (errors.map Diagnostic.scoping), ⟨s.machine, reading.nextId⟩)
    | .ok _ =>
      match Eval.program budget reading.statements s.machine with
      | .done () m => (.success, ⟨m, reading.nextId⟩)
      | .failed failure m => (.stopped failure, ⟨m, reading.nextId⟩)
      | .exhausted m => (.unfinished, ⟨m, reading.nextId⟩)
  else
    (.rejected reading.errors, ⟨s.machine, reading.nextId⟩)

/-- Runs one source. -/
def run (budget : Nat) (source : String) (s : Session) : RunResult × Session :=
  s.runReading budget (Reading.ofSource source s.nextId)

/-- Offers a host function as a global. -/
def defineNative (name : String) (native : Native Places) (s : Session) : Session :=
  { s with machine := s.machine.defineNative name native }

/-- Takes away what has been written. -/
def drain (s : Session) : Array UInt8 × Session :=
  let (written, sink) := s.machine.sink.drain
  (written, { s with machine := { s.machine with sink := sink } })

/-- The session after an action, and how a run ended. -/
def act : Action → Session → Option RunResult × Session
  | .run budget source, s => (some (s.run budget source).1, (s.run budget source).2)
  | .offer name host, s => (none, s.defineNative name host.native)
  | .drain, s => (none, s.drain.2)

/-- All that can be seen of a session from outside. -/
def trace : List Action → Session → List (Option RunResult × Sink)
  | [], _ => []
  | a :: rest, s => ((s.act a).1, (s.act a).2.machine.sink) :: trace rest (s.act a).2

end Session

end Located

end LoxLang
