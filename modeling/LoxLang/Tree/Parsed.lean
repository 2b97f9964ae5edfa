import LoxLang.Tree
import LoxLang.Tree.Rule

/-!
# Trees read from tokens

The grammar of the language, loosest binding first:

```text
program     = declaration* ;
declaration = class | function | variable | statement ;
statement   = for | if | print | return | while | block | expression ";" ;
expression  = target "=" expression | or ;
or          = and ( "or" and )* ;            and    = equality ( "and" equality )* ;
equality    = order ( ( "!=" | "==" ) order )* ;
order       = sum ( ( ">" | ">=" | "<" | "<=" ) sum )* ;
sum         = product ( ( "-" | "+" ) product )* ;
product     = unary ( ( "/" | "*" ) unary )* ;
unary       = ( "!" | "-" ) unary | primary ( "(" arguments ")" | "." name )* ;
```

Reading always ends with a tree of all statements that could be read and a list of all faults; the
program is fit to run only if that list is empty.
-/

namespace LoxLang

/-- One level of binary operators: what they are and which expression they build. -/
structure Level where
  operators : List Kind
  build : Expr → Token → Expr → Expr

namespace Level

/-- The levels of binary operators, loosest first. -/
def all : List Level :=
  [⟨[.keyword .orWord], .logical⟩,
   ⟨[.keyword .andWord], .logical⟩,
   ⟨[.mark .bangEqual, .mark .equalEqual], .binary⟩,
   ⟨[.mark .greater, .mark .greaterEqual, .mark .less, .mark .lessEqual], .binary⟩,
   ⟨[.mark .minus, .mark .plus], .binary⟩,
   ⟨[.mark .slash, .mark .star], .binary⟩]

end Level

namespace Rule

/-- Operators of one level after a left side, which grows with each of them. -/
def chainFrom (level : Level) (operand : Rule Expr) : (steps : Nat) → (left : Expr) → Rule Expr
  | 0, _ => exhausted
  | steps + 1, left => do
    match ← take? level.operators with
    | none => return left
    | some operator =>
      let right ← operand
      chainFrom level operand steps (level.build left operator right)

/-- Operands with left-associative operators of one level between them. -/
def chain (level : Level) (operand : Rule Expr) (steps : Nat) : Rule Expr := do
  let left ← operand
  chainFrom level operand steps left

/-- Operators of several levels, loosest first; the operands of each are of the next. -/
def chains (levels : List Level) (operand : Rule Expr) (steps : Nat) : Rule Expr :=
  match levels with
  | [] => operand
  | level :: tighter => chain level (chains tighter operand steps) steps

/-- What an `=` after `target` assigns to; anything but a variable or a property is a fault, and
then stands for itself. -/
def assignTo (target : Expr) (equals : Token) (value : Expr) : Rule Expr :=
  match target with
  | .var name => do return .assign ⟨← freshId, name.token⟩ value
  | .get object name => return .set object name value
  | other => do
    record (Site.ofToken equals) .invalidTarget
    return other

/-- A literal, a name, `this`, a superclass method, or an expression in parentheses. -/
def primary (expression : Rule Expr) : Rule Expr := do
  let t ← peek
  match t.kind with
  | .keyword .falseWord => do advance; return .literal (.boolean false)
  | .keyword .trueWord => do advance; return .literal (.boolean true)
  | .keyword .nilWord => do advance; return .literal .nil
  | .number value => do advance; return .literal (.number value)
  | .string contents => do advance; return .literal (.string contents)
  | .keyword .superWord => do
    advance
    let _ ← expect .superDot
    let method ← expect .superMethodName
    return .super ⟨← freshId, t⟩ method
  | .keyword .thisWord => do advance; return .this ⟨← freshId, t⟩
  | .identifier => do advance; return .var ⟨← freshId, t⟩
  | .mark .leftParen => do
    advance
    let inner ← expression
    let _ ← expect .groupEnd
    return .grouping inner
  | _ => fail .noExpression

/-- Calls and property accesses after an expression, from left to right. -/
def accesses (expression : Rule Expr) : (steps : Nat) → (object : Expr) → Rule Expr
  | 0, _ => exhausted
  | steps + 1, object => do
    match ← take? [.mark .leftParen] with
    | some _ =>
      let arguments ← parenthesized .arguments expression steps
      let close ← expect .argumentsEnd
      accesses expression steps (.call object close arguments)
    | none =>
      match ← take? [.mark .dot] with
      | some _ =>
        let name ← expect .propertyName
        accesses expression steps (.get object name)
      | none => return object

mutual

/-- An expression; assignments group to the right. -/
def expression : (steps : Nat) → Rule Expr
  | 0 => exhausted
  | steps + 1 => do
    let left ← chains Level.all (unary steps) steps
    match ← take? [.mark .equal] with
    | none => return left
    | some equals =>
      let value ← expression steps
      assignTo left equals value

/-- An operand of the binary operators. -/
def unary : (steps : Nat) → Rule Expr
  | 0 => exhausted
  | steps + 1 => do
    match ← take? [.mark .bang, .mark .minus] with
    | some operator =>
      let operand ← unary steps
      return .unary operator operand
    | none =>
      let object ← primary (expression steps)
      accesses (expression steps) steps object

end

/-- The rest of a variable declaration. -/
def variableDeclaration (steps : Nat) : Rule Stmt := do
  let name ← expect .variableName
  match ← take? [.mark .equal] with
  | none => do
    let _ ← expect .variableEnd
    return .varDecl name none
  | some _ => do
    let value ← expression steps
    let _ ← expect .variableEnd
    return .varDecl name (some value)

/-- An expression and a semicolon. -/
def expressionStatement (steps : Nat) : Rule Stmt := do
  let value ← expression steps
  let _ ← expect .expressionEnd
  return .expression value

/-- The rest of a print statement. -/
def printStatement (steps : Nat) : Rule Stmt := do
  let value ← expression steps
  let _ ← expect .printEnd
  return .print value

/-- The rest of a return statement. -/
def returnStatement (steps : Nat) (keyword : Token) : Rule Stmt := do
  let value ← unlessNext (.mark .semicolon) (expression steps)
  let _ ← expect .returnEnd
  return .ret keyword value

/-- Declarations up to a right brace, and the brace. -/
def block (declaration : Rule (Option Stmt)) (steps : Nat) : Rule (List Stmt) := do
  let body ← manyUntil (fun t => t.isEnd || t.kind = .mark .rightBrace) declaration steps
  let _ ← expect .blockEnd
  return body

/-- Name, parameters and body of a function or a method. -/
def function (role : Role) (declaration : Rule (Option Stmt)) (steps : Nat) :
    Rule FunctionDecl := do
  let name ← expect (.functionName role)
  let _ ← expect (.parameters role)
  let params ← parenthesized .parameters (expect .parameterName) steps
  let _ ← expect .parametersEnd
  let _ ← expect (.functionBody role)
  let body ← block declaration steps
  return ⟨name, params, body⟩

/-- The superclass of a class declaration, if it names one. -/
def superclass : Rule (Option Occurrence) := do
  match ← take? [.mark .less] with
  | none => return none
  | some _ =>
    let name ← expect .superclassName
    return some ⟨← freshId, name⟩

/-- The rest of a class declaration. A fault in a method fails the whole class. -/
def classDeclaration (declaration : Rule (Option Stmt)) (steps : Nat) : Rule Stmt := do
  let name ← expect .className
  let parent ← superclass
  let _ ← expect .classBody
  let method : Rule (Option FunctionDecl) := do
    return some (← function .method declaration steps)
  let methods ← manyUntil (fun t => t.isEnd || t.kind = .mark .rightBrace) method steps
  let _ ← expect .classEnd
  return .classDecl name parent methods

/-- The first clause of a `for` loop. -/
def forInitializer (steps : Nat) : Rule (Option Stmt) := do
  let next ← peek
  match next.kind with
  | .mark .semicolon => do advance; return none
  | .keyword .varWord => do advance; return some (← variableDeclaration steps)
  | _ => return some (← expressionStatement steps)

/-- The rest of a `for` statement. -/
def forStatement (statement : Rule Stmt) (steps : Nat) : Rule Stmt := do
  let _ ← expect .forClauses
  let initializer ← forInitializer steps
  let condition ← unlessNext (.mark .semicolon) (expression steps)
  let _ ← expect .loopConditionEnd
  let increment ← unlessNext (.mark .rightParen) (expression steps)
  let _ ← expect .forClausesEnd
  let body ← statement
  return Stmt.forLoop initializer condition increment body

/-- The rest of an `if` statement; an `else` belongs to the nearest `if` before it. -/
def ifStatement (statement : Rule Stmt) (steps : Nat) : Rule Stmt := do
  let _ ← expect .ifCondition
  let condition ← expression steps
  let _ ← expect .ifConditionEnd
  let thenBranch ← statement
  match ← take? [.keyword .elseWord] with
  | none => return .ifThen condition thenBranch
  | some _ =>
    let elseBranch ← statement
    return .ifElse condition thenBranch elseBranch

/-- The rest of a `while` statement. -/
def whileStatement (statement : Rule Stmt) (steps : Nat) : Rule Stmt := do
  let _ ← expect .whileCondition
  let condition ← expression steps
  let _ ← expect .whileConditionEnd
  let body ← statement
  return .whileDo condition body

mutual

/-- A statement that declares nothing in the scope around it. -/
def statement : (steps : Nat) → Rule Stmt
  | 0 => exhausted
  | steps + 1 => do
    let next ← peek
    match next.kind with
    | .keyword .forWord => do advance; forStatement (statement steps) steps
    | .keyword .ifWord => do advance; ifStatement (statement steps) steps
    | .keyword .printWord => do advance; printStatement steps
    | .keyword .returnWord => do advance; returnStatement steps next
    | .keyword .whileWord => do advance; whileStatement (statement steps) steps
    | .mark .leftBrace => do advance; return .block (← block (declaration steps) steps)
    | _ => expressionStatement steps

/-- A declaration or a statement; if it fails, reading goes on behind it. -/
def declaration : (steps : Nat) → Rule (Option Stmt)
  | 0 => exhausted
  | steps + 1 => recover do
    let next ← peek
    match next.kind with
    | .keyword .classWord => do advance; classDeclaration (declaration steps) steps
    | .keyword .funWord => do
      advance
      return .funDecl (← function .function (declaration steps) steps)
    | .keyword .varWord => do advance; variableDeclaration steps
    | _ => statement steps

end

/-- Declarations up to the end. -/
def program (steps : Nat) : Rule (List Stmt) :=
  manyUntil Token.isEnd (declaration steps) steps

end Rule

/-- What reading a token sequence yields. -/
structure Parsed where
  statements : List Stmt
  errors : List GrammarError
  nextId : Nat

namespace Parsed

/-- How many steps suffice for so many tokens: no rule calls more than three others before it takes
a token. -/
def steps (length : Nat) : Nat :=
  4 * (length + 1)

/-- The tree of a token sequence, its mentions numbered from `firstId`. -/
def ofTokens (tokens : List Token) (firstId : Nat) : Parsed :=
  match Rule.program (steps tokens.length) ⟨tokens, firstId, []⟩ with
  | .ok statements c => ⟨statements, c.errors, c.nextId⟩
  | .fail e c => ⟨[], c.errors ++ [e], c.nextId⟩
  | .exhausted => ⟨[], [], firstId⟩

end Parsed

end LoxLang
