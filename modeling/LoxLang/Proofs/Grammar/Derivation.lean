import LoxLang.Tree.Parsed

/-!
# Derivations of the grammar

The grammar of the language as rules of derivation, one relation for each nonterminal. A derivation
says which tokens a phrase consists of and which tree the phrase is. No relation looks beyond its
own tokens, so there is no order in which alternatives are tried.

Every relation has two numbers beside tokens and tree: the first number free for the mentions in the
phrase, and the first one free behind it. Numbers are given out from left to right, but a number of
an assignment only behind its value; the number of the name it assigns to is left unused.

A list of operators of one level is derived from the left, so that it groups to the left;
assignments and unary operators are derived from the right.

1. `Grammar.ladder_eq_all`: the productions of binary operators are the levels that are read.
2. `Grammar.desugars_iff`: what a `for` loop stands for is the statement that is read.
-/

namespace LoxLang

namespace Kind

/-- The constant that a token of this kind stands for, if it is a literal. -/
def literal? : Kind → Option Literal
  | .keyword .falseWord => some (.boolean false)
  | .keyword .trueWord => some (.boolean true)
  | .keyword .nilWord => some .nil
  | .number value => some (.number value)
  | .string contents => some (.string contents)
  | _ => none

end Kind

namespace Grammar

/-! ## Binary operators -/

/-- `or = and ( "or" and )*`. -/
def disjunction : Level :=
  ⟨[.keyword .orWord], .logical⟩

/-- `and = equality ( "and" equality )*`. -/
def conjunction : Level :=
  ⟨[.keyword .andWord], .logical⟩

/-- `equality = comparison ( ( "!=" | "==" ) comparison )*`. -/
def equality : Level :=
  ⟨[.mark .bangEqual, .mark .equalEqual], .binary⟩

/-- `comparison = term ( ( ">" | ">=" | "<" | "<=" ) term )*`. -/
def comparison : Level :=
  ⟨[.mark .greater, .mark .greaterEqual, .mark .less, .mark .lessEqual], .binary⟩

/-- `term = factor ( ( "-" | "+" ) factor )*`. -/
def term : Level :=
  ⟨[.mark .minus, .mark .plus], .binary⟩

/-- `factor = unary ( ( "/" | "*" ) unary )*`. -/
def factor : Level :=
  ⟨[.mark .slash, .mark .star], .binary⟩

/-- The productions of binary operators, from the loosest on. -/
def ladder : List Level :=
  [disjunction, conjunction, equality, comparison, term, factor]

/-- These are the levels that are read. -/
theorem ladder_eq_all : ladder = Level.all := rfl

/-! ## Expressions -/

mutual

/-- `expression = ( call "." )? name "=" expression | or`. -/
inductive Expression : Nat → List Token → Expr → Nat → Prop
  | assign {n n' : Nat} {name equals : Token} {ts : List Token} {value : Expr} :
      name.kind = .identifier → equals.kind = .mark .equal → Expression (n + 1) ts value n' →
      Expression n (name :: equals :: ts) (.assign ⟨n', name⟩ value) (n' + 1)
  | set {n n₁ n' : Nat} {dot name equals : Token} {ts us : List Token} {object value : Expr} :
      Call n ts object n₁ → dot.kind = .mark .dot → name.kind = .identifier →
      equals.kind = .mark .equal → Expression n₁ us value n' →
      Expression n (ts ++ dot :: name :: equals :: us) (.set object name value) n'
  | operators {n n' : Nat} {ts : List Token} {e : Expr} :
      Operators ladder n ts e n' → Expression n ts e n'

/-- Operands with operators between them, the given levels from the loosest on:
`operators = tighter ( operator tighter )*`, which is `tighter | operators operator tighter`. -/
inductive Operators : List Level → Nat → List Token → Expr → Nat → Prop
  | operand {n n' : Nat} {ts : List Token} {e : Expr} :
      Unary n ts e n' → Operators [] n ts e n'
  | tighter {level : Level} {levels : List Level} {n n' : Nat} {ts : List Token} {e : Expr} :
      Operators levels n ts e n' → Operators (level :: levels) n ts e n'
  | operator {level : Level} {levels : List Level} {n n₁ n' : Nat} {operator : Token}
      {ts us : List Token} {left right : Expr} :
      Operators (level :: levels) n ts left n₁ → operator.kind ∈ level.operators →
      Operators levels n₁ us right n' →
      Operators (level :: levels) n (ts ++ operator :: us) (level.build left operator right) n'

/-- `unary = ( "!" | "-" ) unary | call`. -/
inductive Unary : Nat → List Token → Expr → Nat → Prop
  | operator {n n' : Nat} {operator : Token} {ts : List Token} {operand : Expr} :
      operator.kind = .mark .bang ∨ operator.kind = .mark .minus → Unary n ts operand n' →
      Unary n (operator :: ts) (.unary operator operand) n'
  | call {n n' : Nat} {ts : List Token} {e : Expr} : Call n ts e n' → Unary n ts e n'

/-- `call = primary ( "(" arguments? ")" | "." name )*`, with at most `maxArity` arguments. -/
inductive Call : Nat → List Token → Expr → Nat → Prop
  | primary {n n' : Nat} {ts : List Token} {e : Expr} : Primary n ts e n' → Call n ts e n'
  | call {n n₁ n' : Nat} {opening close : Token} {ts us : List Token} {callee : Expr}
      {arguments : List Expr} :
      Call n ts callee n₁ → opening.kind = .mark .leftParen → Arguments n₁ us arguments n' →
      arguments.length ≤ maxArity → close.kind = .mark .rightParen →
      Call n (ts ++ opening :: (us ++ [close])) (.call callee close arguments) n'
  | get {n n' : Nat} {dot name : Token} {ts : List Token} {object : Expr} :
      Call n ts object n' → dot.kind = .mark .dot → name.kind = .identifier →
      Call n (ts ++ [dot, name]) (.get object name) n'

/-- `arguments? = ( expression ( "," expression )* )?`. -/
inductive Arguments : Nat → List Token → List Expr → Nat → Prop
  | none {n : Nat} : Arguments n [] [] n
  | some {n n' : Nat} {ts : List Token} {es : List Expr} : Listed n ts es n' → Arguments n ts es n'

/-- `expression ( "," expression )*`. -/
inductive Listed : Nat → List Token → List Expr → Nat → Prop
  | one {n n' : Nat} {ts : List Token} {e : Expr} : Expression n ts e n' → Listed n ts [e] n'
  | more {n n₁ n' : Nat} {comma : Token} {ts us : List Token} {e : Expr} {es : List Expr} :
      Expression n ts e n₁ → comma.kind = .mark .comma → Listed n₁ us es n' →
      Listed n (ts ++ comma :: us) (e :: es) n'

/-- `primary = literal | "this" | name | "super" "." name | "(" expression ")"`. -/
inductive Primary : Nat → List Token → Expr → Nat → Prop
  | literal {n : Nat} {t : Token} {value : Literal} :
      t.kind.literal? = some value → Primary n [t] (.literal value) n
  | this {n : Nat} {t : Token} :
      t.kind = .keyword .thisWord → Primary n [t] (.this ⟨n, t⟩) (n + 1)
  | var {n : Nat} {t : Token} :
      t.kind = .identifier → Primary n [t] (.var ⟨n, t⟩) (n + 1)
  | super {n : Nat} {t dot method : Token} :
      t.kind = .keyword .superWord → dot.kind = .mark .dot → method.kind = .identifier →
      Primary n [t, dot, method] (.super ⟨n, t⟩ method) (n + 1)
  | grouping {n n' : Nat} {opening close : Token} {ts : List Token} {inner : Expr} :
      opening.kind = .mark .leftParen → Expression n ts inner n' →
      close.kind = .mark .rightParen →
      Primary n (opening :: (ts ++ [close])) (.grouping inner) n'

end

/-! ## Statements -/

/-- `expression?`. -/
inductive Clause : Nat → List Token → Option Expr → Nat → Prop
  | none {n : Nat} : Clause n [] none n
  | some {n n' : Nat} {ts : List Token} {e : Expr} : Expression n ts e n' → Clause n ts (some e) n'

/-- `variable = "var" name ( "=" expression )? ";"`, without its first word. -/
inductive Variable : Nat → List Token → Stmt → Nat → Prop
  | bare {n : Nat} {name semicolon : Token} :
      name.kind = .identifier → semicolon.kind = .mark .semicolon →
      Variable n [name, semicolon] (.varDecl name none) n
  | initialized {n n' : Nat} {name equals semicolon : Token} {ts : List Token} {value : Expr} :
      name.kind = .identifier → equals.kind = .mark .equal → Expression n ts value n' →
      semicolon.kind = .mark .semicolon →
      Variable n (name :: equals :: (ts ++ [semicolon])) (.varDecl name (some value)) n'

/-- `( variable | expression ";" | ";" )`, the first clause of a `for` loop. -/
inductive Initializer : Nat → List Token → Option Stmt → Nat → Prop
  | none {n : Nat} {semicolon : Token} :
      semicolon.kind = .mark .semicolon → Initializer n [semicolon] none n
  | declaration {n n' : Nat} {word : Token} {ts : List Token} {s : Stmt} :
      word.kind = .keyword .varWord → Variable n ts s n' → Initializer n (word :: ts) (some s) n'
  | expression {n n' : Nat} {semicolon : Token} {ts : List Token} {e : Expr} :
      Expression n ts e n' → semicolon.kind = .mark .semicolon →
      Initializer n (ts ++ [semicolon]) (some (.expression e)) n'

/-- `parameters = name ( "," name )*`. -/
inductive Names : List Token → List Token → Prop
  | one {name : Token} : name.kind = .identifier → Names [name] [name]
  | more {name comma : Token} {ts names : List Token} :
      name.kind = .identifier → comma.kind = .mark .comma → Names ts names →
      Names (name :: comma :: ts) (name :: names)

/-- `parameters?`, at most `maxArity` of them. -/
inductive Parameters : List Token → List Token → Prop
  | none : Parameters [] []
  | some {ts names : List Token} :
      Names ts names → names.length ≤ maxArity → Parameters ts names

/-- `( "<" name )?`, the superclass of a class declaration. -/
inductive Superclass : Nat → List Token → Option Occurrence → Nat → Prop
  | none {n : Nat} : Superclass n [] none n
  | some {n : Nat} {less name : Token} :
      less.kind = .mark .less → name.kind = .identifier →
      Superclass n [less, name] (some ⟨n, name⟩) (n + 1)

/-- The statement that a `for` loop of these clauses and this body stands for:

* `repeated`: a loop with nothing but a condition is the `while` loop of that condition;
* `endless`: a condition that is left out is `true`;
* `incremented`: an increment is the last statement of the body, in a block with it;
* `initialized`: an initializer stands before the loop, in a block around it. -/
inductive Desugars : Option Stmt → Option Expr → Option Expr → Stmt → Stmt → Prop
  | repeated {condition : Expr} {body : Stmt} :
      Desugars none (some condition) none body (.whileDo condition body)
  | endless {increment : Option Expr} {body s : Stmt} :
      Desugars none (some (.literal (.boolean true))) increment body s →
      Desugars none none increment body s
  | incremented {condition increment : Expr} {body s : Stmt} :
      Desugars none (some condition) none (.block [body, .expression increment]) s →
      Desugars none (some condition) (some increment) body s
  | initialized {initializer : Stmt} {condition increment : Option Expr} {body s : Stmt} :
      Desugars none condition increment body s →
      Desugars (some initializer) condition increment body (.block [initializer, s])

theorem desugars_none (condition increment : Option Expr) (body : Stmt) :
    Desugars none condition increment body (Stmt.forLoop none condition increment body) := by
  have hgiven : ∀ condition, Desugars none (some condition) increment body
      (Stmt.forLoop none (some condition) increment body) := by
    intro condition
    cases increment with
    | none => exact .repeated
    | some increment => exact .incremented .repeated
  cases condition with
  | none => exact .endless (hgiven _)
  | some condition => exact hgiven condition

theorem desugars_forLoop (initializer : Option Stmt) (condition increment : Option Expr)
    (body : Stmt) : Desugars initializer condition increment body
      (Stmt.forLoop initializer condition increment body) := by
  cases initializer with
  | none => exact desugars_none condition increment body
  | some initializer => exact .initialized (desugars_none condition increment body)

/-- A loop stands for the statement that is read. -/
theorem desugars_iff {initializer : Option Stmt} {condition increment : Option Expr}
    {body s : Stmt} : Desugars initializer condition increment body s ↔
      s = Stmt.forLoop initializer condition increment body := by
  constructor
  · intro h
    induction h with
    | repeated => rfl
    | endless _ ih => exact ih
    | incremented _ ih => exact ih
    | initialized _ ih => rw [ih]; rfl
  · rintro rfl
    exact desugars_forLoop initializer condition increment body

mutual

/-- `statement = for | if | print | return | while | block | expression ";"`.

The flag says whether the statement ends with an `if` that has no `else`. No such statement may
stand before an `else`: so every `else` belongs to the nearest `if`.

* `expression`, `print`, `ret` and `block`: the statement ends with a semicolon or a brace, and
  leaves no `if` open.
* `whileDo` and `forLoop`: the statement ends as its body does. A `for` loop is the statement that
  it stands for.
* `ifThen`: an `if` that has no `else`, whatever it holds.
* `ifElse`: between `if` and `else` no `if` is left open; the statement ends as what follows its
  `else`. -/
inductive Statement : Bool → Nat → List Token → Stmt → Nat → Prop
  | expression {n n' : Nat} {semicolon : Token} {ts : List Token} {e : Expr} :
      Expression n ts e n' → semicolon.kind = .mark .semicolon →
      Statement false n (ts ++ [semicolon]) (.expression e) n'
  | print {n n' : Nat} {word semicolon : Token} {ts : List Token} {e : Expr} :
      word.kind = .keyword .printWord → Expression n ts e n' →
      semicolon.kind = .mark .semicolon →
      Statement false n (word :: (ts ++ [semicolon])) (.print e) n'
  | ret {n n' : Nat} {word semicolon : Token} {ts : List Token} {value : Option Expr} :
      word.kind = .keyword .returnWord → Clause n ts value n' →
      semicolon.kind = .mark .semicolon →
      Statement false n (word :: (ts ++ [semicolon])) (.ret word value) n'
  | block {n n' : Nat} {ts : List Token} {body : List Stmt} :
      Block n ts body n' → Statement false n ts (.block body) n'
  | whileDo {d : Bool} {n n₁ n' : Nat} {word opening close : Token} {ts us : List Token}
      {condition : Expr} {body : Stmt} :
      word.kind = .keyword .whileWord → opening.kind = .mark .leftParen →
      Expression n ts condition n₁ → close.kind = .mark .rightParen →
      Statement d n₁ us body n' →
      Statement d n (word :: opening :: (ts ++ close :: us)) (.whileDo condition body) n'
  | forLoop {d : Bool} {n n₁ n₂ n₃ n' : Nat} {word opening semicolon close : Token}
      {ts us vs ws : List Token} {initializer : Option Stmt} {condition increment : Option Expr}
      {body s : Stmt} :
      word.kind = .keyword .forWord → opening.kind = .mark .leftParen →
      Initializer n ts initializer n₁ → Clause n₁ us condition n₂ →
      semicolon.kind = .mark .semicolon → Clause n₂ vs increment n₃ →
      close.kind = .mark .rightParen → Statement d n₃ ws body n' →
      Desugars initializer condition increment body s →
      Statement d n (word :: opening :: (ts ++ (us ++ semicolon :: (vs ++ close :: ws)))) s n'
  | ifThen {d : Bool} {n n₁ n' : Nat} {word opening close : Token} {ts us : List Token}
      {condition : Expr} {thenBranch : Stmt} :
      word.kind = .keyword .ifWord → opening.kind = .mark .leftParen →
      Expression n ts condition n₁ → close.kind = .mark .rightParen →
      Statement d n₁ us thenBranch n' →
      Statement true n (word :: opening :: (ts ++ close :: us)) (.ifThen condition thenBranch) n'
  | ifElse {d : Bool} {n n₁ n₂ n' : Nat} {word opening close other : Token}
      {ts us vs : List Token} {condition : Expr} {thenBranch elseBranch : Stmt} :
      word.kind = .keyword .ifWord → opening.kind = .mark .leftParen →
      Expression n ts condition n₁ → close.kind = .mark .rightParen →
      Statement false n₁ us thenBranch n₂ → other.kind = .keyword .elseWord →
      Statement d n₂ vs elseBranch n' →
      Statement d n (word :: opening :: (ts ++ close :: (us ++ other :: vs)))
        (.ifElse condition thenBranch elseBranch) n'

/-- `declaration = class | function | variable | statement`. -/
inductive Declaration : Nat → List Token → Stmt → Nat → Prop
  | classDecl {n n₁ n' : Nat} {word name opening close : Token} {ts us : List Token}
      {parent : Option Occurrence} {methods : List FunctionDecl} :
      word.kind = .keyword .classWord → name.kind = .identifier → Superclass n ts parent n₁ →
      opening.kind = .mark .leftBrace → Methods n₁ us methods n' →
      close.kind = .mark .rightBrace →
      Declaration n (word :: name :: (ts ++ opening :: (us ++ [close])))
        (.classDecl name parent methods) n'
  | funDecl {n n' : Nat} {word : Token} {ts : List Token} {decl : FunctionDecl} :
      word.kind = .keyword .funWord → Function n ts decl n' →
      Declaration n (word :: ts) (.funDecl decl) n'
  | varDecl {n n' : Nat} {word : Token} {ts : List Token} {s : Stmt} :
      word.kind = .keyword .varWord → Variable n ts s n' → Declaration n (word :: ts) s n'
  | statement {d : Bool} {n n' : Nat} {ts : List Token} {s : Stmt} :
      Statement d n ts s n' → Declaration n ts s n'

/-- `declaration*`. -/
inductive Declarations : Nat → List Token → List Stmt → Nat → Prop
  | nil {n : Nat} : Declarations n [] [] n
  | cons {n n₁ n' : Nat} {ts us : List Token} {s : Stmt} {rest : List Stmt} :
      Declaration n ts s n₁ → Declarations n₁ us rest n' →
      Declarations n (ts ++ us) (s :: rest) n'

/-- `block = "{" declaration* "}"`. -/
inductive Block : Nat → List Token → List Stmt → Nat → Prop
  | braces {n n' : Nat} {opening close : Token} {ts : List Token} {body : List Stmt} :
      opening.kind = .mark .leftBrace → Declarations n ts body n' →
      close.kind = .mark .rightBrace → Block n (opening :: (ts ++ [close])) body n'

/-- `function = name "(" parameters? ")" block`. -/
inductive Function : Nat → List Token → FunctionDecl → Nat → Prop
  | named {n n' : Nat} {name opening close : Token} {ts us params : List Token}
      {body : List Stmt} :
      name.kind = .identifier → opening.kind = .mark .leftParen → Parameters ts params →
      close.kind = .mark .rightParen → Block n us body n' →
      Function n (name :: opening :: (ts ++ close :: us)) ⟨name, params, body⟩ n'

/-- `function*`, the methods of a class. -/
inductive Methods : Nat → List Token → List FunctionDecl → Nat → Prop
  | nil {n : Nat} : Methods n [] [] n
  | cons {n n₁ n' : Nat} {ts us : List Token} {m : FunctionDecl} {rest : List FunctionDecl} :
      Function n ts m n₁ → Methods n₁ us rest n' → Methods n (ts ++ us) (m :: rest) n'

end

/-- `program = declaration*`, up to the end of the input: the first end token, or the end of the
list if there is none. -/
def Program (n : Nat) (tokens : List Token) (program : List Stmt) (n' : Nat) : Prop :=
  Declarations n (tokens.takeWhile fun t => !t.isEnd) program n'

end Grammar

end LoxLang
