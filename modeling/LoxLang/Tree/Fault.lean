import LoxLang.Token

/-!
# Grammar faults

What a token sequence can lack to be a program, and the words for it. Where the grammar awaits one
kind of token, the awaited thing itself says which kind that is.
-/

namespace LoxLang

/-- What a function stands as: by itself, or in a class. -/
inductive Role where
  | function
  | method
  deriving DecidableEq, Repr

namespace Role

/-- The word for a role in messages. -/
def text : Role → String
  | function => "function"
  | method => "method"

end Role

/-- A token that the grammar requires at some place. -/
inductive Awaited where
  | className
  | superclassName
  | classBody
  | classEnd
  | functionName (role : Role)
  | parameters (role : Role)
  | parameterName
  | parametersEnd
  | functionBody (role : Role)
  | variableName
  | variableEnd
  | forClauses
  | loopConditionEnd
  | forClausesEnd
  | ifCondition
  | ifConditionEnd
  | whileCondition
  | whileConditionEnd
  | printEnd
  | returnEnd
  | expressionEnd
  | blockEnd
  | propertyName
  | argumentsEnd
  | superDot
  | superMethodName
  | groupEnd
  deriving DecidableEq, Repr

namespace Awaited

/-- The kind of the awaited token. -/
def kind : Awaited → Kind
  | className | superclassName | functionName _ | parameterName | variableName | propertyName
  | superMethodName => .identifier
  | classBody | functionBody _ => .mark .leftBrace
  | classEnd | blockEnd => .mark .rightBrace
  | parameters _ | forClauses | ifCondition | whileCondition => .mark .leftParen
  | parametersEnd | forClausesEnd | ifConditionEnd | whileConditionEnd | argumentsEnd | groupEnd =>
    .mark .rightParen
  | variableEnd | loopConditionEnd | printEnd | returnEnd | expressionEnd => .mark .semicolon
  | superDot => .mark .dot

/-- The wording of a request for the awaited token. -/
def message : Awaited → String
  | className => "Expect class name."
  | superclassName => "Expect superclass name."
  | classBody => "Expect '\x7b' before class body."
  | classEnd => "Expect '\x7d' after class body."
  | functionName role => "Expect " ++ role.text ++ " name."
  | parameters role => "Expect '(' after " ++ role.text ++ " name."
  | parameterName => "Expect parameter name."
  | parametersEnd => "Expect ')' after parameters."
  | functionBody role => "Expect '\x7b' before " ++ role.text ++ " body."
  | variableName => "Expect variable name."
  | variableEnd => "Expect ';' after variable declaration."
  | forClauses => "Expect '(' after 'for'."
  | loopConditionEnd => "Expect ';' after loop condition."
  | forClausesEnd => "Expect ')' after for clauses."
  | ifCondition => "Expect '(' after 'if'."
  | ifConditionEnd => "Expect ')' after if condition."
  | whileCondition => "Expect '(' after 'while'."
  | whileConditionEnd => "Expect ')' after condition."
  | printEnd => "Expect ';' after value."
  | returnEnd => "Expect ';' after return value."
  | expressionEnd => "Expect ';' after expression."
  | blockEnd => "Expect '\x7d' after block."
  | propertyName => "Expect property name after '.'."
  | argumentsEnd => "Expect ')' after arguments."
  | superDot => "Expect '.' after 'super'."
  | superMethodName => "Expect superclass method name."
  | groupEnd => "Expect ')' after expression."

end Awaited

/-- Lists whose length is limited. -/
inductive Listed where
  | parameters
  | arguments
  deriving DecidableEq, Repr

namespace Listed

/-- The word for such a list. -/
def text : Listed → String
  | parameters => "parameters"
  | arguments => "arguments"

end Listed

/-- The most parameters a function has, and the most arguments a call. -/
def maxArity : Nat := 255

/-- What is wrong with a token sequence at one place. -/
inductive GrammarFault where
  | missing (awaited : Awaited)
  | noExpression
  | tooMany (listed : Listed)
  | invalidTarget
  deriving DecidableEq, Repr

namespace GrammarFault

/-- The wording of a grammar fault. -/
def message : GrammarFault → String
  | missing awaited => awaited.message
  | noExpression => "Expect expression."
  | tooMany listed => "Can't have more than " ++ toString maxArity ++ " " ++ listed.text ++ "."
  | invalidTarget => "Invalid assignment target."

end GrammarFault

/-- A grammar fault and its place. -/
structure GrammarError where
  site : Site
  fault : GrammarFault
  deriving DecidableEq, Repr

namespace GrammarError

/-- The wording of a grammar error. -/
def text (e : GrammarError) : String :=
  e.site.report e.fault.message

end GrammarError

end LoxLang
