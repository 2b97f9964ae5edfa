import LoxLang.Number.Style
import LoxLang.Scope
import LoxLang.Tree

/-!
# Values

What programs compute with. Functions, classes and objects are told apart by identity: a number
that is given out once. What an object holds is kept elsewhere, under its address.

What a function keeps of the place of its declaration is up to `σ`: a scope of frames, unless said
otherwise. No operation on values looks into it.

1. `Class.method?_eq_some`: a method is found in the first class of the chain that declares it.
-/

namespace LoxLang

/-- A function with the scope it was declared in. An initializer answers with its object. -/
structure Closure (σ : Type := Scope) where
  decl : FunctionDecl
  scope : σ
  isInitializer : Bool

namespace Closure

variable {σ : Type}

/-- The name under which a function was declared. -/
def name (closure : Closure σ) : String :=
  closure.decl.name.lexeme

/-- How many arguments a function takes. -/
def arity (closure : Closure σ) : Nat :=
  closure.decl.params.length

end Closure

/-- What one class declaration contributes; methods stand in the order in which they are written. -/
structure ClassBody (σ : Type := Scope) where
  id : Nat
  name : String
  methods : List (Closure σ)

namespace ClassBody

variable {σ : Type}

/-- The last method of that name. -/
def method? (body : ClassBody σ) (name : String) : Option (Closure σ) :=
  body.methods.reverse.find? fun m => m.name == name

end ClassBody

/-- A class: its own body, and those of its ancestors from the nearest on. -/
structure Class (σ : Type := Scope) where
  body : ClassBody σ
  ancestors : List (ClassBody σ)

namespace Class

variable {σ : Type}

/-- The bodies in which methods are looked up, in order. -/
def chain (c : Class σ) : List (ClassBody σ) :=
  c.body :: c.ancestors

/-- The method of that name in the first body that has one. -/
def method? (c : Class σ) (name : String) : Option (Closure σ) :=
  c.chain.findSome? fun body => body.method? name

/-- The method that sets up new objects. -/
def initializer? (c : Class σ) : Option (Closure σ) :=
  c.method? FunctionDecl.initializerName

/-- A call of a class takes the arguments of its initializer. -/
def arity (c : Class σ) : Nat :=
  (c.initializer?.map Closure.arity).getD 0

theorem method?_eq_some {c : Class σ} {name : String} {m : Closure σ}
    (found : c.method? name = some m) :
    ∃ nearer body further, c.chain = nearer ++ body :: further ∧ body.method? name = some m ∧
      ∀ b ∈ nearer, b.method? name = none :=
  List.findSome?_eq_some_iff.1 found

end Class

/-- A value. -/
inductive Value (σ : Type := Scope) where
  | nil
  | boolean (value : Bool)
  | number (value : Float)
  | string (contents : String)
  /-- A function of the host, by its place in the machine's table. -/
  | native (index : Nat)
  | function (id : Nat) (closure : Closure σ)
  | classValue (c : Class σ)
  | object (address : Nat) (c : Class σ)

namespace Value

variable {σ : Type}

/-- A constant as a value. -/
def ofLiteral : Literal → Value σ
  | .nil => nil
  | .boolean value => boolean value
  | .number value => number value
  | .string contents => string contents

/-- Only `nil` and `false` are false. -/
def truthy : Value σ → Bool
  | nil => false
  | boolean value => value
  | _ => true

/-- Values of different types are never equal, numbers compare as numbers, and what has an identity
is equal to itself alone. -/
def equals : Value σ → Value σ → Bool
  | nil, nil => true
  | boolean a, boolean b => a == b
  | number a, number b => a == b
  | string a, string b => a == b
  | native i, native j => i == j
  | function i _, function j _ => i == j
  | classValue c, classValue d => c.body.id == d.body.id
  | object i _, object j _ => i == j
  | _, _ => false

/-- The name of a value's type. -/
def typeName : Value σ → String
  | nil => "nil"
  | boolean _ => "boolean"
  | number _ => "number"
  | string _ => "string"
  | native _ | function _ _ => "function"
  | classValue _ => "class"
  | object _ _ => "instance"

/-- The text of a value, as `print` writes it. -/
def text : Value σ → String
  | nil => "nil"
  | boolean true => "true"
  | boolean false => "false"
  | number value => NumberStyle.printed.text value
  | string contents => contents
  | native _ => "<native fn>"
  | function _ closure => "<fn " ++ closure.name ++ ">"
  | classValue c => c.body.name
  | object _ c => c.body.name ++ " instance"

end Value

end LoxLang
