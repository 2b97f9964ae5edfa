import LoxLang.Proofs.Splitting.Resolving

/-!
# Places in programs

The rules of scoping, said of a program without a walk that remembers anything. At each place of a
program there are the local scopes around it, each opened by some construct and with the names that
are declared in it before the place. A rule speaks of what the program does at a place, and of what
is around it.

1. `Encounter.Breaks`: the rules.
2. `Encounter.error?_eq_some_iff`: whether a rule is broken can be computed, and it is at most one.
-/

namespace LoxLang

/-- What opens a local scope. -/
inductive Construct where
  | block
  /-- The body of a function or a method, which shares its scope with the parameters. -/
  | function (role : Role) (decl : FunctionDecl)
  /-- The body of a class, in whose scope is `this`. -/
  | classBody (hasSuperclass : Bool)
  /-- What is around the body of a class that has a superclass, in whose scope is `super`. -/
  | superclass

/-- A local scope around a place, with the names that are declared in it before the place. -/
structure LocalScope where
  construct : Construct
  names : List String

namespace LocalScope

/-- The function whose body the scope is. -/
def function? (scope : LocalScope) : Option (Role × FunctionDecl) :=
  match scope.construct with
  | .function role decl => some (role, decl)
  | _ => none

/-- Whether the class has a superclass whose body the scope is. -/
def hasSuperclass? (scope : LocalScope) : Option Bool :=
  match scope.construct with
  | .classBody hasSuperclass => some hasSuperclass
  | _ => none

/-- The scopes behind declarations in the innermost one. Globals are not tracked. -/
def declare (names : List String) : List LocalScope → List LocalScope
  | [] => []
  | here :: outer => { here with names := here.names ++ names } :: outer

end LocalScope

/-- A place in a program. -/
structure Place where
  /-- The local scopes around it, innermost first. -/
  scopes : List LocalScope
  /-- The variable in whose initial value the place is, if it is in one. -/
  initialValueOf : Option String

namespace Place

/-- The innermost function or method around a place. -/
def function? (p : Place) : Option (Role × FunctionDecl) :=
  p.scopes.findSome? LocalScope.function?

/-- Whether the innermost class around a place has a superclass. -/
def hasSuperclass? (p : Place) : Option Bool :=
  p.scopes.findSome? LocalScope.hasSuperclass?

/-- The innermost scope that has a name is so many scopes out. -/
def Finds (p : Place) (name : String) (distance : Nat) : Prop :=
  ∃ inner here outer, p.scopes = inner ++ here :: outer ∧ inner.length = distance ∧
    name ∈ here.names ∧ ∀ scope ∈ inner, name ∉ scope.names

end Place

/-- What a program does that scoping is about. -/
inductive Act where
  /-- Declares a variable, a function, a class or a parameter. -/
  | declares (name : Token)
  | reads (o : Occurrence)
  | assigns (o : Occurrence)
  | this (o : Occurrence)
  | super (o : Occurrence)
  | returns (keyword : Token) (hasValue : Bool)
  /-- Names the superclass of a class. -/
  | inherits (name : Token) (parent : Occurrence)

namespace Act

/-- The mention whose variable is looked for. -/
def mention? : Act → Option Occurrence
  | .reads o | .assigns o | .this o | .super o => some o
  | _ => none

end Act

/-- Something that a program does, and where. -/
structure Encounter where
  place : Place
  act : Act

/-! ## All that a program does -/

mutual

/-- What an expression does. The value given to a property comes before the object that has it. -/
def Expr.encounters (p : Place) : Expr → List Encounter
  | .literal _ => []
  | .grouping inner => inner.encounters p
  | .unary _ operand => operand.encounters p
  | .binary left _ right => left.encounters p ++ right.encounters p
  | .logical left _ right => left.encounters p ++ right.encounters p
  | .var name => [⟨p, .reads name⟩]
  | .assign target value => value.encounters p ++ [⟨p, .assigns target⟩]
  | .call callee _ arguments => callee.encounters p ++ Expr.allEncounters p arguments
  | .get object _ => object.encounters p
  | .set object _ value => value.encounters p ++ object.encounters p
  | .this keyword => [⟨p, .this keyword⟩]
  | .super keyword _ => [⟨p, .super keyword⟩]

/-- What expressions do, from left to right. -/
def Expr.allEncounters (p : Place) : List Expr → List Encounter
  | [] => []
  | e :: rest => e.encounters p ++ Expr.allEncounters p rest

end

/-- The names that a statement declares in the scope it stands in. -/
def Stmt.declares : Stmt → List String
  | .varDecl name _ => [name.lexeme]
  | .funDecl decl => [decl.name.lexeme]
  | .classDecl name _ _ => [name.lexeme]
  | .ifThen _ thenBranch => thenBranch.declares
  | .ifElse _ thenBranch elseBranch => thenBranch.declares ++ elseBranch.declares
  | .whileDo _ body => body.declares
  | _ => []

/-- Declarations in the innermost scope, one after the other. -/
def LocalScope.declarations (around : List LocalScope) : List Token → List Encounter
  | [] => []
  | t :: rest => ⟨⟨around, none⟩, .declares t⟩ :: declarations (declare [t.lexeme] around) rest

open LocalScope (declare declarations)

mutual

/-- What a statement does, in order. A variable is declared before its initial value, a function and
a class before its body, and the parameters of a function before the rest of it. -/
def Stmt.encounters (around : List LocalScope) : Stmt → List Encounter
  | .expression value => value.encounters ⟨around, none⟩
  | .print value => value.encounters ⟨around, none⟩
  | .varDecl name (some value) =>
    ⟨⟨around, none⟩, .declares name⟩ ::
      value.encounters ⟨declare [name.lexeme] around, some name.lexeme⟩
  | .varDecl name none => [⟨⟨around, none⟩, .declares name⟩]
  | .block body => Stmt.allEncounters (⟨.block, []⟩ :: around) body
  | .ifThen condition thenBranch =>
    condition.encounters ⟨around, none⟩ ++ thenBranch.encounters around
  | .ifElse condition thenBranch elseBranch =>
    condition.encounters ⟨around, none⟩ ++ (thenBranch.encounters around ++
      elseBranch.encounters (declare thenBranch.declares around))
  | .whileDo condition body => condition.encounters ⟨around, none⟩ ++ body.encounters around
  | .funDecl decl =>
    ⟨⟨around, none⟩, .declares decl.name⟩ ::
      decl.encounters .function (declare [decl.name.lexeme] around)
  | .ret keyword (some value) =>
    ⟨⟨around, none⟩, .returns keyword true⟩ :: value.encounters ⟨around, none⟩
  | .ret keyword none => [⟨⟨around, none⟩, .returns keyword false⟩]
  | .classDecl name none methods =>
    ⟨⟨around, none⟩, .declares name⟩ ::
      FunctionDecl.allEncounters (⟨.classBody false, ["this"]⟩ :: declare [name.lexeme] around)
        methods
  | .classDecl name (some parent) methods =>
    ⟨⟨around, none⟩, .declares name⟩ ::
      ⟨⟨declare [name.lexeme] around, none⟩, .inherits name parent⟩ ::
      ⟨⟨declare [name.lexeme] around, none⟩, .reads parent⟩ ::
      FunctionDecl.allEncounters (⟨.classBody true, ["this"]⟩ :: ⟨.superclass, ["super"]⟩ ::
        declare [name.lexeme] around) methods

/-- What a function does whose own name is already declared. -/
def FunctionDecl.encounters (role : Role) (around : List LocalScope) :
    FunctionDecl → List Encounter
  | ⟨name, params, body⟩ =>
    declarations (⟨.function role ⟨name, params, body⟩, []⟩ :: around) params ++
      Stmt.allEncounters (⟨.function role ⟨name, params, body⟩, params.map Token.lexeme⟩ :: around)
        body

/-- What statements do, each behind the declarations of those before it. -/
def Stmt.allEncounters (around : List LocalScope) : List Stmt → List Encounter
  | [] => []
  | s :: rest => s.encounters around ++ Stmt.allEncounters (declare s.declares around) rest

/-- What the methods of a class do. -/
def FunctionDecl.allEncounters (around : List LocalScope) : List FunctionDecl → List Encounter
  | [] => []
  | m :: rest => m.encounters .method around ++ FunctionDecl.allEncounters around rest

end

/-! ## The rules -/

namespace Encounter

/-- The rules of scoping, each with the error that is due if it is broken. -/
inductive Breaks : Encounter → ScopingError → Prop
  /-- A name is declared twice in one local scope. -/
  | alreadyDeclared {name : Token} {here : LocalScope} {outer : List LocalScope}
      {x : Option String} :
      name.lexeme ∈ here.names →
      Breaks ⟨⟨here :: outer, x⟩, .declares name⟩ ⟨.ofToken name, .alreadyDeclared⟩
  /-- In its own initial value a local variable is read that is declared there for the first
  time. -/
  | inOwnInitializer {o : Occurrence} {here : LocalScope} {outer : List LocalScope} :
      here.names.count o.name = 1 →
      Breaks ⟨⟨here :: outer, some o.name⟩, .reads o⟩ ⟨.ofToken o.token, .inOwnInitializer⟩
  /-- A `return` stands outside of every function and method. -/
  | returnOutsideFunction {p : Place} {keyword : Token} {hasValue : Bool} :
      p.function? = none →
      Breaks ⟨p, .returns keyword hasValue⟩ ⟨.ofToken keyword, .returnOutsideFunction⟩
  /-- The innermost function around a `return` with a value is a method that sets up instances. -/
  | valueFromInitializer {p : Place} {keyword : Token} {decl : FunctionDecl} :
      p.function? = some (.method, decl) → decl.name.lexeme = "init" →
      Breaks ⟨p, .returns keyword true⟩ ⟨.ofToken keyword, .valueFromInitializer⟩
  /-- A `this` stands outside of every class. -/
  | thisOutsideClass {p : Place} {o : Occurrence} :
      p.hasSuperclass? = none →
      Breaks ⟨p, .this o⟩ ⟨.ofToken o.token, .thisOutsideClass⟩
  /-- A `super` stands outside of every class. -/
  | superOutsideClass {p : Place} {o : Occurrence} :
      p.hasSuperclass? = none →
      Breaks ⟨p, .super o⟩ ⟨.ofToken o.token, .superOutsideClass⟩
  /-- The innermost class around a `super` has no superclass. -/
  | superWithoutSuperclass {p : Place} {o : Occurrence} :
      p.hasSuperclass? = some false →
      Breaks ⟨p, .super o⟩ ⟨.ofToken o.token, .superWithoutSuperclass⟩
  /-- A class names itself as its superclass. -/
  | inheritsFromItself {p : Place} {name : Token} {parent : Occurrence} :
      parent.name = name.lexeme →
      Breaks ⟨p, .inherits name parent⟩ ⟨.ofToken parent.token, .inheritsFromItself⟩

end Encounter

namespace Place

/-- A name is declared in the innermost local scope around a place. -/
def declaresHere (p : Place) (name : String) : Bool :=
  match p.scopes with
  | [] => false
  | here :: _ => here.names.contains name

/-- The local variable whose initial value is being computed, if it is declared there for the first
time. -/
def pending? (p : Place) : Option String :=
  match p.scopes, p.initialValueOf with
  | here :: _, some x => if here.names.count x = 1 then some x else none
  | _, _ => none

end Place

namespace Encounter

/-- The rule that is broken, if one is. -/
def fault? (v : Encounter) : Option (Token × ScopingFault) :=
  match v.act with
  | .declares name =>
    if v.place.declaresHere name.lexeme then some (name, .alreadyDeclared) else none
  | .reads o =>
    if v.place.pending? = some o.name then some (o.token, .inOwnInitializer) else none
  | .assigns _ => none
  | .this o => if v.place.hasSuperclass? = none then some (o.token, .thisOutsideClass) else none
  | .super o =>
    match v.place.hasSuperclass? with
    | none => some (o.token, .superOutsideClass)
    | some false => some (o.token, .superWithoutSuperclass)
    | some true => none
  | .returns keyword hasValue =>
    match v.place.function? with
    | none => some (keyword, .returnOutsideFunction)
    | some (.method, decl) =>
      if hasValue && decl.isInitializer then some (keyword, .valueFromInitializer) else none
    | some (.function, _) => none
  | .inherits name parent =>
    if parent.name = name.lexeme then some (parent.token, .inheritsFromItself) else none

/-- The error that is due. -/
def error? (v : Encounter) : Option ScopingError :=
  v.fault?.map fun (t, fault) => ⟨.ofToken t, fault⟩

theorem breaks_of_error? {v : Encounter} {e : ScopingError} (h : v.error? = some e) :
    v.Breaks e := by
  obtain ⟨⟨scopes, x⟩, act⟩ := v
  obtain ⟨⟨t, fault⟩, hfault, rfl⟩ := Option.map_eq_some_iff.1 h
  cases act with simp only [fault?] at hfault
  | declares name =>
    cases scopes with
    | nil => exact nomatch hfault
    | cons here outer =>
      split at hfault
      · next hhere =>
        cases hfault
        exact .alreadyDeclared (by simpa [Place.declaresHere] using hhere)
      · exact nomatch hfault
  | reads o =>
    split at hfault
    · next hpending =>
      cases hfault
      cases scopes with
      | nil => exact nomatch hpending
      | cons here outer =>
        cases x with
        | none => exact nomatch hpending
        | some x =>
          obtain ⟨hcount, rfl⟩ : here.names.count x = 1 ∧ x = o.name := by
            simpa [Place.pending?] using hpending
          exact .inOwnInitializer hcount
    · exact nomatch hfault
  | assigns o => exact nomatch hfault
  | this o =>
    split at hfault
    · next hclass =>
      cases hfault
      exact .thisOutsideClass hclass
    · exact nomatch hfault
  | super o =>
    split at hfault <;> cases hfault
    · next hclass => exact .superOutsideClass hclass
    · next hclass => exact .superWithoutSuperclass hclass
  | returns keyword hasValue =>
    split at hfault
    · next hfunction =>
      cases hfault
      exact .returnOutsideFunction hfunction
    · next decl hfunction =>
      split at hfault
      · next hvalue =>
        cases hfault
        obtain ⟨rfl, hinit⟩ := Bool.and_eq_true_iff.1 hvalue
        exact .valueFromInitializer hfunction
          (by simpa [FunctionDecl.isInitializer, FunctionDecl.initializerName] using hinit)
      · exact nomatch hfault
    · exact nomatch hfault
  | inherits name parent =>
    split at hfault
    · next hname =>
      cases hfault
      exact .inheritsFromItself hname
    · exact nomatch hfault

theorem Breaks.error? {v : Encounter} {e : ScopingError} (h : v.Breaks e) :
    v.error? = some e := by
  cases h with
  | alreadyDeclared h => simp [Encounter.error?, fault?, Place.declaresHere, h]
  | inOwnInitializer h => simp [Encounter.error?, fault?, Place.pending?, h]
  | returnOutsideFunction h => simp [Encounter.error?, fault?, h]
  | valueFromInitializer h h' =>
    simp [Encounter.error?, fault?, h, h', FunctionDecl.isInitializer,
      FunctionDecl.initializerName]
  | thisOutsideClass h => simp [Encounter.error?, fault?, h]
  | superOutsideClass h => simp [Encounter.error?, fault?, h]
  | superWithoutSuperclass h => simp [Encounter.error?, fault?, h]
  | inheritsFromItself h => simp [Encounter.error?, fault?, h]

/-- A rule is broken just if it is found to be, and then no other rule is. -/
theorem error?_eq_some_iff {v : Encounter} {e : ScopingError} :
    v.error? = some e ↔ v.Breaks e :=
  ⟨breaks_of_error?, Breaks.error?⟩

instance (v : Encounter) : Decidable (∃ e, v.Breaks e) :=
  decidable_of_iff (v.error?.isSome = true) <| by
    simp only [Option.isSome_iff_exists, error?_eq_some_iff]

end Encounter

end LoxLang
