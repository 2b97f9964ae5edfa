import Mathlib.Data.List.Forall2
import LoxLang.Machine.Native
import LoxLang.Operator

/-!
# Values that are alike

Two values are alike if they differ in nothing but what their functions keep of the place of their
declaration. What makes two functions alike is left open. Operators and host functions look at
nothing else, so they treat values that are alike in the same way.

1. `Value.Alike.text_eq`, `Value.Alike.equals_eq`: values that are alike cannot be told apart.
2. `Operator.binary_alike`: results are alike again.
-/

namespace LoxLang

variable {σ τ : Type}

/-- When two functions are alike, and when two methods are; in any case they have the same name and
take the same number of arguments. -/
structure Likeness (σ τ : Type) where
  function : Closure σ → Closure τ → Prop
  method : Closure σ → Closure τ → Prop
  function_name : ∀ {c c'}, function c c' → c.name = c'.name
  function_arity : ∀ {c c'}, function c c' → c.arity = c'.arity
  method_name : ∀ {c c'}, method c c' → c.name = c'.name
  method_arity : ∀ {c c'}, method c c' → c.arity = c'.arity

namespace Likeness

/-- What is alike by one likeness is alike by the other. -/
structure Le (l l' : Likeness σ τ) : Prop where
  function : ∀ {c c'}, l.function c c' → l'.function c c'
  method : ∀ {c c'}, l.method c c' → l'.method c c'

end Likeness

/-- Two class bodies that differ at most in what their methods keep. -/
structure ClassBody.Alike (l : Likeness σ τ) (b : ClassBody σ) (b' : ClassBody τ) : Prop where
  id : b.id = b'.id
  name : b.name = b'.name
  methods : List.Forall₂ l.method b.methods b'.methods

/-- Two classes that differ at most in what their methods keep. -/
structure Class.Alike (l : Likeness σ τ) (c : Class σ) (c' : Class τ) : Prop where
  body : c.body.Alike l c'.body
  ancestors : List.Forall₂ (ClassBody.Alike l) c.ancestors c'.ancestors

/-- Two values that differ at most in what functions keep. -/
inductive Value.Alike (l : Likeness σ τ) : Value σ → Value τ → Prop
  | nil : Alike l .nil .nil
  | boolean (value : Bool) : Alike l (.boolean value) (.boolean value)
  | number (value : Float) : Alike l (.number value) (.number value)
  | string (contents : String) : Alike l (.string contents) (.string contents)
  | native (index : Nat) : Alike l (.native index) (.native index)
  | function (id : Nat) {c : Closure σ} {c' : Closure τ} :
      l.function c c' → Alike l (.function id c) (.function id c')
  | classValue {c : Class σ} {c' : Class τ} :
      c.Alike l c' → Alike l (.classValue c) (.classValue c')
  | object (address : Nat) {c : Class σ} {c' : Class τ} :
      c.Alike l c' → Alike l (.object address c) (.object address c')

/-- The same error, or results that are related. -/
def SameResult {ε α β : Type} (R : α → β → Prop) : Except ε α → Except ε β → Prop
  | .ok a, .ok b => R a b
  | .error e, .error e' => e = e'
  | _, _ => False

theorem SameResult.mapError {ε ε' α β : Type} {R : α → β → Prop} {r : Except ε α} {r' : Except ε β}
    (h : SameResult R r r') (f : ε → ε') : SameResult R (r.mapError f) (r'.mapError f) := by
  cases r <;> cases r'
  · exact congrArg f h
  · exact h
  · exact h
  · exact h

/-- How many arguments a function or a class takes. -/
def Takes (n : Nat) : Value σ → Prop
  | .function _ closure => closure.arity = n
  | .classValue c => c.arity = n
  | _ => True

variable {l l' : Likeness σ τ}

/-! ## Classes -/

theorem rel_cases {α β : Type} {R : α → β → Prop} {o : Option α} {o' : Option β}
    (h : Option.Rel R o o') :
    o = none ∧ o' = none ∨ ∃ a b, o = some a ∧ o' = some b ∧ R a b := by
  cases h with
  | none => exact .inl ⟨rfl, rfl⟩
  | some h => exact .inr ⟨_, _, rfl, rfl, h⟩

theorem rel_eq {α : Type} (o : Option α) : Option.Rel Eq o o := by
  cases o with
  | none => exact .none
  | some a => exact .some rfl

/-- Searches that agree on what they look for find related things. -/
theorem find?_rel {α β : Type} {R : α → β → Prop} {p : α → Bool} {q : β → Bool} {as : List α}
    {bs : List β} (h : List.Forall₂ R as bs) (hpq : ∀ {a b}, R a b → p a = q b) :
    Option.Rel R (as.find? p) (bs.find? q) := by
  induction h with
  | nil => exact .none
  | @cons a b as bs hab _ ih =>
    rw [List.find?_cons, List.find?_cons, ← hpq hab]
    cases p a with
    | true => exact .some hab
    | false => exact ih

theorem ClassBody.Alike.mono {b : ClassBody σ} {b' : ClassBody τ} (h : b.Alike l b')
    (hl : l.Le l') : b.Alike l' b' :=
  ⟨h.id, h.name, h.methods.imp fun _ _ => hl.method⟩

theorem Class.Alike.mono {c : Class σ} {c' : Class τ} (h : c.Alike l c') (hl : l.Le l') :
    c.Alike l' c' :=
  ⟨h.body.mono hl, h.ancestors.imp fun _ _ hb => hb.mono hl⟩

/-- The last method of a name is found in both bodies or in none. -/
theorem ClassBody.Alike.method? {b : ClassBody σ} {b' : ClassBody τ} (h : b.Alike l b')
    (name : String) : Option.Rel l.method (b.method? name) (b'.method? name) :=
  find?_rel (List.rel_reverse h.methods) fun hm => by rw [l.method_name hm]

theorem Class.Alike.chain {c : Class σ} {c' : Class τ} (h : c.Alike l c') :
    List.Forall₂ (ClassBody.Alike l) c.chain c'.chain :=
  .cons h.body h.ancestors

theorem Class.Alike.method? {c : Class σ} {c' : Class τ} (h : c.Alike l c') (name : String) :
    Option.Rel l.method (c.method? name) (c'.method? name) := by
  have hc := h.chain
  unfold Class.method?
  generalize c.chain = bs at hc
  generalize c'.chain = bs' at hc
  induction hc with
  | nil => exact .none
  | @cons b b' bs bs' hb _ ih =>
    rw [List.findSome?_cons, List.findSome?_cons]
    have hm := hb.method? name
    generalize b.method? name = m at hm
    generalize b'.method? name = m' at hm
    cases hm with
    | none => exact ih
    | some hm => exact .some hm

theorem Class.Alike.arity_eq {c : Class σ} {c' : Class τ} (h : c.Alike l c') :
    c.arity = c'.arity := by
  have hm := h.method? FunctionDecl.initializerName
  unfold Class.arity Class.initializer?
  generalize c.method? FunctionDecl.initializerName = m at hm
  generalize c'.method? FunctionDecl.initializerName = m' at hm
  cases hm with
  | none => rfl
  | some hm => exact l.method_arity hm

/-! ## Values -/

namespace Value

theorem ofLiteral_alike (value : Literal) : Alike l (ofLiteral value) (ofLiteral value) := by
  cases value with
  | nil => exact .nil
  | boolean value => exact .boolean value
  | number value => exact .number value
  | string contents => exact .string contents

namespace Alike

variable {v u : Value σ} {v' u' : Value τ}

theorem mono (h : Alike l v v') (hl : l.Le l') : Alike l' v v' := by
  cases h with
  | nil => exact .nil
  | boolean value => exact .boolean value
  | number value => exact .number value
  | string contents => exact .string contents
  | native index => exact .native index
  | function id hf => exact .function id (hl.function hf)
  | classValue hc => exact .classValue (hc.mono hl)
  | object address hc => exact .object address (hc.mono hl)

theorem text_eq (h : Alike l v v') : v.text = v'.text := by
  cases h with
  | nil => rfl
  | boolean value => cases value <;> rfl
  | number value => rfl
  | string contents => rfl
  | native index => rfl
  | function id hf => simp only [text, l.function_name hf]
  | classValue hc => exact hc.body.name
  | object address hc => simp only [text, hc.body.name]

theorem typeName_eq (h : Alike l v v') : v.typeName = v'.typeName := by
  cases h <;> rfl

theorem truthy_eq (h : Alike l v v') : v.truthy = v'.truthy := by
  cases h <;> rfl

theorem equals_eq (h : Alike l v v') (h' : Alike l u u') : v.equals u = v'.equals u' := by
  cases h <;> cases h' <;> try rfl
  next hc _ _ hd => simp only [equals, hc.body.id, hd.body.id]

end Alike

end Value

/-! ## Operators and host functions -/

namespace Operator

variable {v u : Value σ} {v' u' : Value τ}

theorem decides_eq (operator : Kind) (h : v.Alike l v') :
    decides operator v = decides operator v' := by
  simp only [decides, h.truthy_eq]

theorem unary_alike (operator : Kind) (h : v.Alike l v') :
    SameResult (Value.Alike l) (unary operator v) (unary operator v') := by
  unfold unary
  split
  · cases h <;> first | rfl | exact .number _
  · rw [h.truthy_eq]
    exact .boolean _
  · rfl

theorem add_alike (h : v.Alike l v') (h' : u.Alike l u') :
    SameResult (Value.Alike l) (add v u) (add v' u') := by
  cases h <;> cases h' <;> first | rfl | exact .number _ | exact .string _

theorem numeric_alike (operator : Kind) (a b : Float) :
    SameResult (Value.Alike l) (numeric operator a b) (numeric operator a b) := by
  unfold numeric
  split <;> first | rfl | exact .number _ | exact .boolean _

theorem binary_alike (operator : Kind) (h : v.Alike l v') (h' : u.Alike l u') :
    SameResult (Value.Alike l) (binary operator v u) (binary operator v' u') := by
  unfold binary
  split
  · rw [h.equals_eq h']
    exact .boolean _
  · rw [h.equals_eq h']
    exact .boolean _
  · exact add_alike h h'
  · cases h <;> cases h' <;> first | rfl | exact numeric_alike operator _ _

end Operator

/-- What two host functions do is the same if they tell no values apart that are alike. -/
inductive NativeBody.Alike : NativeBody σ → NativeBody τ → Prop
  | clock : Alike .clock .clock
  | host {run : List (Value σ) → Except String (Value σ)}
      {run' : List (Value τ) → Except String (Value τ)} :
      (∀ (l : Likeness σ τ) (vs : List (Value σ)) (vs' : List (Value τ)),
        List.Forall₂ (Value.Alike l) vs vs' → SameResult (Value.Alike l) (run vs) (run' vs')) →
      Alike (.host run) (.host run')

/-- Two host functions that do the same. -/
structure Native.Alike (f : Native σ) (f' : Native τ) : Prop where
  arity : f.arity = f'.arity
  body : f.body.Alike f'.body

end LoxLang
