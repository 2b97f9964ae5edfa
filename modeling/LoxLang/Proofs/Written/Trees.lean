import LoxLang.Proofs.Layout.Readings
import LoxLang.Proofs.Written.Forms
import LoxLang.Tree.Written

/-!
# The forms of trees

The text of a tree is the text of a form.

1. `Expr.text_form`, `Stmt.text_form`: so it is for each construct.
-/

namespace LoxLang

/-! ## Trees that agree -/

/-- Constants that are the same, or numbers that print the same. -/
inductive Literal.Agrees : Literal → Literal → Prop
  | same (value : Literal) : Agrees value value
  | numbers {x y : Float} : NumberStyle.inTree.text x = NumberStyle.inTree.text y →
      Agrees (.number x) (.number y)

mutual

/-- Expressions that are the same up to the numbers of their mentions, the lines of their tokens,
and numbers that print the same. -/
inductive Expr.Agrees : Expr → Expr → Prop
  | literal {v v' : Literal} : v.Agrees v' → Agrees (.literal v) (.literal v')
  | grouping {e e' : Expr} : e.Agrees e' → Agrees (.grouping e) (.grouping e')
  | unary {t t' : Token} {e e' : Expr} : t.SameText t' → e.Agrees e' →
      Agrees (.unary t e) (.unary t' e')
  | binary {t t' : Token} {l l' r r' : Expr} : l.Agrees l' → t.SameText t' → r.Agrees r' →
      Agrees (.binary l t r) (.binary l' t' r')
  | logical {t t' : Token} {l l' r r' : Expr} : l.Agrees l' → t.SameText t' → r.Agrees r' →
      Agrees (.logical l t r) (.logical l' t' r')
  | var {o o' : Occurrence} : o.token.SameText o'.token → Agrees (.var o) (.var o')
  | assign {o o' : Occurrence} {e e' : Expr} : o.token.SameText o'.token → e.Agrees e' →
      Agrees (.assign o e) (.assign o' e')
  | call {e e' : Expr} {t t' : Token} {es es' : List Expr} : e.Agrees e' → t.SameText t' →
      Expr.AllAgree es es' → Agrees (.call e t es) (.call e' t' es')
  | get {e e' : Expr} {t t' : Token} : e.Agrees e' → t.SameText t' →
      Agrees (.get e t) (.get e' t')
  | set {e e' v v' : Expr} {t t' : Token} : e.Agrees e' → t.SameText t' → v.Agrees v' →
      Agrees (.set e t v) (.set e' t' v')
  | this {o o' : Occurrence} : o.token.SameText o'.token → Agrees (.this o) (.this o')
  | super {o o' : Occurrence} {t t' : Token} : o.token.SameText o'.token → t.SameText t' →
      Agrees (.super o t) (.super o' t')

/-- Lists of expressions that agree one by one. -/
inductive Expr.AllAgree : List Expr → List Expr → Prop
  | nil : AllAgree [] []
  | cons {e e' : Expr} {es es' : List Expr} : e.Agrees e' → AllAgree es es' →
      AllAgree (e :: es) (e' :: es')

end

/-- An expression where the other has one, and then they agree. -/
inductive Expr.OptionAgrees : Option Expr → Option Expr → Prop
  | none : OptionAgrees none none
  | some {e e' : Expr} : e.Agrees e' → OptionAgrees (some e) (some e')

mutual

/-- Statements that are the same up to the numbers of their mentions, the lines of their tokens,
and numbers that print the same. -/
inductive Stmt.Agrees : Stmt → Stmt → Prop
  | expression {e e' : Expr} : e.Agrees e' → Stmt.Agrees (.expression e) (.expression e')
  | print {e e' : Expr} : e.Agrees e' → Stmt.Agrees (.print e) (.print e')
  | varDecl {t t' : Token} {o o' : Option Expr} : t.SameText t' → Expr.OptionAgrees o o' →
      Stmt.Agrees (.varDecl t o) (.varDecl t' o')
  | block {body body' : List Stmt} : Stmt.AllAgree body body' →
      Stmt.Agrees (.block body) (.block body')
  | ifThen {e e' : Expr} {s s' : Stmt} : e.Agrees e' → s.Agrees s' →
      Stmt.Agrees (.ifThen e s) (.ifThen e' s')
  | ifElse {e e' : Expr} {s s' r r' : Stmt} : e.Agrees e' → s.Agrees s' → r.Agrees r' →
      Stmt.Agrees (.ifElse e s r) (.ifElse e' s' r')
  | whileDo {e e' : Expr} {s s' : Stmt} : e.Agrees e' → s.Agrees s' →
      Stmt.Agrees (.whileDo e s) (.whileDo e' s')
  | funDecl {f f' : FunctionDecl} : f.Agrees f' → Stmt.Agrees (.funDecl f) (.funDecl f')
  | ret {t t' : Token} {o o' : Option Expr} : t.SameText t' → Expr.OptionAgrees o o' →
      Stmt.Agrees (.ret t o) (.ret t' o')
  | classDecl {t t' : Token} {o o' : Option Occurrence} {ms ms' : List FunctionDecl} :
      t.SameText t' →
      Option.Rel (fun p p' : Occurrence => p.token.SameText p'.token) o o' →
      FunctionDecl.AllAgree ms ms' → Stmt.Agrees (.classDecl t o ms) (.classDecl t' o' ms')

/-- Functions that agree: in name, parameters and body. -/
inductive FunctionDecl.Agrees : FunctionDecl → FunctionDecl → Prop
  | mk {t t' : Token} {ps ps' : List Token} {body body' : List Stmt} : t.SameText t' →
      List.Forall₂ Token.SameText ps ps' → Stmt.AllAgree body body' →
      FunctionDecl.Agrees ⟨t, ps, body⟩ ⟨t', ps', body'⟩

/-- Lists of statements that agree one by one. -/
inductive Stmt.AllAgree : List Stmt → List Stmt → Prop
  | nil : Stmt.AllAgree [] []
  | cons {s s' : Stmt} {ss ss' : List Stmt} : s.Agrees s' → Stmt.AllAgree ss ss' →
      Stmt.AllAgree (s :: ss) (s' :: ss')

/-- Lists of functions that agree one by one. -/
inductive FunctionDecl.AllAgree : List FunctionDecl → List FunctionDecl → Prop
  | nil : FunctionDecl.AllAgree [] []
  | cons {m m' : FunctionDecl} {ms ms' : List FunctionDecl} : m.Agrees m' →
      FunctionDecl.AllAgree ms ms' → FunctionDecl.AllAgree (m :: ms) (m' :: ms')

end

/-! ## Forms -/

mutual

/-- What the text of an expression is made of. -/
def Expr.form : Expr → Form
  | .literal value => .word value.text
  | .grouping inner => .list "group" [inner.form]
  | .unary operator operand => .list operator.lexeme [operand.form]
  | .binary left operator right => .list operator.lexeme [left.form, right.form]
  | .logical left operator right => .list operator.lexeme [left.form, right.form]
  | .var name => .word name.name
  | .assign target value => .list "=" [.word target.name, value.form]
  | .call callee _ arguments => .list "call" (callee.form :: Expr.forms arguments)
  | .get object name => .list "." [object.form, .word name.lexeme]
  | .set object name value => .list "=" [.list "." [object.form, .word name.lexeme], value.form]
  | .this _ => .word "this"
  | .super _ method => .list "super" [.word method.lexeme]

def Expr.forms : List Expr → List Form
  | [] => []
  | e :: rest => e.form :: Expr.forms rest

end

mutual

/-- What the text of a statement is made of. -/
def Stmt.form : Stmt → Form
  | .expression value => .list ";" [value.form]
  | .print value => .list "print" [value.form]
  | .varDecl name initializer =>
    .list "var" (.word name.lexeme :: (initializer.map Expr.form).toList)
  | .block body => .list "block" (Stmt.forms body)
  | .ifThen condition thenBranch => .list "if" [condition.form, thenBranch.form]
  | .ifElse condition thenBranch elseBranch =>
    .list "if" [condition.form, thenBranch.form, elseBranch.form]
  | .whileDo condition body => .list "while" [condition.form, body.form]
  | .funDecl decl => decl.form "fun"
  | .ret _ value => .list "return" (value.map Expr.form).toList
  | .classDecl name superclass methods =>
    let parent := match superclass with
      | some parent => [.word "<", .word parent.name]
      | none => []
    .list "class" (.word name.lexeme :: (parent ++ FunctionDecl.forms methods))

def FunctionDecl.form (role : String) : FunctionDecl → Form
  | ⟨name, params, body⟩ =>
    .list role (.signature name.lexeme (params.map Token.lexeme) :: Stmt.forms body)

def Stmt.forms : List Stmt → List Form
  | [] => []
  | s :: rest => s.form :: Stmt.forms rest

def FunctionDecl.forms : List FunctionDecl → List Form
  | [] => []
  | m :: rest => m.form "method" :: FunctionDecl.forms rest

end

mutual

theorem Expr.text_form : ∀ e : Expr, e.form.text = e.text
  | .literal _ => rfl
  | .grouping inner => by
    simp [Expr.form, Expr.text, Form.text, Form.tailText, inner.text_form,
      ← String.append_assoc]
  | .unary _ operand => by
    simp [Expr.form, Expr.text, Form.text, Form.tailText, operand.text_form,
      ← String.append_assoc]
  | .binary left _ right => by
    simp [Expr.form, Expr.text, Form.text, Form.tailText, left.text_form, right.text_form,
      ← String.append_assoc]
  | .logical left _ right => by
    simp [Expr.form, Expr.text, Form.text, Form.tailText, left.text_form, right.text_form,
      ← String.append_assoc]
  | .var _ => rfl
  | .assign _ value => by
    simp [Expr.form, Expr.text, Form.text, Form.tailText, value.text_form,
      ← String.append_assoc]
  | .call callee _ arguments => by
    simp [Expr.form, Expr.text, Form.text, Form.tailText, callee.text_form,
      Expr.tailText_forms arguments, ← String.append_assoc]
  | .get object _ => by
    simp [Expr.form, Expr.text, Form.text, Form.tailText, object.text_form,
      ← String.append_assoc]
  | .set object _ value => by
    simp [Expr.form, Expr.text, Form.text, Form.tailText, object.text_form, value.text_form,
      ← String.append_assoc]
    exact String.append_assoc
  | .this _ => rfl
  | .super _ _ => by
    simp [Expr.form, Expr.text, Form.text, Form.tailText, ← String.append_assoc]

theorem Expr.tailText_forms : ∀ es : List Expr, Form.tailText (Expr.forms es) = Expr.tailText es
  | [] => rfl
  | e :: rest => by
    rw [Expr.forms, Form.tailText, Expr.tailText, e.text_form, Expr.tailText_forms rest]

end

mutual

theorem Stmt.text_form : ∀ s : Stmt, s.form.text = s.text
  | .expression value => by
    simp [Stmt.form, Stmt.text, Form.text, Form.tailText, value.text_form, ← String.append_assoc]
  | .print value => by
    simp [Stmt.form, Stmt.text, Form.text, Form.tailText, value.text_form, ← String.append_assoc]
  | .varDecl _ (some value) => by
    simp [Stmt.form, Stmt.text, Form.text, Form.tailText, value.text_form, ← String.append_assoc]
  | .varDecl _ none => by
    simp [Stmt.form, Stmt.text, Form.text, Form.tailText, ← String.append_assoc]
  | .block body => by
    simp [Stmt.form, Stmt.text, Form.text, Stmt.tailText_forms body]
  | .ifThen condition thenBranch => by
    simp [Stmt.form, Stmt.text, Form.text, Form.tailText, condition.text_form,
      thenBranch.text_form, ← String.append_assoc]
  | .ifElse condition thenBranch elseBranch => by
    simp [Stmt.form, Stmt.text, Form.text, Form.tailText, condition.text_form,
      thenBranch.text_form, elseBranch.text_form, ← String.append_assoc]
  | .whileDo condition body => by
    simp [Stmt.form, Stmt.text, Form.text, Form.tailText, condition.text_form, body.text_form,
      ← String.append_assoc]
  | .funDecl decl => decl.text_form "fun"
  | .ret _ (some value) => by
    simp [Stmt.form, Stmt.text, Form.text, Form.tailText, value.text_form, ← String.append_assoc]
  | .ret _ none => rfl
  | .classDecl _ (some _) methods => by
    simp [Stmt.form, Stmt.text, Form.text, Form.tailText, FunctionDecl.tailText_forms methods,
      ← String.append_assoc]
  | .classDecl _ none methods => by
    simp [Stmt.form, Stmt.text, Form.text, Form.tailText, FunctionDecl.tailText_forms methods,
      ← String.append_assoc]

theorem FunctionDecl.text_form (role : String) :
    ∀ m : FunctionDecl, (m.form role).text = m.text role
  | ⟨_, _, body⟩ => by
    simp [FunctionDecl.form, FunctionDecl.text, Form.text, Form.tailText,
      Stmt.tailText_forms body, ← String.append_assoc]

theorem Stmt.tailText_forms : ∀ ss : List Stmt, Form.tailText (Stmt.forms ss) = Stmt.tailText ss
  | [] => rfl
  | s :: rest => by
    rw [Stmt.forms, Form.tailText, Stmt.tailText, s.text_form, Stmt.tailText_forms rest]

theorem FunctionDecl.tailText_forms : ∀ ms : List FunctionDecl,
    Form.tailText (FunctionDecl.forms ms) = FunctionDecl.tailText ms
  | [] => rfl
  | m :: rest => by
    rw [FunctionDecl.forms, Form.tailText, FunctionDecl.tailText, m.text_form,
      FunctionDecl.tailText_forms rest]

end

end LoxLang
