import Mathlib.Data.List.Forall2
import Mathlib.Data.Option.Basic
import LoxLang.Proofs.Grammar.Reading
import LoxLang.Proofs.Renaming.Trees

/-!
# Tokens of renamed programs

The grammar does not look at names. If some names in a tree are spelled in another way, then the
tokens from which the tree was derived can be spelled in that way too, and derive the new tree.

1. `Stmt.AllRenames.respells`: a renamed program is the program with some names spelled anew.
2. `Grammar.Declarations.respell`: the tokens of such a program.
-/

namespace LoxLang

section

variable (x y : String)

/-- A token, and the same token or, if that is the name `x`, the name `y` in its place. -/
inductive Token.Respells : Token → Token → Prop
  | same (t : Token) : Token.Respells t t
  | renamed {t : Token} : t.lexeme = x → Token.Respells t { t with lexeme := y }

inductive Occurrence.Respells : Occurrence → Occurrence → Prop
  | mk (id : Nat) {t t' : Token} : t.Respells x y t' → Occurrence.Respells ⟨id, t⟩ ⟨id, t'⟩

mutual

inductive Expr.Respells : Expr → Expr → Prop
  | literal (value : Literal) : Expr.Respells (.literal value) (.literal value)
  | grouping {inner inner' : Expr} : Expr.Respells inner inner' →
      Expr.Respells (.grouping inner) (.grouping inner')
  | unary (operator : Token) {operand operand' : Expr} : Expr.Respells operand operand' →
      Expr.Respells (.unary operator operand) (.unary operator operand')
  | binary (operator : Token) {left left' right right' : Expr} : Expr.Respells left left' →
      Expr.Respells right right' →
      Expr.Respells (.binary left operator right) (.binary left' operator right')
  | logical (operator : Token) {left left' right right' : Expr} : Expr.Respells left left' →
      Expr.Respells right right' →
      Expr.Respells (.logical left operator right) (.logical left' operator right')
  | var {name name' : Occurrence} : name.Respells x y name' → Expr.Respells (.var name) (.var name')
  | assign {target target' : Occurrence} {value value' : Expr} : target.Respells x y target' →
      Expr.Respells value value' → Expr.Respells (.assign target value) (.assign target' value')
  | call (close : Token) {callee callee' : Expr} {arguments arguments' : List Expr} :
      Expr.Respells callee callee' → Expr.AllRespells arguments arguments' →
      Expr.Respells (.call callee close arguments) (.call callee' close arguments')
  | get (name : Token) {object object' : Expr} : Expr.Respells object object' →
      Expr.Respells (.get object name) (.get object' name)
  | set (name : Token) {object object' value value' : Expr} : Expr.Respells object object' →
      Expr.Respells value value' → Expr.Respells (.set object name value) (.set object' name value')
  | this (keyword : Occurrence) : Expr.Respells (.this keyword) (.this keyword)
  | super (keyword : Occurrence) (method : Token) :
      Expr.Respells (.super keyword method) (.super keyword method)

inductive Expr.AllRespells : List Expr → List Expr → Prop
  | nil : Expr.AllRespells [] []
  | cons {e e' : Expr} {rest rest' : List Expr} : Expr.Respells e e' →
      Expr.AllRespells rest rest' → Expr.AllRespells (e :: rest) (e' :: rest')

end

mutual

/-- A statement, and the statement with some names spelled anew. The names of functions and classes
are none of them. -/
inductive Stmt.Respells : Stmt → Stmt → Prop
  | expression {value value' : Expr} : value.Respells x y value' →
      Stmt.Respells (.expression value) (.expression value')
  | print {value value' : Expr} : value.Respells x y value' →
      Stmt.Respells (.print value) (.print value')
  | varDecl {name name' : Token} {initializer initializer' : Option Expr} :
      name.Respells x y name' → Option.Rel (Expr.Respells x y) initializer initializer' →
      Stmt.Respells (.varDecl name initializer) (.varDecl name' initializer')
  | block {body body' : List Stmt} : Stmt.AllRespells body body' →
      Stmt.Respells (.block body) (.block body')
  | ifThen {condition condition' : Expr} {thenBranch thenBranch' : Stmt} :
      condition.Respells x y condition' → Stmt.Respells thenBranch thenBranch' →
      Stmt.Respells (.ifThen condition thenBranch) (.ifThen condition' thenBranch')
  | ifElse {condition condition' : Expr} {thenBranch thenBranch' elseBranch elseBranch' : Stmt} :
      condition.Respells x y condition' → Stmt.Respells thenBranch thenBranch' →
      Stmt.Respells elseBranch elseBranch' →
      Stmt.Respells (.ifElse condition thenBranch elseBranch)
        (.ifElse condition' thenBranch' elseBranch')
  | whileDo {condition condition' : Expr} {body body' : Stmt} :
      condition.Respells x y condition' → Stmt.Respells body body' →
      Stmt.Respells (.whileDo condition body) (.whileDo condition' body')
  | funDecl {decl decl' : FunctionDecl} : FunctionDecl.Respells decl decl' →
      Stmt.Respells (.funDecl decl) (.funDecl decl')
  | ret (keyword : Token) {value value' : Option Expr} :
      Option.Rel (Expr.Respells x y) value value' →
      Stmt.Respells (.ret keyword value) (.ret keyword value')
  | classDecl (name : Token) {superclass superclass' : Option Occurrence}
      {methods methods' : List FunctionDecl} :
      Option.Rel (Occurrence.Respells x y) superclass superclass' →
      FunctionDecl.AllRespells methods methods' →
      Stmt.Respells (.classDecl name superclass methods) (.classDecl name superclass' methods')

inductive FunctionDecl.Respells : FunctionDecl → FunctionDecl → Prop
  | mk (name : Token) {params params' : List Token} {body body' : List Stmt} :
      List.Forall₂ (Token.Respells x y) params params' → Stmt.AllRespells body body' →
      FunctionDecl.Respells ⟨name, params, body⟩ ⟨name, params', body'⟩

inductive Stmt.AllRespells : List Stmt → List Stmt → Prop
  | nil : Stmt.AllRespells [] []
  | cons {s s' : Stmt} {rest rest' : List Stmt} : Stmt.Respells s s' →
      Stmt.AllRespells rest rest' → Stmt.AllRespells (s :: rest) (s' :: rest')

inductive FunctionDecl.AllRespells : List FunctionDecl → List FunctionDecl → Prop
  | nil : FunctionDecl.AllRespells [] []
  | cons {m m' : FunctionDecl} {rest rest' : List FunctionDecl} : FunctionDecl.Respells m m' →
      FunctionDecl.AllRespells rest rest' → FunctionDecl.AllRespells (m :: rest) (m' :: rest')

end

end

variable {x y : String}

instance optionRel_refl {α : Type} {R : α → α → Prop} [Std.Refl R] : Std.Refl (Option.Rel R) :=
  ⟨fun
    | none => .none
    | some a => .some (refl a)⟩

instance Token.respells_refl : Std.Refl (Token.Respells x y) :=
  ⟨.same⟩

instance Occurrence.respells_refl : Std.Refl (Occurrence.Respells x y) :=
  ⟨fun o => .mk o.id (.same o.token)⟩

theorem Token.Respells.kind_eq {t t' : Token} (h : t.Respells x y t') : t'.kind = t.kind := by
  cases h <;> rfl

/-! ## Renamed programs -/

theorem Token.respells_rename (t : Token) : t.Respells x y (t.rename x y) := by
  unfold Token.rename
  split
  · next h => exact .renamed h
  · exact .same t

theorem Token.respells_renameAt (k : Nat) (t : Token) : t.Respells x y (t.renameAt x y k) := by
  unfold Token.renameAt
  split
  · exact t.respells_rename
  · exact .same t

theorem Occurrence.respells_rename (distances : Distances) (k : Nat) (o : Occurrence) :
    o.Respells x y (o.rename distances x y k) := by
  unfold Occurrence.rename
  split
  · exact .mk o.id o.token.respells_rename
  · exact .mk o.id (.same o.token)

mutual

theorem Expr.respells_self : (e : Expr) → e.Respells x y e
  | .literal value => .literal value
  | .grouping inner => .grouping inner.respells_self
  | .unary operator operand => .unary operator operand.respells_self
  | .binary left operator right => .binary operator left.respells_self right.respells_self
  | .logical left operator right => .logical operator left.respells_self right.respells_self
  | .var name => .var (refl name)
  | .assign target value => .assign (refl target) value.respells_self
  | .call callee close arguments =>
    .call close callee.respells_self (Expr.allRespells_self arguments)
  | .get object name => .get name object.respells_self
  | .set object name value => .set name object.respells_self value.respells_self
  | .this keyword => .this keyword
  | .super keyword method => .super keyword method

theorem Expr.allRespells_self : (es : List Expr) → Expr.AllRespells x y es es
  | [] => .nil
  | e :: rest => .cons e.respells_self (Expr.allRespells_self rest)

end

instance Expr.respells_refl : Std.Refl (Expr.Respells x y) :=
  ⟨Expr.respells_self⟩

mutual

theorem Stmt.respells_self : (s : Stmt) → s.Respells x y s
  | .expression value => .expression value.respells_self
  | .print value => .print value.respells_self
  | .varDecl name initializer => .varDecl (.same name) (refl initializer)
  | .block body => .block (Stmt.allRespells_self body)
  | .ifThen condition thenBranch => .ifThen condition.respells_self thenBranch.respells_self
  | .ifElse condition thenBranch elseBranch =>
    .ifElse condition.respells_self thenBranch.respells_self elseBranch.respells_self
  | .whileDo condition body => .whileDo condition.respells_self body.respells_self
  | .funDecl decl => .funDecl decl.respells_self
  | .ret keyword value => .ret keyword (refl value)
  | .classDecl name superclass methods =>
    .classDecl name (refl superclass) (FunctionDecl.allRespells_self methods)

theorem FunctionDecl.respells_self : (decl : FunctionDecl) → decl.Respells x y decl
  | ⟨name, params, body⟩ => .mk name (List.forall₂_refl params) (Stmt.allRespells_self body)

theorem Stmt.allRespells_self : (body : List Stmt) → Stmt.AllRespells x y body body
  | [] => .nil
  | s :: rest => .cons s.respells_self (Stmt.allRespells_self rest)

theorem FunctionDecl.allRespells_self : (methods : List FunctionDecl) →
    FunctionDecl.AllRespells x y methods methods
  | [] => .nil
  | m :: rest => .cons m.respells_self (FunctionDecl.allRespells_self rest)

end

mutual

theorem Expr.respells_rename (distances : Distances) (k : Nat) :
    (e : Expr) → e.Respells x y (e.rename distances x y k)
  | .literal value => .literal value
  | .grouping inner => .grouping (inner.respells_rename distances k)
  | .unary operator operand => .unary operator (operand.respells_rename distances k)
  | .binary left operator right =>
    .binary operator (left.respells_rename distances k) (right.respells_rename distances k)
  | .logical left operator right =>
    .logical operator (left.respells_rename distances k) (right.respells_rename distances k)
  | .var name => .var (name.respells_rename distances k)
  | .assign target value =>
    .assign (target.respells_rename distances k) (value.respells_rename distances k)
  | .call callee close arguments =>
    .call close (callee.respells_rename distances k) (Expr.allRespells_rename distances k arguments)
  | .get object name => .get name (object.respells_rename distances k)
  | .set object name value =>
    .set name (object.respells_rename distances k) (value.respells_rename distances k)
  | .this keyword => .this keyword
  | .super keyword method => .super keyword method

theorem Expr.allRespells_rename (distances : Distances) (k : Nat) :
    (es : List Expr) → Expr.AllRespells x y es (Expr.renameAll distances x y k es)
  | [] => .nil
  | e :: rest => .cons (e.respells_rename distances k) (Expr.allRespells_rename distances k rest)

end

mutual

theorem Stmt.respells_rename (distances : Distances) (k : Nat) :
    (s : Stmt) → s.Respells x y (s.rename distances x y k)
  | .expression value => .expression (value.respells_rename distances k)
  | .print value => .print (value.respells_rename distances k)
  | .varDecl name none => .varDecl (name.respells_renameAt k) .none
  | .varDecl name (some value) =>
    .varDecl (name.respells_renameAt k) (.some (value.respells_rename distances k))
  | .block body => .block (Stmt.allRespells_rename distances (k + 1) body)
  | .ifThen condition thenBranch =>
    .ifThen (condition.respells_rename distances k) (thenBranch.respells_rename distances k)
  | .ifElse condition thenBranch elseBranch =>
    .ifElse (condition.respells_rename distances k) (thenBranch.respells_rename distances k)
      (elseBranch.respells_rename distances k)
  | .whileDo condition body =>
    .whileDo (condition.respells_rename distances k) (body.respells_rename distances k)
  | .funDecl decl => .funDecl (decl.respells_rename distances k)
  | .ret keyword none => .ret keyword .none
  | .ret keyword (some value) => .ret keyword (.some (value.respells_rename distances k))
  | .classDecl name none methods =>
    .classDecl name .none (FunctionDecl.allRespells_rename distances (k + 1) methods)
  | .classDecl name (some parent) methods =>
    .classDecl name (.some (parent.respells_rename distances k))
      (FunctionDecl.allRespells_rename distances (k + 2) methods)

theorem FunctionDecl.respells_rename (distances : Distances) (k : Nat) :
    (decl : FunctionDecl) → decl.Respells x y (decl.rename distances x y k)
  | ⟨name, params, body⟩ =>
    .mk name (List.forall₂_refl params) (Stmt.allRespells_rename distances (k + 1) body)

theorem Stmt.allRespells_rename (distances : Distances) (k : Nat) :
    (body : List Stmt) → Stmt.AllRespells x y body (Stmt.renameAll distances x y k body)
  | [] => .nil
  | s :: rest => .cons (s.respells_rename distances k) (Stmt.allRespells_rename distances k rest)

theorem FunctionDecl.allRespells_rename (distances : Distances) (k : Nat) :
    (methods : List FunctionDecl) →
      FunctionDecl.AllRespells x y methods (FunctionDecl.renameAll distances x y k methods)
  | [] => .nil
  | m :: rest =>
    .cons (m.respells_rename distances k) (FunctionDecl.allRespells_rename distances k rest)

end

mutual

theorem Stmt.Renames.respells {distances : Distances} {s s' : Stmt} :
    s.Renames distances x y s' → s.Respells x y s'
  | .here _ => .block (Stmt.allRespells_rename distances 0 _)
  | .block h => .block h.respells
  | .ifThen condition h => .ifThen condition.respells_self h.respells
  | .thenBranch condition elseBranch h =>
    .ifElse condition.respells_self h.respells elseBranch.respells_self
  | .elseBranch condition thenBranch h =>
    .ifElse condition.respells_self thenBranch.respells_self h.respells
  | .whileDo condition h => .whileDo condition.respells_self h.respells
  | .funDecl h => .funDecl h.respells
  | .classDecl name superclass h => .classDecl name (refl superclass) h.respells

theorem FunctionDecl.Renames.respells {distances : Distances} {decl decl' : FunctionDecl} :
    decl.Renames distances x y decl' → decl.Respells x y decl'
  | .here name _ =>
    .mk name (List.forall₂_map_right_iff.2 (List.forall₂_same.2 fun p _ => p.respells_rename))
      (Stmt.allRespells_rename distances 0 _)
  | .body name params h => .mk name (List.forall₂_refl params) h.respells

theorem Stmt.AllRenames.respells {distances : Distances} {body body' : List Stmt} :
    Stmt.AllRenames distances x y body body' → Stmt.AllRespells x y body body'
  | .head rest h => .cons h.respells (Stmt.allRespells_self rest)
  | .tail s h => .cons s.respells_self h.respells

theorem FunctionDecl.AllRenames.respells {distances : Distances}
    {methods methods' : List FunctionDecl} :
    FunctionDecl.AllRenames distances x y methods methods' →
      FunctionDecl.AllRespells x y methods methods'
  | .head rest h => .cons h.respells (FunctionDecl.allRespells_self rest)
  | .tail m h => .cons m.respells_self h.respells

end

/-! ## Trees that are put together -/

theorem Level.respells_build {level : Level} (h : level ∈ Level.all) {left right : Expr}
    {operator : Token} {e' : Expr} (he : (level.build left operator right).Respells x y e') :
    ∃ left' right', e' = level.build left' operator right' ∧ left.Respells x y left' ∧
      right.Respells x y right' := by
  simp only [all, List.mem_cons, List.not_mem_nil, or_false] at h
  rcases h with rfl | rfl | rfl | rfl | rfl | rfl <;> cases he <;> exact ⟨_, _, rfl, ‹_›, ‹_›⟩

theorem Stmt.respells_pair {first second s' : Stmt} :
    (Stmt.block [first, second]).Respells x y s' →
      ∃ first' second', s' = .block [first', second'] ∧ first.Respells x y first' ∧
        second.Respells x y second'
  | .block (.cons hfirst (.cons hsecond .nil)) => ⟨_, _, rfl, hfirst, hsecond⟩

/-- A missing condition stays missing. -/
theorem Stmt.respells_loop {condition : Option Expr} {body s' : Stmt}
    (h : (Stmt.whileDo (condition.getD (.literal (.boolean true))) body).Respells x y s') :
    ∃ condition' body', s' = .whileDo (condition'.getD (.literal (.boolean true))) body' ∧
      Option.Rel (Expr.Respells x y) condition condition' ∧ body.Respells x y body' := by
  cases condition with
  | none =>
    cases h with
    | whileDo hcondition hbody =>
      cases hcondition
      exact ⟨none, _, rfl, .none, hbody⟩
  | some condition =>
    cases h with
    | whileDo hcondition hbody => exact ⟨some _, _, rfl, .some hcondition, hbody⟩

theorem Stmt.respells_clauses {condition increment : Option Expr} {body s' : Stmt}
    (h : (Stmt.forLoop none condition increment body).Respells x y s') :
    ∃ condition' increment' body', s' = Stmt.forLoop none condition' increment' body' ∧
      Option.Rel (Expr.Respells x y) condition condition' ∧
      Option.Rel (Expr.Respells x y) increment increment' ∧ body.Respells x y body' := by
  obtain ⟨condition', body', rfl, hcondition, hbody⟩ := respells_loop h
  cases increment with
  | none => exact ⟨condition', none, body', rfl, hcondition, .none, hbody⟩
  | some increment =>
    obtain ⟨first, last, rfl, hfirst, hlast⟩ := respells_pair hbody
    cases hlast with
    | expression hincrement =>
      exact ⟨condition', some _, first, rfl, hcondition, .some hincrement, hfirst⟩

theorem Stmt.respells_forLoop {initializer : Option Stmt} {condition increment : Option Expr}
    {body s' : Stmt} (h : (Stmt.forLoop initializer condition increment body).Respells x y s') :
    ∃ initializer' condition' increment' body',
      s' = Stmt.forLoop initializer' condition' increment' body' ∧
      Option.Rel (Stmt.Respells x y) initializer initializer' ∧
      Option.Rel (Expr.Respells x y) condition condition' ∧
      Option.Rel (Expr.Respells x y) increment increment' ∧ body.Respells x y body' := by
  cases initializer with
  | none =>
    obtain ⟨condition', increment', body', rfl, hclauses⟩ := respells_clauses h
    exact ⟨none, condition', increment', body', rfl, .none, hclauses⟩
  | some initializer =>
    obtain ⟨initializer', loop, rfl, hinitializer, hloop⟩ := respells_pair h
    obtain ⟨condition', increment', body', rfl, hclauses⟩ := respells_clauses hloop
    exact ⟨some initializer', condition', increment', body', rfl, .some hinitializer, hclauses⟩

theorem Expr.AllRespells.length_eq {es es' : List Expr} (h : Expr.AllRespells x y es es') :
    es'.length = es.length := by
  induction es generalizing es' with
  | nil =>
    cases h
    rfl
  | cons e es ih =>
    match h with
    | .cons _ hrest => exact congrArg (· + 1) (ih hrest)

namespace Grammar

/-! ## Expressions -/

mutual

theorem Expression.respell {n n' : Nat} {ts : List Token} {e e' : Expr} :
    Expression n ts e n' → e.Respells x y e' →
      ∃ ts', List.Forall₂ (Token.Respells x y) ts ts' ∧ Expression n ts' e' n'
  | .assign hname hequals h, .assign (.mk _ ht) he => by
    obtain ⟨us, hus, hvalue⟩ := h.respell he
    exact ⟨_, .cons ht (.cons (.same _) hus), .assign (ht.kind_eq.trans hname) hequals hvalue⟩
  | .set hobject hdot hname hequals hvalue, .set _ ho hv => by
    obtain ⟨us, hus, hobject'⟩ := hobject.respell ho
    obtain ⟨vs, hvs, hvalue'⟩ := hvalue.respell hv
    exact ⟨_, List.rel_append hus (.cons (.same _) (.cons (.same _) (.cons (.same _) hvs))),
      .set hobject' hdot hname hequals hvalue'⟩
  | .operators h, he => by
    obtain ⟨us, hus, h'⟩ := h.respell (fun _ hm => hm) he
    exact ⟨us, hus, .operators h'⟩

theorem Operators.respell {levels : List Level} {n n' : Nat} {ts : List Token} {e e' : Expr} :
    Operators levels n ts e n' → (∀ level ∈ levels, level ∈ Level.all) → e.Respells x y e' →
      ∃ ts', List.Forall₂ (Token.Respells x y) ts ts' ∧ Operators levels n ts' e' n'
  | .operand h, _, he => by
    obtain ⟨us, hus, h'⟩ := h.respell he
    exact ⟨us, hus, .operand h'⟩
  | .tighter h, hl, he => by
    obtain ⟨us, hus, h'⟩ := h.respell (fun l hm => hl l (List.mem_cons_of_mem _ hm)) he
    exact ⟨us, hus, .tighter h'⟩
  | .operator hleft hoperator hright, hl, he => by
    obtain ⟨left', right', rfl, hel, her⟩ := Level.respells_build (hl _ List.mem_cons_self) he
    obtain ⟨us, hus, hleft'⟩ := hleft.respell hl hel
    obtain ⟨vs, hvs, hright'⟩ := hright.respell (fun l hm => hl l (List.mem_cons_of_mem _ hm)) her
    exact ⟨_, List.rel_append hus (.cons (.same _) hvs), .operator hleft' hoperator hright'⟩

theorem Unary.respell {n n' : Nat} {ts : List Token} {e e' : Expr} :
    Unary n ts e n' → e.Respells x y e' →
      ∃ ts', List.Forall₂ (Token.Respells x y) ts ts' ∧ Unary n ts' e' n'
  | .operator hoperator h, .unary _ he => by
    obtain ⟨us, hus, h'⟩ := h.respell he
    exact ⟨_, .cons (.same _) hus, .operator hoperator h'⟩
  | .call h, he => by
    obtain ⟨us, hus, h'⟩ := h.respell he
    exact ⟨us, hus, .call h'⟩

theorem Call.respell {n n' : Nat} {ts : List Token} {e e' : Expr} :
    Call n ts e n' → e.Respells x y e' →
      ∃ ts', List.Forall₂ (Token.Respells x y) ts ts' ∧ Call n ts' e' n'
  | .primary h, he => by
    obtain ⟨us, hus, h'⟩ := h.respell he
    exact ⟨us, hus, .primary h'⟩
  | .call h hopening harguments hle hclose, .call _ he hes => by
    obtain ⟨us, hus, h'⟩ := h.respell he
    obtain ⟨vs, hvs, harguments'⟩ := harguments.respell hes
    exact ⟨_, List.rel_append hus (.cons (.same _) (List.rel_append hvs (.cons (.same _) .nil))),
      .call h' hopening harguments' (by rwa [hes.length_eq]) hclose⟩
  | .get h hdot hname, .get _ he => by
    obtain ⟨us, hus, h'⟩ := h.respell he
    exact ⟨_, List.rel_append hus (List.forall₂_refl _), .get h' hdot hname⟩

theorem Arguments.respell {n n' : Nat} {ts : List Token} {es es' : List Expr} :
    Arguments n ts es n' → Expr.AllRespells x y es es' →
      ∃ ts', List.Forall₂ (Token.Respells x y) ts ts' ∧ Arguments n ts' es' n'
  | .none, .nil => ⟨[], .nil, .none⟩
  | .some h, hes => by
    obtain ⟨us, hus, h'⟩ := h.respell hes
    exact ⟨us, hus, .some h'⟩

theorem Listed.respell {n n' : Nat} {ts : List Token} {es es' : List Expr} :
    Listed n ts es n' → Expr.AllRespells x y es es' →
      ∃ ts', List.Forall₂ (Token.Respells x y) ts ts' ∧ Listed n ts' es' n'
  | .one h, .cons he .nil => by
    obtain ⟨us, hus, h'⟩ := h.respell he
    exact ⟨us, hus, .one h'⟩
  | .more h hcomma hrest, .cons he hes => by
    obtain ⟨us, hus, h'⟩ := h.respell he
    obtain ⟨vs, hvs, hrest'⟩ := hrest.respell hes
    exact ⟨_, List.rel_append hus (.cons (.same _) hvs), .more h' hcomma hrest'⟩

theorem Primary.respell {n n' : Nat} {ts : List Token} {e e' : Expr} :
    Primary n ts e n' → e.Respells x y e' →
      ∃ ts', List.Forall₂ (Token.Respells x y) ts ts' ∧ Primary n ts' e' n'
  | .literal hk, .literal _ => ⟨_, List.forall₂_refl _, .literal hk⟩
  | .this hk, .this _ => ⟨_, List.forall₂_refl _, .this hk⟩
  | .var hk, .var (.mk _ ht) => ⟨_, .cons ht .nil, .var (ht.kind_eq.trans hk)⟩
  | .super hk hdot hmethod, .super _ _ => ⟨_, List.forall₂_refl _, .super hk hdot hmethod⟩
  | .grouping hopening h hclose, .grouping he => by
    obtain ⟨us, hus, h'⟩ := h.respell he
    exact ⟨_, .cons (.same _) (List.rel_append hus (.cons (.same _) .nil)),
      .grouping hopening h' hclose⟩

end

/-! ## Statements and declarations -/

variable {n n' : Nat} {ts : List Token}

theorem Clause.respell {o o' : Option Expr} (h : Clause n ts o n')
    (ho : Option.Rel (Expr.Respells x y) o o') :
    ∃ ts', List.Forall₂ (Token.Respells x y) ts ts' ∧ Clause n ts' o' n' := by
  cases h with
  | none =>
    cases ho
    exact ⟨[], .nil, .none⟩
  | some h =>
    cases ho with
    | some he =>
      obtain ⟨us, hus, h'⟩ := h.respell he
      exact ⟨us, hus, .some h'⟩

theorem Variable.respell {s s' : Stmt} (h : Variable n ts s n') (hs : s.Respells x y s') :
    ∃ ts', List.Forall₂ (Token.Respells x y) ts ts' ∧ Variable n ts' s' n' := by
  cases hs with
  | varDecl ht ho =>
    cases h with
    | bare hname hsemicolon =>
      cases ho
      exact ⟨_, .cons ht (List.forall₂_refl _), .bare (ht.kind_eq.trans hname) hsemicolon⟩
    | initialized hname hequals h hsemicolon =>
      cases ho with
      | some he =>
        obtain ⟨us, hus, h'⟩ := h.respell he
        exact ⟨_, .cons ht (.cons (.same _) (List.rel_append hus (.cons (.same _) .nil))),
          .initialized (ht.kind_eq.trans hname) hequals h' hsemicolon⟩
  | _ => exact nomatch h

theorem Initializer.respell {o o' : Option Stmt} (h : Initializer n ts o n')
    (ho : Option.Rel (Stmt.Respells x y) o o') :
    ∃ ts', List.Forall₂ (Token.Respells x y) ts ts' ∧ Initializer n ts' o' n' := by
  cases h with
  | none hsemicolon =>
    cases ho
    exact ⟨_, List.forall₂_refl _, .none hsemicolon⟩
  | declaration hword h =>
    cases ho with
    | some hs =>
      obtain ⟨us, hus, h'⟩ := h.respell hs
      exact ⟨_, .cons (.same _) hus, .declaration hword h'⟩
  | expression h hsemicolon =>
    cases ho with
    | some hs =>
      cases hs with
      | expression he =>
        obtain ⟨us, hus, h'⟩ := h.respell he
        exact ⟨_, List.rel_append hus (.cons (.same _) .nil), .expression h' hsemicolon⟩

theorem Names.respell {names names' : List Token} (h : Names ts names)
    (hn : List.Forall₂ (Token.Respells x y) names names') :
    ∃ ts', List.Forall₂ (Token.Respells x y) ts ts' ∧ Names ts' names' := by
  induction h generalizing names' with
  | one hname =>
    match hn with
    | .cons ht .nil => exact ⟨_, .cons ht .nil, .one (ht.kind_eq.trans hname)⟩
  | more hname hcomma _ ih =>
    match hn with
    | .cons ht hn =>
      obtain ⟨us, hus, h'⟩ := ih hn
      exact ⟨_, .cons ht (.cons (.same _) hus), .more (ht.kind_eq.trans hname) hcomma h'⟩

theorem Parameters.respell {names names' : List Token} (h : Parameters ts names)
    (hn : List.Forall₂ (Token.Respells x y) names names') :
    ∃ ts', List.Forall₂ (Token.Respells x y) ts ts' ∧ Parameters ts' names' := by
  cases h with
  | none =>
    cases hn
    exact ⟨[], .nil, .none⟩
  | some h hle =>
    obtain ⟨us, hus, h'⟩ := h.respell hn
    exact ⟨us, hus, .some h' (by rwa [← hn.length_eq])⟩

theorem Superclass.respell {o o' : Option Occurrence} (h : Superclass n ts o n')
    (ho : Option.Rel (Occurrence.Respells x y) o o') :
    ∃ ts', List.Forall₂ (Token.Respells x y) ts ts' ∧ Superclass n ts' o' n' := by
  cases h with
  | none =>
    cases ho
    exact ⟨[], .nil, .none⟩
  | some hless hname =>
    cases ho with
    | some ho =>
      cases ho with
      | mk _ ht =>
        exact ⟨_, .cons (.same _) (.cons ht .nil), .some hless (ht.kind_eq.trans hname)⟩

mutual

theorem Statement.respell {b : Bool} {n n' : Nat} {ts : List Token} {s s' : Stmt} :
    Statement b n ts s n' → s.Respells x y s' →
      ∃ ts', List.Forall₂ (Token.Respells x y) ts ts' ∧ Statement b n ts' s' n'
  | .expression h hsemicolon, .expression he => by
    obtain ⟨us, hus, h'⟩ := h.respell he
    exact ⟨_, List.rel_append hus (.cons (.same _) .nil), .expression h' hsemicolon⟩
  | .print hword h hsemicolon, .print he => by
    obtain ⟨us, hus, h'⟩ := h.respell he
    exact ⟨_, .cons (.same _) (List.rel_append hus (.cons (.same _) .nil)),
      .print hword h' hsemicolon⟩
  | .ret hword h hsemicolon, .ret _ he => by
    obtain ⟨us, hus, h'⟩ := h.respell he
    exact ⟨_, .cons (.same _) (List.rel_append hus (.cons (.same _) .nil)),
      .ret hword h' hsemicolon⟩
  | .block h, .block hbody => by
    obtain ⟨us, hus, h'⟩ := h.respell hbody
    exact ⟨us, hus, .block h'⟩
  | .whileDo hword hopening h hclose hbody, .whileDo he hs => by
    obtain ⟨us, hus, h'⟩ := h.respell he
    obtain ⟨vs, hvs, hbody'⟩ := hbody.respell hs
    exact ⟨_, .cons (.same _) (.cons (.same _) (List.rel_append hus (.cons (.same _) hvs))),
      .whileDo hword hopening h' hclose hbody'⟩
  | .forLoop hword hopening hinit hcondition hsemicolon hincrement hclose hbody hloop, hs => by
    obtain rfl := desugars_iff.1 hloop
    obtain ⟨_, _, _, _, rfl, hi, hc, hu, hb⟩ := Stmt.respells_forLoop hs
    obtain ⟨ts', hts, hinit'⟩ := hinit.respell hi
    obtain ⟨us, hus, hcondition'⟩ := hcondition.respell hc
    obtain ⟨vs, hvs, hincrement'⟩ := hincrement.respell hu
    obtain ⟨ws, hws, hbody'⟩ := hbody.respell hb
    exact ⟨_, .cons (.same _) (.cons (.same _) (List.rel_append hts (List.rel_append hus
        (.cons (.same _) (List.rel_append hvs (.cons (.same _) hws)))))),
      .forLoop hword hopening hinit' hcondition' hsemicolon hincrement' hclose hbody'
        (desugars_forLoop _ _ _ _)⟩
  | .ifThen hword hopening h hclose hthen, .ifThen he hs => by
    obtain ⟨us, hus, h'⟩ := h.respell he
    obtain ⟨vs, hvs, hthen'⟩ := hthen.respell hs
    exact ⟨_, .cons (.same _) (.cons (.same _) (List.rel_append hus (.cons (.same _) hvs))),
      .ifThen hword hopening h' hclose hthen'⟩
  | .ifElse hword hopening h hclose hthen hother helse, .ifElse he ht hs => by
    obtain ⟨us, hus, h'⟩ := h.respell he
    obtain ⟨vs, hvs, hthen'⟩ := hthen.respell ht
    obtain ⟨ws, hws, helse'⟩ := helse.respell hs
    exact ⟨_, .cons (.same _) (.cons (.same _) (List.rel_append hus (.cons (.same _)
        (List.rel_append hvs (.cons (.same _) hws))))),
      .ifElse hword hopening h' hclose hthen' hother helse'⟩

theorem Declaration.respell {n n' : Nat} {ts : List Token} {s s' : Stmt} :
    Declaration n ts s n' → s.Respells x y s' →
      ∃ ts', List.Forall₂ (Token.Respells x y) ts ts' ∧ Declaration n ts' s' n'
  | .classDecl hword hname hparent hopening hmethods hclose, .classDecl _ ho hms => by
    obtain ⟨us, hus, hparent'⟩ := hparent.respell ho
    obtain ⟨vs, hvs, hmethods'⟩ := hmethods.respell hms
    exact ⟨_, .cons (.same _) (.cons (.same _) (List.rel_append hus (.cons (.same _)
        (List.rel_append hvs (.cons (.same _) .nil))))),
      .classDecl hword hname hparent' hopening hmethods' hclose⟩
  | .funDecl hword h, .funDecl hd => by
    obtain ⟨us, hus, h'⟩ := h.respell hd
    exact ⟨_, .cons (.same _) hus, .funDecl hword h'⟩
  | .varDecl hword h, hs => by
    obtain ⟨us, hus, h'⟩ := h.respell hs
    exact ⟨_, .cons (.same _) hus, .varDecl hword h'⟩
  | .statement h, hs => by
    obtain ⟨us, hus, h'⟩ := h.respell hs
    exact ⟨us, hus, .statement h'⟩

theorem Declarations.respell {n n' : Nat} {ts : List Token} {body body' : List Stmt} :
    Declarations n ts body n' → Stmt.AllRespells x y body body' →
      ∃ ts', List.Forall₂ (Token.Respells x y) ts ts' ∧ Declarations n ts' body' n'
  | .nil, .nil => ⟨[], .nil, .nil⟩
  | .cons h hrest, .cons hs hbody => by
    obtain ⟨us, hus, h'⟩ := h.respell hs
    obtain ⟨vs, hvs, hrest'⟩ := hrest.respell hbody
    exact ⟨_, List.rel_append hus hvs, .cons h' hrest'⟩

theorem Block.respell {n n' : Nat} {ts : List Token} {body body' : List Stmt} :
    Block n ts body n' → Stmt.AllRespells x y body body' →
      ∃ ts', List.Forall₂ (Token.Respells x y) ts ts' ∧ Block n ts' body' n'
  | .braces hopening h hclose, hbody => by
    obtain ⟨us, hus, h'⟩ := h.respell hbody
    exact ⟨_, .cons (.same _) (List.rel_append hus (.cons (.same _) .nil)),
      .braces hopening h' hclose⟩

theorem Function.respell {n n' : Nat} {ts : List Token} {decl decl' : FunctionDecl} :
    Function n ts decl n' → decl.Respells x y decl' →
      ∃ ts', List.Forall₂ (Token.Respells x y) ts ts' ∧ Function n ts' decl' n'
  | .named hname hopening hparams hclose hbody, .mk _ hps hb => by
    obtain ⟨us, hus, hparams'⟩ := hparams.respell hps
    obtain ⟨vs, hvs, hbody'⟩ := hbody.respell hb
    exact ⟨_, .cons (.same _) (.cons (.same _) (List.rel_append hus (.cons (.same _) hvs))),
      .named hname hopening hparams' hclose hbody'⟩

theorem Methods.respell {n n' : Nat} {ts : List Token} {methods methods' : List FunctionDecl} :
    Methods n ts methods n' → FunctionDecl.AllRespells x y methods methods' →
      ∃ ts', List.Forall₂ (Token.Respells x y) ts ts' ∧ Methods n ts' methods' n'
  | .nil, .nil => ⟨[], .nil, .nil⟩
  | .cons h hrest, .cons hm hms => by
    obtain ⟨us, hus, h'⟩ := h.respell hm
    obtain ⟨vs, hvs, hrest'⟩ := hrest.respell hms
    exact ⟨_, List.rel_append hus hvs, .cons h' hrest'⟩

end

end Grammar

end LoxLang
