import LoxLang.Proofs.Scoping.Walk
import LoxLang.Proofs.Splitting.Rules

/-!
# Resolutions of moved text

The resolution of a text that was moved goes through the same scopes as that of the text itself, and
finds the same faults, and the same distances for the moved mentions. What was found out before does
not matter to it.

1. `resolve_moveAll`: a text and the text moved.
2. `resolve_append`: two texts one after the other.
-/

namespace LoxLang

def ScopingError.move (d : Move) (e : ScopingError) : ScopingError :=
  { e with site := e.site.move d }

namespace Resolution

/-- Two resolutions at the same place of a text and of the text moved. What the second has found out
about the moved text is the same, and comes after what was found out before. -/
structure Alongside (d : Move) (before r r' : Resolution) : Prop where
  scopes : r'.scopes = r.scopes
  inFunction : r'.inFunction = r.inFunction
  inClass : r'.inClass = r.inClass
  errors : r'.errors = before.errors ++ r.errors.map (ScopingError.move d)
  distances : ∀ id, r'.distances[id + d.ids]? =
    r.distances[id]?.or before.distances[id + d.ids]?

namespace Alongside

variable {d : Move} {before r r' : Resolution}

theorem report (h : Alongside d before r r') (t : Token) (fault : ScopingFault) :
    Alongside d before (r.report t fault) (r'.report (t.move d) fault) :=
  { h with errors := by simp [Resolution.report, h.errors, ScopingError.move, Site.ofToken_move] }

theorem enter (h : Alongside d before r r') : Alongside d before r.enter r'.enter :=
  { h with scopes := congrArg (List.cons []) h.scopes }

theorem leave (h : Alongside d before r r') : Alongside d before r.leave r'.leave :=
  { h with scopes := congrArg List.tail h.scopes }

theorem put (h : Alongside d before r r') (name : String) (status : Status) :
    Alongside d before (r.put name status) (r'.put name status) := by
  unfold Resolution.put
  rw [h.scopes]
  split
  · exact h
  · exact { h with scopes := rfl }

theorem declare (h : Alongside d before r r') (t : Token) :
    Alongside d before (r.declare t) (r'.declare (t.move d)) := by
  unfold Resolution.declare
  rw [h.scopes, Token.lexeme_move]
  cases r.scopes with
  | nil => exact h
  | cons scope outer =>
    by_cases hhas : Bindings.has scope t.lexeme
    · simpa only [hhas, if_true] using h.report t .alreadyDeclared
    · simpa only [hhas, if_false, Bool.false_eq_true] using h.put t.lexeme .declared

theorem define (h : Alongside d before r r') (t : Token) :
    Alongside d before (r.define t) (r'.define (t.move d)) :=
  h.put _ _

theorem introduce (h : Alongside d before r r') (t : Token) :
    Alongside d before (r.introduce t) (r'.introduce (t.move d)) :=
  (h.declare t).define t

theorem introduceAll (h : Alongside d before r r') (params : List Token) :
    Alongside d before (params.foldl Resolution.introduce r)
      ((params.map (Token.move d)).foldl Resolution.introduce r') := by
  induction params generalizing r r' with
  | nil => exact h
  | cons p params ih => exact ih (h.introduce p)

theorem refer (h : Alongside d before r r') (o : Occurrence) :
    Alongside d before (r.refer o) (r'.refer (o.move d)) := by
  unfold Resolution.refer
  rw [h.scopes, Occurrence.name_move]
  split
  · next distance _ =>
    refine ⟨rfl, h.inFunction, h.inClass, h.errors, fun id => ?_⟩
    simp only [Occurrence.move, Std.TreeMap.getElem?_insert, h.distances]
    by_cases hid : o.id = id <;> simp [hid]
  · exact h

theorem read (h : Alongside d before r r') (o : Occurrence) :
    Alongside d before (r.read o) (r'.read (o.move d)) := by
  have hinitializing : r'.initializing (o.move d).name = r.initializing o.name := by
    unfold Resolution.initializing
    rw [h.scopes]
    rfl
  unfold Resolution.read
  rw [hinitializing]
  split
  · exact (h.report o.token _).refer o
  · exact h.refer o

theorem this (h : Alongside d before r r') (o : Occurrence) :
    Alongside d before (r.this o) (r'.this (o.move d)) := by
  unfold Resolution.this
  rw [h.inClass]
  split
  · exact h.report _ _
  · exact h.refer o

theorem super (h : Alongside d before r r') (o : Occurrence) :
    Alongside d before (r.super o) (r'.super (o.move d)) := by
  unfold Resolution.super
  rw [h.inClass]
  split
  · exact (h.report o.token _).refer o
  · exact (h.report o.token _).refer o
  · exact h.refer o

theorem leaveFunction (h : Alongside d before r r') (keyword : Token) (hasValue : Bool) :
    Alongside d before (r.leaveFunction keyword hasValue)
      (r'.leaveFunction (keyword.move d) hasValue) := by
  unfold Resolution.leaveFunction
  rw [h.inFunction]
  split
  · exact h.report _ _
  · exact h.report _ _
  · exact h

theorem inside (h : Alongside d before r r') (c : ClassContext) :
    Alongside d before { r with inClass := c } { r' with inClass := c } :=
  { h with inClass := rfl }

theorem within (h : Alongside d before r r') (c : FunctionContext) :
    Alongside d before { r with inFunction := c } { r' with inFunction := c } :=
  { h with inFunction := rfl }

theorem inherit (h : Alongside d before r r') (name : Token) (parent : Occurrence) :
    Alongside d before (r.inherit name parent) (r'.inherit (name.move d) (parent.move d)) := by
  unfold Resolution.inherit
  refine read (inside ?_ _) parent
  rw [Occurrence.name_move, Token.lexeme_move]
  by_cases hself : parent.name = name.lexeme
  · simp only [hself, if_true]
    exact h.report parent.token .inheritsFromItself
  · simpa only [hself, if_false] using h

end Alongside

end Resolution

open Resolution

variable {d : Move} {before : Resolution}

mutual

theorem Expr.resolve_move : (e : Expr) → {r r' : Resolution} → Alongside d before r r' →
    Alongside d before (e.resolve r) ((e.move d).resolve r')
  | .literal _, _, _, h => h
  | .grouping inner, _, _, h => inner.resolve_move h
  | .unary _ operand, _, _, h => operand.resolve_move h
  | .binary left _ right, _, _, h => right.resolve_move (left.resolve_move h)
  | .logical left _ right, _, _, h => right.resolve_move (left.resolve_move h)
  | .var name, _, _, h => h.read name
  | .assign target value, _, _, h => (value.resolve_move h).refer target
  | .call callee _ arguments, _, _, h => Expr.resolveAll_move arguments (callee.resolve_move h)
  | .get object _, _, _, h => object.resolve_move h
  | .set object _ value, _, _, h => object.resolve_move (value.resolve_move h)
  | .this keyword, _, _, h => h.this keyword
  | .super keyword _, _, _, h => h.super keyword

theorem Expr.resolveAll_move : (es : List Expr) → {r r' : Resolution} → Alongside d before r r' →
    Alongside d before (Expr.resolveAll es r) (Expr.resolveAll (Expr.moveAll d es) r')
  | [], _, _, h => h
  | e :: rest, _, _, h => Expr.resolveAll_move rest (e.resolve_move h)

end

mutual

theorem Stmt.resolve_move : (s : Stmt) → {r r' : Resolution} → Alongside d before r r' →
    Alongside d before (s.resolve r) ((s.move d).resolve r')
  | .expression value, _, _, h => value.resolve_move h
  | .print value, _, _, h => value.resolve_move h
  | .varDecl name (some value), _, _, h => (value.resolve_move (h.declare name)).define name
  | .varDecl name none, _, _, h => h.introduce name
  | .block body, _, _, h => (Stmt.resolveAll_move body h.enter).leave
  | .ifThen condition thenBranch, _, _, h => thenBranch.resolve_move (condition.resolve_move h)
  | .ifElse condition thenBranch elseBranch, _, _, h =>
    elseBranch.resolve_move (thenBranch.resolve_move (condition.resolve_move h))
  | .whileDo condition body, _, _, h => body.resolve_move (condition.resolve_move h)
  | .funDecl decl, _, _, h => by
    have hname : (decl.move d).name = decl.name.move d := by
      cases decl
      rfl
    simp only [Stmt.move, Stmt.resolve, hname]
    exact decl.resolve_move .function (h.introduce decl.name)
  | .ret keyword (some value), _, _, h => value.resolve_move (h.leaveFunction keyword true)
  | .ret keyword none, _, _, h => h.leaveFunction keyword false
  | .classDecl name (some parent) methods, r, r', h => by
    have hin := ((((h.inside .plain).introduce name).inherit name parent).enter.put
      "super" .defined).enter.put "this" .defined
    have hout := ((FunctionDecl.resolveAll_move methods hin).leave.leave).inside r.inClass
    simpa only [Stmt.move, Stmt.resolve, Option.map_some, h.inClass] using hout
  | .classDecl name none methods, r, r', h => by
    have hin := ((h.inside .plain).introduce name).enter.put "this" .defined
    have hout := (FunctionDecl.resolveAll_move methods hin).leave.inside r.inClass
    simpa only [Stmt.move, Stmt.resolve, Option.map_none, h.inClass] using hout

theorem FunctionDecl.resolve_move (context : FunctionContext) : (decl : FunctionDecl) →
    {r r' : Resolution} → Alongside d before r r' →
    Alongside d before (decl.resolve context r) ((decl.move d).resolve context r')
  | ⟨_, params, body⟩, r, r', h => by
    have hin := (h.within context).enter.introduceAll params
    have hout := (Stmt.resolveAll_move body hin).leave.within r.inFunction
    simpa only [FunctionDecl.move, FunctionDecl.resolve, h.inFunction] using hout

theorem Stmt.resolveAll_move : (body : List Stmt) → {r r' : Resolution} →
    Alongside d before r r' →
    Alongside d before (Stmt.resolveAll body r) (Stmt.resolveAll (Stmt.moveAll d body) r')
  | [], _, _, h => h
  | s :: rest, _, _, h => Stmt.resolveAll_move rest (s.resolve_move h)

theorem FunctionDecl.resolveAll_move : (methods : List FunctionDecl) → {r r' : Resolution} →
    Alongside d before r r' →
    Alongside d before (FunctionDecl.resolveAll methods r)
      (FunctionDecl.resolveAll (FunctionDecl.moveAll d methods) r')
  | [], _, _, h => h
  | m :: rest, _, _, h => by
    simp only [FunctionDecl.moveAll, FunctionDecl.resolveAll, FunctionDecl.isInitializer_move]
    exact FunctionDecl.resolveAll_move rest (m.resolve_move _ h)

end

/-! ## After a program -/

namespace Resolution

/-- The function and class bodies around a place. -/
def bodies (r : Resolution) : FunctionContext × ClassContext :=
  (r.inFunction, r.inClass)

theorem bodies_put (r : Resolution) (name : String) (status : Status) :
    (r.put name status).bodies = r.bodies := by
  unfold put
  split <;> rfl

theorem bodies_declare (r : Resolution) (t : Token) : (r.declare t).bodies = r.bodies := by
  unfold declare
  split
  · rfl
  · split
    · rfl
    · exact bodies_put r _ _

theorem bodies_introduce (r : Resolution) (t : Token) : (r.introduce t).bodies = r.bodies :=
  (bodies_put _ _ _).trans (bodies_declare r t)

theorem bodies_introduceAll (params : List Token) (r : Resolution) :
    (params.foldl introduce r).bodies = r.bodies := by
  induction params generalizing r with
  | nil => rfl
  | cons p params ih => exact (ih _).trans (bodies_introduce r p)

theorem bodies_refer (r : Resolution) (o : Occurrence) : (r.refer o).bodies = r.bodies := by
  unfold refer
  split <;> rfl

theorem bodies_read (r : Resolution) (o : Occurrence) : (r.read o).bodies = r.bodies := by
  unfold read
  split
  · exact bodies_refer _ o
  · exact bodies_refer r o

theorem bodies_this (r : Resolution) (o : Occurrence) : (r.this o).bodies = r.bodies := by
  unfold this
  split
  · rfl
  · exact bodies_refer r o

theorem bodies_super (r : Resolution) (o : Occurrence) : (r.super o).bodies = r.bodies := by
  unfold super
  split
  · exact bodies_refer _ o
  · exact bodies_refer _ o
  · exact bodies_refer r o

theorem bodies_leaveFunction (r : Resolution) (keyword : Token) (hasValue : Bool) :
    (r.leaveFunction keyword hasValue).bodies = r.bodies := by
  unfold leaveFunction
  split <;> rfl

theorem inFunction_inherit (r : Resolution) (name : Token) (parent : Occurrence) :
    (r.inherit name parent).inFunction = r.inFunction := by
  unfold inherit
  refine (congrArg Prod.fst (bodies_read _ parent)).trans ?_
  split <;> rfl

end Resolution

mutual

theorem Expr.bodies_resolve : (e : Expr) → (r : Resolution) → (e.resolve r).bodies = r.bodies
  | .literal _, _ => rfl
  | .grouping inner, r => inner.bodies_resolve r
  | .unary _ operand, r => operand.bodies_resolve r
  | .binary left _ right, r => (right.bodies_resolve _).trans (left.bodies_resolve r)
  | .logical left _ right, r => (right.bodies_resolve _).trans (left.bodies_resolve r)
  | .var name, r => bodies_read r name
  | .assign target value, r => (bodies_refer _ target).trans (value.bodies_resolve r)
  | .call callee _ arguments, r =>
    (Expr.bodies_resolveAll arguments _).trans (callee.bodies_resolve r)
  | .get object _, r => object.bodies_resolve r
  | .set object _ value, r => (object.bodies_resolve _).trans (value.bodies_resolve r)
  | .this keyword, r => bodies_this r keyword
  | .super keyword _, r => bodies_super r keyword

theorem Expr.bodies_resolveAll : (es : List Expr) → (r : Resolution) →
    (Expr.resolveAll es r).bodies = r.bodies
  | [], _ => rfl
  | e :: rest, r => (Expr.bodies_resolveAll rest _).trans (e.bodies_resolve r)

end

mutual

theorem Stmt.bodies_resolve : (s : Stmt) → (r : Resolution) → (s.resolve r).bodies = r.bodies
  | .expression value, r => value.bodies_resolve r
  | .print value, r => value.bodies_resolve r
  | .varDecl name (some value), r =>
    (bodies_put _ _ _).trans ((value.bodies_resolve _).trans (bodies_declare r name))
  | .varDecl name none, r => bodies_introduce r name
  | .block body, r => Stmt.bodies_resolveAll body r.enter
  | .ifThen condition thenBranch, r =>
    (thenBranch.bodies_resolve _).trans (condition.bodies_resolve r)
  | .ifElse condition thenBranch elseBranch, r =>
    (elseBranch.bodies_resolve _).trans
      ((thenBranch.bodies_resolve _).trans (condition.bodies_resolve r))
  | .whileDo condition body, r => (body.bodies_resolve _).trans (condition.bodies_resolve r)
  | .funDecl decl, r => (decl.bodies_resolve .function _).trans (bodies_introduce r decl.name)
  | .ret keyword (some value), r =>
    (value.bodies_resolve _).trans (bodies_leaveFunction r keyword true)
  | .ret keyword none, r => bodies_leaveFunction r keyword false
  | .classDecl name none methods, r => by
    have hmethods := congrArg Prod.fst (FunctionDecl.bodies_resolveAll methods
      ((Resolution.introduce { r with inClass := .plain } name).enter.put "this" .defined))
    have hthis := congrArg Prod.fst (bodies_put
      (Resolution.introduce { r with inClass := .plain } name).enter "this" .defined)
    have hname := congrArg Prod.fst (bodies_introduce { r with inClass := .plain } name)
    exact Prod.ext (hmethods.trans (hthis.trans hname)) rfl
  | .classDecl name (some parent) methods, r => by
    let inherited := Resolution.inherit (Resolution.introduce { r with inClass := .plain } name)
      name parent
    have hmethods := congrArg Prod.fst (FunctionDecl.bodies_resolveAll methods
      ((inherited.enter.put "super" .defined).enter.put "this" .defined))
    have hthis := congrArg Prod.fst
      (bodies_put (inherited.enter.put "super" .defined).enter "this" .defined)
    have hsuper := congrArg Prod.fst (bodies_put inherited.enter "super" .defined)
    have hparent := inFunction_inherit (Resolution.introduce { r with inClass := .plain } name)
      name parent
    have hname := congrArg Prod.fst (bodies_introduce { r with inClass := .plain } name)
    exact Prod.ext (hmethods.trans (hthis.trans (hsuper.trans (hparent.trans hname)))) rfl

theorem FunctionDecl.bodies_resolve (context : FunctionContext) : (decl : FunctionDecl) →
    (r : Resolution) → (decl.resolve context r).bodies = r.bodies
  | ⟨_, params, body⟩, r => by
    have hbody := congrArg Prod.snd (Stmt.bodies_resolveAll body
      (params.foldl Resolution.introduce ({ r with inFunction := context } : Resolution).enter))
    have hparams := congrArg Prod.snd (bodies_introduceAll params
      ({ r with inFunction := context } : Resolution).enter)
    exact Prod.ext rfl (hbody.trans hparams)

theorem Stmt.bodies_resolveAll : (body : List Stmt) → (r : Resolution) →
    (Stmt.resolveAll body r).bodies = r.bodies
  | [], _ => rfl
  | s :: rest, r => (Stmt.bodies_resolveAll rest _).trans (s.bodies_resolve r)

theorem FunctionDecl.bodies_resolveAll : (methods : List FunctionDecl) → (r : Resolution) →
    (FunctionDecl.resolveAll methods r).bodies = r.bodies
  | [], _ => rfl
  | m :: rest, r => (FunctionDecl.bodies_resolveAll rest _).trans (m.bodies_resolve _ r)

end

/-! ## Whole programs -/

theorem resolve_eq_ok {statements : List Stmt} {distances : Distances} :
    resolve statements = .ok distances ↔
      (Stmt.resolveAll statements Resolution.start).errors = [] ∧
        (Stmt.resolveAll statements Resolution.start).distances = distances := by
  simp only [resolve]
  split
  · next h => simp [List.isEmpty_iff.1 h]
  · next h => simp [mt List.isEmpty_iff.2 h]

theorem resolve_eq_error {statements : List Stmt} {errors : List ScopingError} :
    resolve statements = .error errors ↔
      (Stmt.resolveAll statements Resolution.start).errors ≠ [] ∧
        (Stmt.resolveAll statements Resolution.start).errors = errors := by
  simp only [resolve]
  split
  · next h => simp [List.isEmpty_iff.1 h]
  · next h => simp [mt List.isEmpty_iff.2 h]

theorem Stmt.resolveAll_append (body rest : List Stmt) (r : Resolution) :
    Stmt.resolveAll (body ++ rest) r = Stmt.resolveAll rest (Stmt.resolveAll body r) := by
  induction body generalizing r with
  | nil => rfl
  | cons s body ih => exact ih _

/-- What is found out about a moved text behind another one. -/
theorem alongside_resolveAll {d : Move} {before : Resolution} (hscopes : before.scopes = [])
    (hbodies : before.bodies = start.bodies) (statements : List Stmt) :
    Alongside d before (Stmt.resolveAll statements start)
      (Stmt.resolveAll (Stmt.moveAll d statements) before) :=
  Stmt.resolveAll_move statements ⟨hscopes, congrArg Prod.fst hbodies, congrArg Prod.snd hbodies,
    by simp [start], by simp [start]⟩

theorem errors_resolveAll_moveAll (d : Move) (statements : List Stmt) :
    (Stmt.resolveAll (Stmt.moveAll d statements) start).errors =
      (Stmt.resolveAll statements start).errors.map (ScopingError.move d) :=
  (alongside_resolveAll rfl rfl statements).errors

/-- The moved text is resolved as the text itself. -/
theorem resolve_moveAll {statements : List Stmt} {distances : Distances} (d : Move)
    (h : resolve statements = .ok distances) :
    ∃ distances', resolve (Stmt.moveAll d statements) = .ok distances' ∧
      ∀ id, distances'[id + d.ids]? = distances[id]? := by
  obtain ⟨herrors, rfl⟩ := resolve_eq_ok.1 h
  refine ⟨_, resolve_eq_ok.2 ⟨?_, rfl⟩, fun id => ?_⟩
  · rw [errors_resolveAll_moveAll, herrors, List.map_nil]
  · have hend : Alongside d start _ _ := alongside_resolveAll rfl rfl statements
    rw [hend.distances, start, Std.TreeMap.getElem?_emptyc, Option.or_none]

/-- The moved text has the faults of the text itself. -/
theorem resolve_moveAll_error {statements : List Stmt} {errors : List ScopingError} (d : Move)
    (h : resolve statements = .error errors) :
    resolve (Stmt.moveAll d statements) = .error (errors.map (ScopingError.move d)) := by
  obtain ⟨hne, rfl⟩ := resolve_eq_error.1 h
  refine resolve_eq_error.2 ⟨?_, errors_resolveAll_moveAll d statements⟩
  rw [errors_resolveAll_moveAll]
  exact mt List.map_eq_nil_iff.1 hne

/-- Two programs, the second moved down, are resolved as one and then the other. -/
theorem resolve_append {before after : List Stmt} {known distances : Distances} (lines : Nat)
    (h : resolve before = .ok known) (h' : resolve after = .ok distances) :
    ∃ distances', resolve (before ++ Stmt.moveAll (.down lines) after) = .ok distances' ∧
      ∀ id : Nat, distances'[id]? = distances[id]?.or known[id]? := by
  obtain ⟨herrors, rfl⟩ := resolve_eq_ok.1 h
  obtain ⟨herrors', rfl⟩ := resolve_eq_ok.1 h'
  have hscopes : (Stmt.resolveAll before start).scopes = [] :=
    List.length_eq_zero_iff.1 (Stmt.resolveAll_leads before start).depth
  have hend := alongside_resolveAll (d := .down lines) hscopes
    (Stmt.bodies_resolveAll before start) after
  rw [← Stmt.resolveAll_append] at hend
  exact ⟨_, resolve_eq_ok.2 ⟨by simp [hend.errors, herrors, herrors'], rfl⟩, hend.distances⟩

end LoxLang
