import LoxLang.Proofs.Grammar.Unnumbered
import LoxLang.Proofs.Splitting.Resolving
import LoxLang.Proofs.Values.Alike

/-!
# Verdicts without numbers

Whether a program keeps to the rules of scoping, and where it does not, has nothing to do with the
numbers of its mentions.

1. `Stmt.resolve_unnumbered`: one statement, with its numbers and without.
2. `resolve_of_unnumbered`: two programs that are the same but for numbers.
-/

namespace LoxLang

namespace Resolution

/-- Two resolutions that differ in what they have noted about mentions at most. -/
structure Concurs (r r' : Resolution) : Prop where
  scopes : r'.scopes = r.scopes
  inFunction : r'.inFunction = r.inFunction
  inClass : r'.inClass = r.inClass
  errors : r'.errors = r.errors

namespace Concurs

variable {r r' : Resolution}

theorem refl (r : Resolution) : Concurs r r :=
  ⟨rfl, rfl, rfl, rfl⟩

theorem report (h : Concurs r r') (t : Token) (fault : ScopingFault) :
    Concurs (r.report t fault) (r'.report t fault) :=
  { h with errors := congrArg (· ++ _) h.errors }

theorem enter (h : Concurs r r') : Concurs r.enter r'.enter :=
  { h with scopes := congrArg (List.cons []) h.scopes }

theorem leave (h : Concurs r r') : Concurs r.leave r'.leave :=
  { h with scopes := congrArg List.tail h.scopes }

theorem put (h : Concurs r r') (name : String) (status : Status) :
    Concurs (r.put name status) (r'.put name status) := by
  unfold Resolution.put
  rw [h.scopes]
  split
  · exact h
  · exact { h with scopes := rfl }

theorem declare (h : Concurs r r') (t : Token) : Concurs (r.declare t) (r'.declare t) := by
  unfold Resolution.declare
  rw [h.scopes]
  split
  · exact h
  · split
    · exact h.report t .alreadyDeclared
    · exact h.put t.lexeme .declared

theorem define (h : Concurs r r') (t : Token) : Concurs (r.define t) (r'.define t) :=
  h.put _ _

theorem introduce (h : Concurs r r') (t : Token) : Concurs (r.introduce t) (r'.introduce t) :=
  (h.declare t).define t

theorem introduceAll (h : Concurs r r') (params : List Token) :
    Concurs (params.foldl Resolution.introduce r) (params.foldl Resolution.introduce r') := by
  induction params generalizing r r' with
  | nil => exact h
  | cons p params ih => exact ih (h.introduce p)

/-- Here the two differ: each notes the distance for its own mention. -/
theorem refer (h : Concurs r r') (o : Occurrence) :
    Concurs (r.refer o) (r'.refer o.unnumbered) := by
  unfold Resolution.refer
  rw [h.scopes, show o.unnumbered.name = o.name from rfl]
  split
  · exact ⟨rfl, h.inFunction, h.inClass, h.errors⟩
  · exact h

theorem read (h : Concurs r r') (o : Occurrence) : Concurs (r.read o) (r'.read o.unnumbered) := by
  have hinitializing : r'.initializing o.unnumbered.name = r.initializing o.name := by
    unfold Resolution.initializing
    rw [h.scopes]
    rfl
  unfold Resolution.read
  rw [hinitializing]
  split
  · exact (h.report o.token _).refer o
  · exact h.refer o

theorem this (h : Concurs r r') (o : Occurrence) : Concurs (r.this o) (r'.this o.unnumbered) := by
  unfold Resolution.this
  rw [h.inClass]
  split
  · exact h.report _ _
  · exact h.refer o

theorem super (h : Concurs r r') (o : Occurrence) :
    Concurs (r.super o) (r'.super o.unnumbered) := by
  unfold Resolution.super
  rw [h.inClass]
  split
  · exact (h.report o.token _).refer o
  · exact (h.report o.token _).refer o
  · exact h.refer o

theorem leaveFunction (h : Concurs r r') (keyword : Token) (hasValue : Bool) :
    Concurs (r.leaveFunction keyword hasValue) (r'.leaveFunction keyword hasValue) := by
  unfold Resolution.leaveFunction
  rw [h.inFunction]
  split
  · exact h.report _ _
  · exact h.report _ _
  · exact h

theorem inside (h : Concurs r r') (c : ClassContext) :
    Concurs { r with inClass := c } { r' with inClass := c } :=
  { h with inClass := rfl }

theorem within (h : Concurs r r') (c : FunctionContext) :
    Concurs { r with inFunction := c } { r' with inFunction := c } :=
  { h with inFunction := rfl }

theorem inherit (h : Concurs r r') (name : Token) (parent : Occurrence) :
    Concurs (r.inherit name parent) (r'.inherit name parent.unnumbered) := by
  unfold Resolution.inherit
  refine read (inside ?_ _) parent
  rw [show parent.unnumbered.name = parent.name from rfl]
  split
  · exact h.report parent.token .inheritsFromItself
  · exact h

end Concurs

end Resolution

open Resolution

mutual

theorem Expr.resolve_unnumbered : (e : Expr) → {r r' : Resolution} → Concurs r r' →
    Concurs (e.resolve r) (e.unnumbered.resolve r')
  | .literal _, _, _, h => h
  | .grouping inner, _, _, h => inner.resolve_unnumbered h
  | .unary _ operand, _, _, h => operand.resolve_unnumbered h
  | .binary left _ right, _, _, h => right.resolve_unnumbered (left.resolve_unnumbered h)
  | .logical left _ right, _, _, h => right.resolve_unnumbered (left.resolve_unnumbered h)
  | .var name, _, _, h => h.read name
  | .assign target value, _, _, h => (value.resolve_unnumbered h).refer target
  | .call callee _ arguments, _, _, h =>
    Expr.resolveAll_unnumbered arguments (callee.resolve_unnumbered h)
  | .get object _, _, _, h => object.resolve_unnumbered h
  | .set object _ value, _, _, h => object.resolve_unnumbered (value.resolve_unnumbered h)
  | .this keyword, _, _, h => h.this keyword
  | .super keyword _, _, _, h => h.super keyword

theorem Expr.resolveAll_unnumbered : (es : List Expr) → {r r' : Resolution} → Concurs r r' →
    Concurs (Expr.resolveAll es r) (Expr.resolveAll (Expr.unnumberedAll es) r')
  | [], _, _, h => h
  | e :: rest, _, _, h => Expr.resolveAll_unnumbered rest (e.resolve_unnumbered h)

end

mutual

theorem Stmt.resolve_unnumbered : (s : Stmt) → {r r' : Resolution} → Concurs r r' →
    Concurs (s.resolve r) (s.unnumbered.resolve r')
  | .expression value, _, _, h => value.resolve_unnumbered h
  | .print value, _, _, h => value.resolve_unnumbered h
  | .varDecl name (some value), _, _, h =>
    (value.resolve_unnumbered (h.declare name)).define name
  | .varDecl name none, _, _, h => h.introduce name
  | .block body, _, _, h => (Stmt.resolveAll_unnumbered body h.enter).leave
  | .ifThen condition thenBranch, _, _, h =>
    thenBranch.resolve_unnumbered (condition.resolve_unnumbered h)
  | .ifElse condition thenBranch elseBranch, _, _, h =>
    elseBranch.resolve_unnumbered
      (thenBranch.resolve_unnumbered (condition.resolve_unnumbered h))
  | .whileDo condition body, _, _, h =>
    body.resolve_unnumbered (condition.resolve_unnumbered h)
  | .funDecl ⟨name, params, body⟩, _, _, h =>
    FunctionDecl.resolve_unnumbered .function ⟨name, params, body⟩ (h.introduce name)
  | .ret keyword (some value), _, _, h =>
    value.resolve_unnumbered (h.leaveFunction keyword true)
  | .ret keyword none, _, _, h => h.leaveFunction keyword false
  | .classDecl name (some parent) methods, r, r', h => by
    have hin := ((((h.inside .plain).introduce name).inherit name parent).enter.put
      "super" .defined).enter.put "this" .defined
    have hout := ((FunctionDecl.resolveAll_unnumbered methods hin).leave.leave).inside r.inClass
    simpa only [Stmt.unnumbered, Stmt.resolve, Option.map_some, h.inClass] using hout
  | .classDecl name none methods, r, r', h => by
    have hin := ((h.inside .plain).introduce name).enter.put "this" .defined
    have hout := (FunctionDecl.resolveAll_unnumbered methods hin).leave.inside r.inClass
    simpa only [Stmt.unnumbered, Stmt.resolve, Option.map_none, h.inClass] using hout

theorem FunctionDecl.resolve_unnumbered (context : FunctionContext) : (decl : FunctionDecl) →
    {r r' : Resolution} → Concurs r r' →
    Concurs (decl.resolve context r) (decl.unnumbered.resolve context r')
  | ⟨_, params, body⟩, r, r', h => by
    have hin := (h.within context).enter.introduceAll params
    have hout := (Stmt.resolveAll_unnumbered body hin).leave.within r.inFunction
    simpa only [FunctionDecl.unnumbered, FunctionDecl.resolve, h.inFunction] using hout

theorem Stmt.resolveAll_unnumbered : (body : List Stmt) → {r r' : Resolution} → Concurs r r' →
    Concurs (Stmt.resolveAll body r) (Stmt.resolveAll (Stmt.unnumberedAll body) r')
  | [], _, _, h => h
  | s :: rest, _, _, h => Stmt.resolveAll_unnumbered rest (s.resolve_unnumbered h)

theorem FunctionDecl.resolveAll_unnumbered : (methods : List FunctionDecl) →
    {r r' : Resolution} → Concurs r r' →
    Concurs (FunctionDecl.resolveAll methods r)
      (FunctionDecl.resolveAll (FunctionDecl.unnumberedAll methods) r')
  | [], _, _, h => h
  | ⟨name, params, body⟩ :: rest, _, _, h =>
    FunctionDecl.resolveAll_unnumbered rest
      (FunctionDecl.resolve_unnumbered _ ⟨name, params, body⟩ h)

end

theorem errors_unnumberedAll (program : List Stmt) :
    (Stmt.resolveAll (Stmt.unnumberedAll program) start).errors =
      (Stmt.resolveAll program start).errors :=
  (Stmt.resolveAll_unnumbered program (.refl start)).errors

theorem resolve_unnumberedAll {program : List Stmt} {distances : Distances}
    (h : resolve program = .ok distances) :
    ∃ distances', resolve (Stmt.unnumberedAll program) = .ok distances' :=
  ⟨_, resolve_eq_ok.2 ⟨(errors_unnumberedAll program).trans (resolve_eq_ok.1 h).1, rfl⟩⟩

theorem resolve_unnumberedAll_error {program : List Stmt} {errors : List ScopingError}
    (h : resolve program = .error errors) : resolve (Stmt.unnumberedAll program) = .error errors := by
  rw [resolve_eq_error] at h ⊢
  rwa [errors_unnumberedAll]

/-- Programs that are the same but for their numbers get the same verdict. -/
theorem resolve_of_unnumbered {program program' : List Stmt}
    (h : Stmt.unnumberedAll program' = Stmt.unnumberedAll program) :
    SameResult (fun _ _ => True) (resolve program) (resolve program') := by
  have herrors := errors_unnumberedAll program'
  rw [h, errors_unnumberedAll] at herrors
  simp only [resolve, ← herrors]
  split
  · trivial
  · rfl

end LoxLang
