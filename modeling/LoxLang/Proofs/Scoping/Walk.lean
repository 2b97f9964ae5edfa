import LoxLang.Proofs.Grammar.Trees
import LoxLang.Proofs.Scoping.Scoped

/-!
# What a walk over a part of a tree changes

Resolving a part of a tree records nothing about the mentions in other parts, takes back no fault,
and changes no scope around it but the innermost; and not even that one if the part is an
expression.

1. `Expr.resolve_leads`, `Stmt.resolve_leads`: what is recorded.
2. `Expr.resolve_stays`: what stays as it was.
-/

namespace LoxLang

theorem Bindings.has_eq_contains {α : Type} (b : Bindings α) (name : String) :
    b.has name = b.names.contains name := by
  induction b with
  | nil => rfl
  | cons first rest ih =>
    unfold Bindings.has at ih
    by_cases here : name = first.1
    · simp [Bindings.has, Bindings.get?_cons, Bindings.names, here]
    · have hne : (name == first.1) = false := by simpa using here
      simpa [Bindings.has, Bindings.get?_cons, Bindings.names, here, hne] using ih

namespace Resolution

/-- The names declared so far in the scopes around the present place. -/
def around (r : Resolution) : Surroundings :=
  r.scopes.map Bindings.names

theorem locate?_scopes (r : Resolution) (name : String) :
    locate? r.scopes name = r.around.locate? name := by
  simp only [locate?, around, Surroundings.locate?, List.findIdx?_map, Bindings.has_eq_contains]
  rfl

/-- From `r` to `r'` nothing is recorded but about some mentions, and no scope changes but the
innermost one, if there is any. -/
structure Leads (os : List Occurrence) (r r' : Resolution) : Prop where
  errors : r.errors <+: r'.errors
  distances : ∀ id, id ∉ os.map Occurrence.id → r'.distances[id]? = r.distances[id]?
  outer : r'.scopes.tail = r.scopes.tail
  depth : r'.scopes.length = r.scopes.length

namespace Leads

variable {os os' : List Occurrence} {r r' r'' : Resolution}

theorem refl (r : Resolution) : Leads [] r r :=
  ⟨List.prefix_refl _, fun _ _ => rfl, rfl, rfl⟩

theorem trans (h : Leads os r r') (h' : Leads os' r' r'') : Leads (os ++ os') r r'' where
  errors := h.errors.trans h'.errors
  distances := by
    intro id hid
    simp only [List.map_append, List.mem_append, not_or] at hid
    exact (h'.distances id hid.2).trans (h.distances id hid.1)
  outer := h'.outer.trans h.outer
  depth := h'.depth.trans h.depth

theorem swap (h : Leads (os ++ os') r r') : Leads (os' ++ os) r r' where
  errors := h.errors
  distances := fun id hid => h.distances id (by simpa [and_comm] using hid)
  outer := h.outer
  depth := h.depth

/-- What records nothing may come first or last. -/
theorem followed (h : Leads os r r') (h' : Leads [] r' r'') : Leads os r r'' := by
  simpa using h.trans h'

/-- Inside a scope of its own, nothing changes the scopes around it. -/
theorem enclosed (h : Leads os r.enter r') : Leads os r r'.leave where
  errors := h.errors
  distances := h.distances
  outer := congrArg List.tail h.outer
  depth := congrArg List.length h.outer

/-- If there is no fault at the end, there was none before. -/
theorem clean (h : Leads os r r') (hc : r'.errors = []) : r.errors = [] :=
  List.prefix_nil.1 (hc ▸ h.errors)

end Leads

/-! ## Steps of a resolution -/

theorem report_leads (r : Resolution) (t : Token) (fault : ScopingFault) :
    Leads [] r (r.report t fault) :=
  ⟨List.prefix_append _ _, fun _ _ => rfl, rfl, rfl⟩

theorem put_leads (r : Resolution) (name : String) (status : Status) :
    Leads [] r (r.put name status) := by
  unfold put
  split
  · exact .refl r
  · next scope outer hs => exact ⟨List.prefix_refl _, fun _ _ => rfl, by simp [hs], by simp [hs]⟩

theorem declare_leads (r : Resolution) (t : Token) : Leads [] r (r.declare t) := by
  unfold declare
  split
  · exact .refl r
  · split
    · exact report_leads _ _ _
    · exact put_leads _ _ _

theorem introduce_leads (r : Resolution) (t : Token) : Leads [] r (r.introduce t) :=
  (declare_leads r t).trans (put_leads _ _ _)

theorem refer_leads (r : Resolution) (o : Occurrence) : Leads [o] r (r.refer o) := by
  unfold refer
  split
  · refine ⟨List.prefix_refl _, fun id hid => ?_, rfl, rfl⟩
    have hne : o.id ≠ id := by simpa [eq_comm] using hid
    simp [Std.TreeMap.getElem?_insert, hne]
  · exact ⟨List.prefix_refl _, fun _ _ => rfl, rfl, rfl⟩

theorem read_leads (r : Resolution) (o : Occurrence) : Leads [o] r (r.read o) := by
  unfold read
  split
  · exact (report_leads _ _ _).trans (refer_leads _ o)
  · exact refer_leads r o

theorem this_leads (r : Resolution) (o : Occurrence) : Leads [o] r (r.this o) := by
  unfold this
  split
  · exact (report_leads _ _ _).trans ⟨List.prefix_refl _, fun _ _ => rfl, rfl, rfl⟩
  · exact refer_leads r o

theorem super_leads (r : Resolution) (o : Occurrence) : Leads [o] r (r.super o) := by
  unfold super
  split
  · exact (report_leads _ _ _).trans (refer_leads _ o)
  · exact (report_leads _ _ _).trans (refer_leads _ o)
  · exact refer_leads r o

theorem leaveFunction_leads (r : Resolution) (keyword : Token) (hasValue : Bool) :
    Leads [] r (r.leaveFunction keyword hasValue) := by
  unfold leaveFunction
  split
  · exact report_leads _ _ _
  · exact report_leads _ _ _
  · exact .refl r

theorem inClass_leads (r : Resolution) (c : ClassContext) :
    Leads [] r { r with inClass := c } :=
  ⟨List.prefix_refl _, fun _ _ => rfl, rfl, rfl⟩

theorem inherit_leads (r : Resolution) (name : Token) (parent : Occurrence) :
    Leads [parent] r (r.inherit name parent) := by
  unfold inherit
  split
  · exact (report_leads r _ _).trans ((inClass_leads _ _).trans (read_leads _ parent))
  · exact (inClass_leads r _).trans (read_leads _ parent)

theorem introduceAll_leads (params : List Token) (r : Resolution) :
    Leads [] r (params.foldl introduce r) := by
  induction params generalizing r with
  | nil => exact .refl r
  | cons p params ih => exact (introduce_leads r p).trans (ih _)

end Resolution

open Resolution

mutual

theorem Expr.resolve_leads : (e : Expr) → (r : Resolution) → Leads e.mentions r (e.resolve r)
  | .literal _, r => .refl r
  | .grouping inner, r => inner.resolve_leads r
  | .unary _ operand, r => operand.resolve_leads r
  | .binary left _ right, r => (left.resolve_leads r).trans (right.resolve_leads _)
  | .logical left _ right, r => (left.resolve_leads r).trans (right.resolve_leads _)
  | .var name, r => read_leads r name
  | .assign target value, r => (value.resolve_leads r).trans (refer_leads _ target)
  | .call callee _ arguments, r =>
    (callee.resolve_leads r).trans (Expr.resolveAll_leads arguments _)
  | .get object _, r => object.resolve_leads r
  | .set object _ value, r => ((value.resolve_leads r).trans (object.resolve_leads _)).swap
  | .this keyword, r => this_leads r keyword
  | .super keyword _, r => super_leads r keyword

theorem Expr.resolveAll_leads : (es : List Expr) → (r : Resolution) →
    Leads (Expr.allMentions es) r (Expr.resolveAll es r)
  | [], r => .refl r
  | e :: rest, r => (e.resolve_leads r).trans (Expr.resolveAll_leads rest _)

end

mutual

theorem Stmt.resolve_leads : (s : Stmt) → (r : Resolution) → Leads s.mentions r (s.resolve r)
  | .expression value, r => value.resolve_leads r
  | .print value, r => value.resolve_leads r
  | .varDecl name (some value), r =>
    ((declare_leads r name).trans (value.resolve_leads _)).followed (put_leads _ _ _)
  | .varDecl name none, r => introduce_leads r name
  | .block body, r => (Stmt.resolveAll_leads body r.enter).enclosed
  | .ifThen condition thenBranch, r =>
    (condition.resolve_leads r).trans (thenBranch.resolve_leads _)
  | .ifElse condition thenBranch elseBranch, r =>
    (condition.resolve_leads r).trans
      ((thenBranch.resolve_leads _).trans (elseBranch.resolve_leads _))
  | .whileDo condition body, r => (condition.resolve_leads r).trans (body.resolve_leads _)
  | .funDecl decl, r => (introduce_leads r decl.name).trans (decl.resolve_leads .function _)
  | .ret keyword (some value), r =>
    (leaveFunction_leads r keyword true).trans (value.resolve_leads _)
  | .ret keyword none, r => leaveFunction_leads r keyword false
  | .classDecl name none methods, r => by
    have hname := introduce_leads { r with inClass := .plain } name
    have hthis := put_leads (Resolution.introduce { r with inClass := .plain } name).enter "this"
      .defined
    have h := hname.trans (hthis.trans (FunctionDecl.resolveAll_leads methods _)).enclosed
    exact ⟨h.errors, h.distances, h.outer, h.depth⟩
  | .classDecl name (some parent) methods, r => by
    have hname := introduce_leads { r with inClass := .plain } name
    have hparent := inherit_leads (Resolution.introduce { r with inClass := .plain } name) name
      parent
    have hsuper := put_leads (Resolution.inherit (Resolution.introduce { r with inClass := .plain }
      name) name parent).enter "super" .defined
    have hthis := put_leads (Resolution.put (Resolution.inherit (Resolution.introduce
      { r with inClass := .plain } name) name parent).enter "super" .defined).enter "this" .defined
    have hmethods := (hthis.trans (FunctionDecl.resolveAll_leads methods _)).enclosed
    have h := hname.trans (hparent.trans (hsuper.trans hmethods).enclosed)
    exact ⟨h.errors, h.distances, h.outer, h.depth⟩

theorem FunctionDecl.resolve_leads : (decl : FunctionDecl) → (context : FunctionContext) →
    (r : Resolution) → Leads decl.mentions r (decl.resolve context r)
  | ⟨_, params, body⟩, context, r => by
    have hparams := introduceAll_leads params ({ r with inFunction := context } : Resolution).enter
    have h := (hparams.trans (Stmt.resolveAll_leads body _)).enclosed
    exact ⟨h.errors, h.distances, h.outer, h.depth⟩

theorem Stmt.resolveAll_leads : (body : List Stmt) → (r : Resolution) →
    Leads (Stmt.allMentions body) r (Stmt.resolveAll body r)
  | [], r => .refl r
  | s :: rest, r => (s.resolve_leads r).trans (Stmt.resolveAll_leads rest _)

theorem FunctionDecl.resolveAll_leads : (methods : List FunctionDecl) → (r : Resolution) →
    Leads (FunctionDecl.allMentions methods) r (FunctionDecl.resolveAll methods r)
  | [], r => .refl r
  | m :: rest, r => (m.resolve_leads _ r).trans (FunctionDecl.resolveAll_leads rest _)

end

/-! ## Expressions declare nothing -/

namespace Resolution

/-- Neither the scopes nor the class around change. -/
structure Stays (r r' : Resolution) : Prop where
  scopes : r'.scopes = r.scopes
  inClass : r'.inClass = r.inClass

theorem Stays.trans {r r' r'' : Resolution} (h : Stays r r') (h' : Stays r' r'') : Stays r r'' :=
  ⟨h'.scopes.trans h.scopes, h'.inClass.trans h.inClass⟩

theorem Stays.around {r r' : Resolution} (h : Stays r r') : r'.around = r.around := by
  simp [Resolution.around, h.scopes]

theorem report_stays (r : Resolution) (t : Token) (fault : ScopingFault) :
    Stays r (r.report t fault) :=
  ⟨rfl, rfl⟩

theorem refer_stays (r : Resolution) (o : Occurrence) : Stays r (r.refer o) := by
  unfold refer
  split <;> exact ⟨rfl, rfl⟩

theorem read_stays (r : Resolution) (o : Occurrence) : Stays r (r.read o) := by
  unfold read
  split
  · exact (report_stays r _ _).trans (refer_stays _ o)
  · exact refer_stays r o

/-- A superclass is only read. -/
theorem scopes_inherit (r : Resolution) (name : Token) (parent : Occurrence) :
    (r.inherit name parent).scopes = r.scopes := by
  unfold inherit
  refine (read_stays _ parent).scopes.trans ?_
  split <;> rfl

theorem this_stays (r : Resolution) (o : Occurrence) : Stays r (r.this o) := by
  unfold this
  split
  · exact ⟨rfl, rfl⟩
  · exact refer_stays r o

theorem super_stays (r : Resolution) (o : Occurrence) : Stays r (r.super o) := by
  unfold super
  split
  · exact (report_stays r _ _).trans (refer_stays _ o)
  · exact (report_stays r _ _).trans (refer_stays _ o)
  · exact refer_stays r o

end Resolution

mutual

theorem Expr.resolve_stays : (e : Expr) → (r : Resolution) → Stays r (e.resolve r)
  | .literal _, _ => ⟨rfl, rfl⟩
  | .grouping inner, r => inner.resolve_stays r
  | .unary _ operand, r => operand.resolve_stays r
  | .binary left _ right, r => (left.resolve_stays r).trans (right.resolve_stays _)
  | .logical left _ right, r => (left.resolve_stays r).trans (right.resolve_stays _)
  | .var name, r => read_stays r name
  | .assign target value, r => (value.resolve_stays r).trans (refer_stays _ target)
  | .call callee _ arguments, r =>
    (callee.resolve_stays r).trans (Expr.resolveAll_stays arguments _)
  | .get object _, r => object.resolve_stays r
  | .set object _ value, r => (value.resolve_stays r).trans (object.resolve_stays _)
  | .this keyword, r => this_stays r keyword
  | .super keyword _, r => super_stays r keyword

theorem Expr.resolveAll_stays : (es : List Expr) → (r : Resolution) →
    Stays r (Expr.resolveAll es r)
  | [], _ => ⟨rfl, rfl⟩
  | e :: rest, r => (e.resolve_stays r).trans (Expr.resolveAll_stays rest _)

end

end LoxLang
