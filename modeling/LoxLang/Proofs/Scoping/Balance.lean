import LoxLang.Proofs.Splitting.Resolving

/-!
# The balance of a walk

Whatever a part of a tree is, and whether or not there are faults in it, a resolution leaves it by
the scopes, the function and the class by which it came in. Only the innermost scope may know more
names then. So the two parts of a program are resolved as each of them alone.

1. `Stmt.resolve_balanced`, `Expr.resolve_balanced`: parts of trees.
2. `errors_resolveAll_append`, `distances_resolveAll_append`: one text behind another.
3. `resolve_compositional`: both, for what resolving a program yields.
-/

namespace LoxLang

/-- No name is lost to the scope, and a declaration changes at most by its completion. -/
def LexicalScope.Grows (scope scope' : LexicalScope) : Prop :=
  ∀ name status, Bindings.get? scope name = some status →
    Bindings.get? scope' name = some status ∨ Bindings.get? scope' name = some .defined

namespace LexicalScope

theorem Grows.refl (scope : LexicalScope) : Grows scope scope :=
  fun _ _ h => .inl h

theorem Grows.trans {scope scope' scope'' : LexicalScope} (h : Grows scope scope')
    (h' : Grows scope' scope'') : Grows scope scope'' := by
  intro name status hget
  rcases h name status hget with hget' | hget'
  · exact h' name status hget'
  · exact .inr ((h' name .defined hget').elim id id)

theorem grows_put_defined (scope : LexicalScope) (name : String) :
    Grows scope (Bindings.put name .defined scope) := by
  intro other status hget
  rw [Bindings.get?_put]
  split
  · exact .inr rfl
  · exact .inl hget

/-- A name may get any status as long as the scope does not have it. -/
theorem grows_put_new {scope : LexicalScope} {name : String} (h : ¬Bindings.has scope name)
    (status : Status) : Grows scope (Bindings.put name status scope) := by
  intro other status' hget
  rw [Bindings.get?_put]
  split
  · next hsame =>
    subst hsame
    simp [Bindings.has, hget] at h
  · exact .inl hget

end LexicalScope

namespace Resolution

/-- The innermost scope, if there is any, has grown. -/
def Widens (r r' : Resolution) : Prop :=
  ∀ scope ∈ r.scopes.head?, ∃ scope' ∈ r'.scopes.head?, LexicalScope.Grows scope scope'

namespace Widens

variable {r r' r'' : Resolution}

theorem of_scopes (h : r'.scopes = r.scopes) : Widens r r' :=
  fun scope hscope => ⟨scope, h ▸ hscope, .refl scope⟩

theorem trans (h : Widens r r') (h' : Widens r' r'') : Widens r r'' := by
  intro scope hscope
  obtain ⟨scope', hscope', hgrows⟩ := h scope hscope
  obtain ⟨scope'', hscope'', hgrows'⟩ := h' scope' hscope'
  exact ⟨scope'', hscope'', hgrows.trans hgrows'⟩

/-- Scopes that are the same afterwards do not matter. -/
theorem followed (h : Widens r r') (hsame : r''.scopes = r'.scopes) : Widens r r'' :=
  h.trans (of_scopes hsame)

end Widens

theorem widens_put {r : Resolution} {name : String} {status : Status}
    (h : ∀ scope ∈ r.scopes.head?, LexicalScope.Grows scope (Bindings.put name status scope)) :
    Widens r (r.put name status) := by
  intro scope hscope
  unfold put
  cases hs : r.scopes with
  | nil => simp [hs] at hscope
  | cons inner outer =>
    obtain rfl : inner = scope := by simpa [hs] using hscope
    exact ⟨_, rfl, h inner hscope⟩

theorem widens_declare (r : Resolution) (t : Token) : Widens r (r.declare t) := by
  unfold declare
  cases hs : r.scopes with
  | nil => exact .of_scopes rfl
  | cons inner outer =>
    by_cases hhas : Bindings.has inner t.lexeme
    · simp only [hhas, if_true]
      exact .of_scopes rfl
    · simp only [hhas, if_false, Bool.false_eq_true]
      refine widens_put fun scope hscope => ?_
      obtain rfl : inner = scope := by simpa [hs] using hscope
      exact LexicalScope.grows_put_new hhas _

theorem widens_define (r : Resolution) (t : Token) : Widens r (r.define t) :=
  widens_put fun scope _ => LexicalScope.grows_put_defined scope _

theorem widens_introduce (r : Resolution) (t : Token) : Widens r (r.introduce t) :=
  (widens_declare r t).trans (widens_define _ t)

theorem scopes_leaveFunction (r : Resolution) (keyword : Token) (hasValue : Bool) :
    (r.leaveFunction keyword hasValue).scopes = r.scopes := by
  unfold leaveFunction
  split <;> rfl

/-- The same scopes around, but for names that the innermost one may have come to know, and the same
function and class. -/
structure Balanced (r r' : Resolution) : Prop where
  depth : r'.scopes.length = r.scopes.length
  outer : r'.scopes.tail = r.scopes.tail
  inner : Widens r r'
  inFunction : r'.inFunction = r.inFunction
  inClass : r'.inClass = r.inClass

end Resolution

open Resolution

/-! ## Parts of trees -/

theorem FunctionDecl.scopes_resolve (context : FunctionContext) (decl : FunctionDecl)
    (r : Resolution) : (decl.resolve context r).scopes = r.scopes := by
  obtain ⟨name, params, body⟩ := decl
  have hparams := introduceAll_leads params ({ r with inFunction := context } : Resolution).enter
  exact (hparams.trans (Stmt.resolveAll_leads body _)).outer

/-- The scope of the methods is left again. -/
theorem FunctionDecl.scopes_resolve_methods (methods : List FunctionDecl) (r : Resolution) :
    (FunctionDecl.resolveAll methods (r.enter.put "this" .defined)).leave.scopes = r.scopes := by
  have hthis := put_leads r.enter "this" .defined
  exact (hthis.trans (FunctionDecl.resolveAll_leads methods _)).outer

/-- Only declarations and what branches of statements declare widen the innermost scope. -/
theorem Stmt.resolve_widens : (s : Stmt) → (r : Resolution) → Widens r (s.resolve r)
  | .expression value, r => .of_scopes (value.resolve_stays r).scopes
  | .print value, r => .of_scopes (value.resolve_stays r).scopes
  | .varDecl name none, r => widens_introduce r name
  | .varDecl name (some value), r =>
    ((widens_declare r name).followed (value.resolve_stays _).scopes).trans (widens_define _ name)
  | .block body, r => .of_scopes (Stmt.resolveAll_leads body r.enter).outer
  | .ifThen condition thenBranch, r =>
    (Widens.of_scopes (condition.resolve_stays r).scopes).trans (thenBranch.resolve_widens _)
  | .ifElse condition thenBranch elseBranch, r =>
    ((Widens.of_scopes (condition.resolve_stays r).scopes).trans
      (thenBranch.resolve_widens _)).trans (elseBranch.resolve_widens _)
  | .whileDo condition body, r =>
    (Widens.of_scopes (condition.resolve_stays r).scopes).trans (body.resolve_widens _)
  | .funDecl decl, r => (widens_introduce r decl.name).followed (decl.scopes_resolve .function _)
  | .ret keyword (some value), r =>
    .of_scopes ((value.resolve_stays _).scopes.trans (scopes_leaveFunction r keyword true))
  | .ret keyword none, r => .of_scopes (scopes_leaveFunction r keyword false)
  | .classDecl name none methods, r =>
    (widens_introduce { r with inClass := .plain } name).followed
      (FunctionDecl.scopes_resolve_methods methods _)
  | .classDecl name (some parent) methods, r => by
    let named := Resolution.introduce { r with inClass := .plain } name
    have hmethods := FunctionDecl.scopes_resolve_methods methods
      ((named.inherit name parent).enter.put "super" .defined)
    have hsuper := (put_leads (named.inherit name parent).enter "super" .defined).outer
    have hparent := scopes_inherit named name parent
    have hscopes := (congrArg List.tail hmethods).trans (hsuper.trans hparent)
    exact (widens_introduce { r with inClass := .plain } name).followed hscopes

theorem Stmt.resolve_balanced (s : Stmt) (r : Resolution) : Balanced r (s.resolve r) where
  depth := (s.resolve_leads r).depth
  outer := (s.resolve_leads r).outer
  inner := s.resolve_widens r
  inFunction := congrArg Prod.fst (s.bodies_resolve r)
  inClass := congrArg Prod.snd (s.bodies_resolve r)

theorem Expr.resolve_balanced (e : Expr) (r : Resolution) : Balanced r (e.resolve r) where
  depth := (e.resolve_leads r).depth
  outer := (e.resolve_leads r).outer
  inner := .of_scopes (e.resolve_stays r).scopes
  inFunction := congrArg Prod.fst (e.bodies_resolve r)
  inClass := congrArg Prod.snd (e.bodies_resolve r)

/-! ## One text behind another -/

/-- Behind a whole text, a resolution is where it started, but for what it has found out. -/
theorem alongside_append (before after : List Stmt) :
    Alongside (.down 0) (Stmt.resolveAll before start) (Stmt.resolveAll after start)
      (Stmt.resolveAll (before ++ after) start) := by
  have hscopes : (Stmt.resolveAll before start).scopes = [] :=
    List.length_eq_zero_iff.1 (Stmt.resolveAll_leads before start).depth
  have hafter := alongside_resolveAll (d := .down 0) hscopes
    (Stmt.bodies_resolveAll before start) after
  rwa [Stmt.moveAll_zero, ← Stmt.resolveAll_append] at hafter

theorem ScopingError.move_zero (e : ScopingError) : e.move (.down 0) = e := by
  obtain ⟨⟨_, _⟩, _⟩ := e
  rfl

theorem errors_resolveAll_append (before after : List Stmt) :
    (Stmt.resolveAll (before ++ after) start).errors =
      (Stmt.resolveAll before start).errors ++ (Stmt.resolveAll after start).errors := by
  rw [(alongside_append before after).errors, List.map_congr_left fun e _ => e.move_zero,
    List.map_id']

theorem distances_resolveAll_append (before after : List Stmt) (id : Nat) :
    (Stmt.resolveAll (before ++ after) start).distances[id]? =
      (Stmt.resolveAll after start).distances[id]?.or
        (Stmt.resolveAll before start).distances[id]? :=
  (alongside_append before after).distances id

/-- Nothing is found out about numbers that no mention has. -/
theorem distances_resolveAll_of_not_mem {statements : List Stmt} {id : Nat}
    (h : id ∉ (Stmt.allMentions statements).map Occurrence.id) :
    (Stmt.resolveAll statements start).distances[id]? = none := by
  rw [(Stmt.resolveAll_leads statements start).distances id h]
  exact Std.TreeMap.getElem?_emptyc

/-- The faults that are reported about a program; none if it is resolved. -/
def scopingErrors (statements : List Stmt) : List ScopingError :=
  match resolve statements with
  | .ok _ => []
  | .error errors => errors

theorem scopingErrors_eq (statements : List Stmt) :
    scopingErrors statements = (Stmt.resolveAll statements start).errors := by
  unfold scopingErrors
  split
  · next h => exact (resolve_eq_ok.1 h).1.symm
  · next h => exact (resolve_eq_error.1 h).2.symm

theorem resolve_of_scopingErrors {statements : List Stmt} (h : scopingErrors statements = []) :
    resolve statements = .ok (Stmt.resolveAll statements start).distances :=
  resolve_eq_ok.2 ⟨(scopingErrors_eq statements).symm.trans h, rfl⟩

/-- Every walk is balanced, and no expression declares anything. Of two texts one after the other,
the faults are those of the first and then those of the second; and if there are none and no number
is in both texts, what is known about each mention is what the text that has it says. -/
theorem resolve_compositional :
    (∀ (e : Expr) (r : Resolution), Balanced r (e.resolve r) ∧ (e.resolve r).scopes = r.scopes) ∧
      (∀ (s : Stmt) (r : Resolution), Balanced r (s.resolve r)) ∧
      ∀ before after : List Stmt,
        scopingErrors (before ++ after) = scopingErrors before ++ scopingErrors after ∧
          ((∀ o ∈ Stmt.allMentions before, ∀ o' ∈ Stmt.allMentions after, o.id ≠ o'.id) →
            scopingErrors (before ++ after) = [] →
            ∃ known known' distances, resolve before = .ok known ∧ resolve after = .ok known' ∧
              resolve (before ++ after) = .ok distances ∧
              ∀ id : Nat, distances[id]? = known[id]?.or known'[id]? ∧
                (known[id]? = none ∨ known'[id]? = none)) := by
  refine ⟨fun e r => ⟨e.resolve_balanced r, (e.resolve_stays r).scopes⟩, Stmt.resolve_balanced,
    fun before after => ?_⟩
  have herrors : scopingErrors (before ++ after) =
      scopingErrors before ++ scopingErrors after := by
    simp only [scopingErrors_eq, errors_resolveAll_append]
  refine ⟨herrors, fun hapart hnone => ?_⟩
  obtain ⟨hbefore, hafter⟩ := List.append_eq_nil_iff.1 (herrors.symm.trans hnone)
  refine ⟨_, _, _, resolve_of_scopingErrors hbefore, resolve_of_scopingErrors hafter,
    resolve_of_scopingErrors hnone, fun id => ?_⟩
  rw [distances_resolveAll_append]
  by_cases hid : id ∈ (Stmt.allMentions before).map Occurrence.id
  · have hnot : id ∉ (Stmt.allMentions after).map Occurrence.id := by
      intro hid'
      obtain ⟨o, ho, rfl⟩ := List.mem_map.1 hid
      obtain ⟨o', ho', hsame⟩ := List.mem_map.1 hid'
      exact hapart o ho o' ho' hsame.symm
    rw [distances_resolveAll_of_not_mem hnot, Option.or_none]
    exact ⟨rfl, .inr rfl⟩
  · rw [distances_resolveAll_of_not_mem hid, Option.or_none]
    exact ⟨rfl, .inl rfl⟩

/-- A block and a function behind it, each with a mention of a name of its own. -/
theorem resolve_compositional_function :
    let a : Token := ⟨.identifier, "a", 1⟩
    let before : List Stmt := [.block [.varDecl a none, .expression (.var ⟨0, a⟩)]]
    let after : List Stmt := [.funDecl ⟨⟨.identifier, "f", 2⟩, [a], [.print (.var ⟨1, a⟩)]⟩]
    ((∀ o ∈ Stmt.allMentions before, ∀ o' ∈ Stmt.allMentions after, o.id ≠ o'.id) ∧
        scopingErrors (before ++ after) = []) ∧
      ∃ known known' distances, resolve before = .ok known ∧ resolve after = .ok known' ∧
        resolve (before ++ after) = .ok distances ∧
        ∀ id : Nat, distances[id]? = known[id]?.or known'[id]? ∧
          (known[id]? = none ∨ known'[id]? = none) := by
  intro a before after
  have hapart : ∀ o ∈ Stmt.allMentions before, ∀ o' ∈ Stmt.allMentions after, o.id ≠ o'.id := by
    decide
  have hnone : scopingErrors (before ++ after) = [] := rfl
  exact ⟨⟨hapart, hnone⟩, (resolve_compositional.2.2 before after).2 hapart hnone⟩

end LoxLang
