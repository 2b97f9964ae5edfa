import LoxLang.Proofs.Renaming.Resolving

/-!
# Renamed programs resolve alike

A program in which a local variable gets a name that is new to it resolves to the same distances,
mention by mention, and without a fault.

1. `Stmt.resolve_rename`: statements inside the scope of the variable.
2. `Stmt.AllRenames.resolve_eq`: statements around it.
3. `resolve_renamed`: programs.
-/

namespace LoxLang

open Resolution

variable {k : Knowledge} {x y : String}

/-! ## Inside the scope of the variable -/

mutual

theorem Expr.resolve_rename {n : Nat} {r r' : Resolution} (hxy : x ≠ y) (hx : IsName x)
    (hy : IsName y) (h : Renamed x y n r r') : (e : Expr) → e.Formed (· ≠ y) →
      Records k e.mentions r (e.resolve r) → (e.resolve r).errors = [] →
      Renamed x y n (e.resolve r) ((e.rename k.distances x y n).resolve r')
  | .literal _, _, _, _ => h
  | .grouping inner, hf, hk, hc => inner.resolve_rename hxy hx hy h hf hk hc
  | .unary _ operand, hf, hk, hc => operand.resolve_rename hxy hx hy h hf hk hc
  | .binary left _ right, hf, hk, hc => by
    have hright := right.resolve_leads (left.resolve r)
    obtain ⟨hk₁, hk₂⟩ := hk.split (left.resolve_leads r) hright
    have h₁ := left.resolve_rename hxy hx hy h hf.1 hk₁ (hright.clean hc)
    exact right.resolve_rename hxy hx hy h₁ hf.2 hk₂ hc
  | .logical left _ right, hf, hk, hc => by
    have hright := right.resolve_leads (left.resolve r)
    obtain ⟨hk₁, hk₂⟩ := hk.split (left.resolve_leads r) hright
    have h₁ := left.resolve_rename hxy hx hy h hf.1 hk₁ (hright.clean hc)
    exact right.resolve_rename hxy hx hy h₁ hf.2 hk₂ hc
  | .var _, hf, hk, hc => h.read hxy hf hk hc
  | .assign target value, hf, hk, hc => by
    have htarget := refer_leads (value.resolve r) target
    obtain ⟨hk₁, hk₂⟩ := hk.split (value.resolve_leads r) htarget
    have h₁ := value.resolve_rename hxy hx hy h hf.2 hk₁ (htarget.clean hc)
    exact h₁.mention hxy hk₂.traces hf.1
  | .call callee _ arguments, hf, hk, hc => by
    have harguments := Expr.resolveAll_leads arguments (callee.resolve r)
    obtain ⟨hk₁, hk₂⟩ := hk.split (callee.resolve_leads r) harguments
    have h₁ := callee.resolve_rename hxy hx hy h hf.1 hk₁ (harguments.clean hc)
    exact Expr.resolveAll_rename hxy hx hy h₁ arguments hf.2 hk₂ hc
  | .get object _, hf, hk, hc => object.resolve_rename hxy hx hy h hf hk hc
  | .set object _ value, hf, hk, hc => by
    have hobject := object.resolve_leads (value.resolve r)
    obtain ⟨hk₁, hk₂⟩ := hk.swap.split (value.resolve_leads r) hobject
    have h₁ := value.resolve_rename hxy hx hy h hf.2 hk₁ (hobject.clean hc)
    exact object.resolve_rename hxy hx hy h₁ hf.1 hk₂ hc
  | .this _, hf, _, _ => h.this hxy hx hy hf
  | .super _ _, hf, _, _ => h.super hxy hx hy hf

theorem Expr.resolveAll_rename {n : Nat} {r r' : Resolution} (hxy : x ≠ y) (hx : IsName x)
    (hy : IsName y) (h : Renamed x y n r r') : (es : List Expr) → Expr.AllFormed (· ≠ y) es →
      Records k (Expr.allMentions es) r (Expr.resolveAll es r) →
      (Expr.resolveAll es r).errors = [] →
      Renamed x y n (Expr.resolveAll es r)
        (Expr.resolveAll (Expr.renameAll k.distances x y n es) r')
  | [], _, _, _ => h
  | e :: rest, hf, hk, hc => by
    have hrest := Expr.resolveAll_leads rest (e.resolve r)
    obtain ⟨hk₁, hk₂⟩ := hk.split (e.resolve_leads r) hrest
    have h₁ := e.resolve_rename hxy hx hy h hf.1 hk₁ (hrest.clean hc)
    exact Expr.resolveAll_rename hxy hx hy h₁ rest hf.2 hk₂ hc

end

mutual

theorem Stmt.resolve_rename {n : Nat} {r r' : Resolution} (hxy : x ≠ y) (hx : IsName x)
    (hy : IsName y) (h : Renamed x y n r r') : (s : Stmt) → s.Formed (· ≠ y) →
      (n = 0 → s.Spares x) → Records k s.mentions r (s.resolve r) → (s.resolve r).errors = [] →
      Renamed x y n (s.resolve r) ((s.rename k.distances x y n).resolve r')
  | .expression value, hf, _, hk, hc => value.resolve_rename hxy hx hy h hf hk hc
  | .print value, hf, _, hk, hc => value.resolve_rename hxy hx hy h hf hk hc
  | .varDecl name none, hf, _, _, hc => h.introduce hf hc
  | .varDecl name (some value), hf, _, hk, hc => by
    have hdefine := put_leads (value.resolve (r.declare name)) name.lexeme .defined
    have hvalue := value.resolve_leads (r.declare name)
    have hc₁ := hdefine.clean hc
    have h₁ := h.declare hf.1 (hvalue.clean hc₁)
    have h₂ := value.resolve_rename hxy hx hy h₁ hf.2
      (hk.inner (declare_leads r name) hdefine) hc₁
    exact h₂.define hf.1
  | .block body, hf, _, hk, hc =>
    -- Inside, the scope of the variable is one further out, and the name may be declared again.
    (Stmt.resolveAll_rename hxy hx hy h.enter body hf nofun hk.enclosed hc).leave
  | .ifThen condition thenBranch, hf, _, hk, hc => by
    have hthen := thenBranch.resolve_leads (condition.resolve r)
    obtain ⟨hk₁, hk₂⟩ := hk.split (condition.resolve_leads r) hthen
    have h₁ := condition.resolve_rename hxy hx hy h hf.1 hk₁ (hthen.clean hc)
    exact thenBranch.resolve_rename hxy hx hy h₁ hf.2.1
      (fun _ => Stmt.spares_of_declared? hf.2.2 x) hk₂ hc
  | .ifElse condition thenBranch elseBranch, hf, _, hk, hc => by
    have helse := elseBranch.resolve_leads (thenBranch.resolve (condition.resolve r))
    have hbranches := (thenBranch.resolve_leads (condition.resolve r)).trans helse
    obtain ⟨hk₁, hk₂⟩ := hk.split (condition.resolve_leads r) hbranches
    obtain ⟨hk₃, hk₄⟩ := hk₂.split (thenBranch.resolve_leads _) helse
    have h₁ := condition.resolve_rename hxy hx hy h hf.1 hk₁ (hbranches.clean hc)
    have h₂ := thenBranch.resolve_rename hxy hx hy h₁ hf.2.1.1
      (fun _ => Stmt.spares_of_declared? hf.2.1.2 x) hk₃ (helse.clean hc)
    exact elseBranch.resolve_rename hxy hx hy h₂ hf.2.2.1
      (fun _ => Stmt.spares_of_declared? hf.2.2.2 x) hk₄ hc
  | .whileDo condition body, hf, _, hk, hc => by
    have hbody := body.resolve_leads (condition.resolve r)
    obtain ⟨hk₁, hk₂⟩ := hk.split (condition.resolve_leads r) hbody
    have h₁ := condition.resolve_rename hxy hx hy h hf.1 hk₁ (hbody.clean hc)
    exact body.resolve_rename hxy hx hy h₁ hf.2.1
      (fun _ => Stmt.spares_of_declared? hf.2.2 x) hk₂ hc
  | .funDecl ⟨name, params, body⟩, hf, hspares, hk, hc => by
    have hdecl := FunctionDecl.resolve_leads ⟨name, params, body⟩ .function (r.introduce name)
    have h₁ := h.introduce_other hf.1 hspares (hdecl.clean hc)
    exact FunctionDecl.resolve_rename hxy hx hy h₁ ⟨name, params, body⟩ .function hf
      (hk.inner (introduce_leads r name) (.refl _)) hc
  | .ret keyword none, _, _, _, _ => h.leaveFunction keyword false
  | .ret keyword (some value), hf, _, hk, hc =>
    value.resolve_rename hxy hx hy (h.leaveFunction keyword true) hf
      (hk.inner (leaveFunction_leads r keyword true) (.refl _)) hc
  | .classDecl name none methods, hf, hspares, hk, hc => by
    obtain ⟨hk₁, hc₁⟩ := hk.methods hc
    have h₁ := (h.inside (c := .plain) rfl).introduce_other hf.1 hspares hc₁
    have h₂ := h₁.enter.put_other hy.ne_this.symm (fun _ => Nat.succ_ne_zero n) .defined
    have h₃ := (FunctionDecl.resolveAll_rename hxy hx hy h₂ methods hf.2.2 hk₁ hc).leave
    exact h₃.inside h.inClass
  | .classDecl name (some parent) methods, hf, hspares, hk, hc => by
    obtain ⟨⟨hk₁, hk₂⟩, hc₂, hc₁⟩ := hk.inherited hc
    have h₁ := (h.inside (c := .plain) rfl).introduce_other hf.1 hspares hc₁
    have h₂ := h₁.inherit hxy hf.1 (hf.2.1 parent rfl) hk₁ hc₂
    have h₃ := h₂.enter.put_other hy.ne_super.symm (fun _ => Nat.succ_ne_zero n) .defined
    have h₄ := h₃.enter.put_other hy.ne_this.symm (fun _ => Nat.succ_ne_zero _) .defined
    have h₅ := (FunctionDecl.resolveAll_rename hxy hx hy h₄ methods hf.2.2 hk₂ hc).leave.leave
    exact h₅.inside h.inClass

theorem FunctionDecl.resolve_rename {n : Nat} {r r' : Resolution} (hxy : x ≠ y) (hx : IsName x)
    (hy : IsName y) (h : Renamed x y n r r') : (decl : FunctionDecl) →
      (context : FunctionContext) → decl.Formed (· ≠ y) →
      Records k decl.mentions r (decl.resolve context r) → (decl.resolve context r).errors = [] →
      Renamed x y n (decl.resolve context r) ((decl.rename k.distances x y n).resolve context r')
  | ⟨_, params, body⟩, context, hf, hk, hc => by
    obtain ⟨hk₁, hc₁⟩ := hk.body hc
    have h₁ := (h.within (c := context) rfl).enter.introduceAll hf.2.1 hc₁
    rw [Token.map_renameAt_succ] at h₁
    have h₂ := (Stmt.resolveAll_rename hxy hx hy h₁ body hf.2.2 nofun hk₁ hc).leave
    exact h₂.within h.inFunction

theorem Stmt.resolveAll_rename {n : Nat} {r r' : Resolution} (hxy : x ≠ y) (hx : IsName x)
    (hy : IsName y) (h : Renamed x y n r r') : (body : List Stmt) → Stmt.AllFormed (· ≠ y) body →
      (n = 0 → ∀ s ∈ body, s.Spares x) →
      Records k (Stmt.allMentions body) r (Stmt.resolveAll body r) →
      (Stmt.resolveAll body r).errors = [] →
      Renamed x y n (Stmt.resolveAll body r)
        (Stmt.resolveAll (Stmt.renameAll k.distances x y n body) r')
  | [], _, _, _, _ => h
  | s :: rest, hf, hspares, hk, hc => by
    have hrest := Stmt.resolveAll_leads rest (s.resolve r)
    obtain ⟨hk₁, hk₂⟩ := hk.split (s.resolve_leads r) hrest
    have h₁ := s.resolve_rename hxy hx hy h hf.1 (fun hn => hspares hn s List.mem_cons_self) hk₁
      (hrest.clean hc)
    exact Stmt.resolveAll_rename hxy hx hy h₁ rest hf.2
      (fun hn t ht => hspares hn t (List.mem_cons_of_mem _ ht)) hk₂ hc

theorem FunctionDecl.resolveAll_rename {n : Nat} {r r' : Resolution} (hxy : x ≠ y) (hx : IsName x)
    (hy : IsName y) (h : Renamed x y n r r') : (methods : List FunctionDecl) →
      FunctionDecl.AllFormed (· ≠ y) methods →
      Records k (FunctionDecl.allMentions methods) r (FunctionDecl.resolveAll methods r) →
      (FunctionDecl.resolveAll methods r).errors = [] →
      Renamed x y n (FunctionDecl.resolveAll methods r)
        (FunctionDecl.resolveAll (FunctionDecl.renameAll k.distances x y n methods) r')
  | [], _, _, _ => h
  | m :: rest, hf, hk, hc => by
    have hrest := FunctionDecl.resolveAll_leads rest
      (m.resolve (if m.isInitializer then .initializer else .method) r)
    obtain ⟨hk₁, hk₂⟩ := hk.split (m.resolve_leads _ r) hrest
    have h₁ := m.resolve_rename hxy hx hy h _ hf.1 hk₁ (hrest.clean hc)
    cases m
    exact FunctionDecl.resolveAll_rename hxy hx hy h₁ rest hf.2 hk₂ hc

end

/-! ## Around the scope of the variable -/

namespace Resolution

variable {r : Resolution}

theorem Lacks.enter (h : Lacks y r.scopes) : Lacks y r.enter.scopes :=
  List.forall_mem_cons.2 ⟨rfl, h⟩

theorem Lacks.resolve_expr (h : Lacks y r.scopes) (e : Expr) : Lacks y (e.resolve r).scopes :=
  (e.resolve_stays r).scopes ▸ h

/-- A statement in which a name does not occur does not declare it. -/
theorem Lacks.resolve (hxy : x ≠ y) (hx : IsName x) (hy : IsName y) (h : Lacks y r.scopes)
    {s : Stmt} (hf : s.Formed (· ≠ y)) (hk : Records k s.mentions r (s.resolve r))
    (hc : (s.resolve r).errors = []) : Lacks y (s.resolve r).scopes :=
  (s.resolve_rename hxy hx hy (.self h) hf nofun hk hc).lacks

end Resolution

mutual

theorem Stmt.Renames.resolve_eq {around : Surroundings} {r : Resolution} (hxy : x ≠ y)
    (hx : IsName x) (hy : IsName y) (hl : Lacks y r.scopes) {s s' : Stmt} :
    s.Renames k.distances x y s' → s.Scoped k around → s.Formed (· ≠ y) →
      Records k s.mentions r (s.resolve r) → (s.resolve r).errors = [] → s'.resolve r = s.resolve r
  | .here hdeclares, hs, hf, hk, hc =>
    (Stmt.resolveAll_rename hxy hx hy (.start hl) _ hf
      (fun _ => Stmt.AllScoped.spares hs (.inr hdeclares)) hk.enclosed hc).leave_eq
  | .block h, hs, hf, hk, hc =>
    congrArg leave (h.resolve_eq hxy hx hy hl.enter hs hf hk.enclosed hc)
  | .ifThen condition h, hs, hf, hk, hc =>
    h.resolve_eq hxy hx hy (hl.resolve_expr condition) hs.2.1 hf.2.1
      (hk.split (condition.resolve_leads r) (Stmt.resolve_leads _ _)).2 hc
  | @Stmt.Renames.thenBranch _ _ _ condition thenBranch _ elseBranch h, hs, hf, hk, hc => by
    have helse := elseBranch.resolve_leads (thenBranch.resolve (condition.resolve r))
    have hthen := thenBranch.resolve_leads (condition.resolve r)
    have hk₁ := (hk.split (condition.resolve_leads r) (hthen.trans helse)).2
    exact congrArg elseBranch.resolve (h.resolve_eq hxy hx hy (hl.resolve_expr condition) hs.2.1.1
      hf.2.1.1 (hk₁.split hthen helse).1 (helse.clean hc))
  | @Stmt.Renames.elseBranch _ _ _ condition thenBranch elseBranch _ h, hs, hf, hk, hc => by
    have helse := elseBranch.resolve_leads (thenBranch.resolve (condition.resolve r))
    have hthen := thenBranch.resolve_leads (condition.resolve r)
    have hk₁ := (hk.split (condition.resolve_leads r) (hthen.trans helse)).2
    obtain ⟨hk₂, hk₃⟩ := hk₁.split hthen helse
    exact h.resolve_eq hxy hx hy
      ((hl.resolve_expr condition).resolve hxy hx hy hf.2.1.1 hk₂ (helse.clean hc))
      hs.2.2.1 hf.2.2.1 hk₃ hc
  | .whileDo condition h, hs, hf, hk, hc =>
    h.resolve_eq hxy hx hy (hl.resolve_expr condition) hs.2.1 hf.2.1
      (hk.split (condition.resolve_leads r) (Stmt.resolve_leads _ _)).2 hc
  | @Stmt.Renames.funDecl _ _ _ decl _ h, hs, hf, hk, hc => by
    have hdecl := decl.resolve_leads .function (r.introduce decl.name)
    have h₁ := (Renamed.self hl (x := x)).introduce (decl.name_of_formed hf) (hdecl.clean hc)
    have hsame := h.resolve_eq hxy hx hy h₁.lacks .function hs.2.2 hf
      (hk.inner (introduce_leads r decl.name) (.refl _)) hc
    simpa only [Stmt.resolve, h.name_eq] using hsame
  | @Stmt.Renames.classDecl _ _ _ name none methods _ h, hs, hf, hk, hc => by
    obtain ⟨hk₁, hc₁⟩ := hk.methods hc
    have h₁ := (Renamed.self (r := { r with inClass := .plain }) hl (x := x)).introduce hf.1 hc₁
    have h₂ := h₁.enter.put hy.ne_this.symm .defined
    have hsame := h.resolve_eq hxy hx hy h₂.lacks hs.2.2.2 hf.2.2 hk₁ hc
    exact congrArg (fun r' : Resolution => { r'.leave with inClass := r.inClass }) hsame
  | @Stmt.Renames.classDecl _ _ _ name (some parent) methods _ h, hs, hf, hk, hc => by
    obtain ⟨⟨hk₁, hk₂⟩, hc₂, hc₁⟩ := hk.inherited hc
    have h₁ := (Renamed.self (r := { r with inClass := .plain }) hl (x := x)).introduce hf.1 hc₁
    have h₂ := h₁.inherit hxy hf.1 (hf.2.1 parent rfl) hk₁ hc₂
    have h₃ := (h₂.enter.put hy.ne_super.symm .defined).enter.put hy.ne_this.symm .defined
    have hsame := h.resolve_eq hxy hx hy h₃.lacks hs.2.2.2 hf.2.2 hk₂ hc
    exact congrArg (fun r' : Resolution => { r'.leave.leave with inClass := r.inClass }) hsame

theorem FunctionDecl.Renames.resolve_eq {around : Surroundings} {r : Resolution} (hxy : x ≠ y)
    (hx : IsName x) (hy : IsName y) (hl : Lacks y r.scopes) {decl decl' : FunctionDecl}
    (context : FunctionContext) : decl.Renames k.distances x y decl' → decl.Scoped k around →
      decl.Formed (· ≠ y) → Records k decl.mentions r (decl.resolve context r) →
      (decl.resolve context r).errors = [] → decl'.resolve context r = decl.resolve context r
  | @FunctionDecl.Renames.here _ _ _ _ params body hdeclares, hs, hf, hk, hc => by
    let r₀ : Resolution := { r with inFunction := context }
    obtain ⟨hk₁, hc₁⟩ := hk.body hc
    have h₁ := (Renamed.start (r := r₀) hl (x := x)).introduceAll hf.2.1 hc₁
    have hsame := (Stmt.resolveAll_rename hxy hx hy h₁ body hf.2.2
      (fun _ => hs.2.2.spares hdeclares) hk₁ hc).leave_eq
    exact congrArg (fun r' : Resolution => { r' with inFunction := r.inFunction }) hsame
  | @FunctionDecl.Renames.body _ _ _ _ params body _ h, hs, hf, hk, hc => by
    let r₀ : Resolution := { r with inFunction := context }
    obtain ⟨hk₁, hc₁⟩ := hk.body hc
    have h₁ := (Renamed.start (r := r₀) hl (x := x)).introduceAll hf.2.1 hc₁
    have hsame := h.resolve_eq hxy hx hy h₁.lacks hs.2.2 hf.2.2 hk₁ hc
    exact congrArg (fun r' : Resolution => { r'.leave with inFunction := r.inFunction }) hsame

theorem Stmt.AllRenames.resolve_eq {around : Surroundings} {r : Resolution} (hxy : x ≠ y)
    (hx : IsName x) (hy : IsName y) (hl : Lacks y r.scopes) {body body' : List Stmt} :
    Stmt.AllRenames k.distances x y body body' → Stmt.AllScoped k around body →
      Stmt.AllFormed (· ≠ y) body → Records k (Stmt.allMentions body) r (Stmt.resolveAll body r) →
      (Stmt.resolveAll body r).errors = [] → Stmt.resolveAll body' r = Stmt.resolveAll body r
  | @Stmt.AllRenames.head _ _ _ s _ rest h, hs, hf, hk, hc => by
    have hrest := Stmt.resolveAll_leads rest (s.resolve r)
    exact congrArg (Stmt.resolveAll rest) (h.resolve_eq hxy hx hy hl hs.1 hf.1
      (hk.split (s.resolve_leads r) hrest).1 (hrest.clean hc))
  | @Stmt.AllRenames.tail _ _ _ s rest _ h, hs, hf, hk, hc => by
    have hrest := Stmt.resolveAll_leads rest (s.resolve r)
    obtain ⟨hk₁, hk₂⟩ := hk.split (s.resolve_leads r) hrest
    exact h.resolve_eq hxy hx hy (hl.resolve hxy hx hy hf.1 hk₁ (hrest.clean hc)) hs.2 hf.2 hk₂ hc

theorem FunctionDecl.AllRenames.resolve_eq {around : Surroundings} {r : Resolution} (hxy : x ≠ y)
    (hx : IsName x) (hy : IsName y) (hl : Lacks y r.scopes) {methods methods' : List FunctionDecl} :
    FunctionDecl.AllRenames k.distances x y methods methods' →
      FunctionDecl.AllScoped k around methods → FunctionDecl.AllFormed (· ≠ y) methods →
      Records k (FunctionDecl.allMentions methods) r (FunctionDecl.resolveAll methods r) →
      (FunctionDecl.resolveAll methods r).errors = [] →
      FunctionDecl.resolveAll methods' r = FunctionDecl.resolveAll methods r
  | @FunctionDecl.AllRenames.head _ _ _ m m' rest h, hs, hf, hk, hc => by
    have hrest := FunctionDecl.resolveAll_leads rest
      (m.resolve (if m.isInitializer then .initializer else .method) r)
    have hsame := h.resolve_eq hxy hx hy hl (if m.isInitializer then .initializer else .method) hs.1
      hf.1 (hk.split (m.resolve_leads _ r) hrest).1 (hrest.clean hc)
    have hinit : m'.isInitializer = m.isInitializer := by
      unfold FunctionDecl.isInitializer
      rw [h.name_eq]
    simp only [FunctionDecl.resolveAll, hinit, hsame]
  | @FunctionDecl.AllRenames.tail _ _ _ m rest _ h, hs, hf, hk, hc => by
    have hrest := FunctionDecl.resolveAll_leads rest
      (m.resolve (if m.isInitializer then .initializer else .method) r)
    obtain ⟨hk₁, hk₂⟩ := hk.split (m.resolve_leads _ r) hrest
    have h₁ := m.resolve_rename hxy hx hy (.self hl) _ hf.1 hk₁ (hrest.clean hc)
    exact h.resolve_eq hxy hx hy h₁.lacks hs.2 hf.2 hk₂ hc

end

/-- A renamed program resolves to the same distances. -/
theorem resolve_renamed {statements statements' : List Stmt} {distances : Distances}
    {n n' : Nat} (hxy : x ≠ y) (hx : IsName x) (hy : IsName y)
    (h : Stmt.AllRenames distances x y statements statements')
    (hresolve : resolve statements = .ok distances)
    (hs : Stmt.AllScoped ⟨distances, n'⟩ [] statements) (hf : Stmt.AllFormed (· ≠ y) statements)
    (hn : Numbered n (Stmt.allMentions statements) n') : resolve statements' = .ok distances := by
  have hlacks : Lacks y Resolution.start.scopes := List.forall_mem_nil _
  simp only [resolve] at hresolve ⊢
  split at hresolve
  · next hclean =>
    cases hresolve
    have hk : Records ⟨(Stmt.resolveAll statements Resolution.start).distances, n'⟩
        (Stmt.allMentions statements) Resolution.start
        (Stmt.resolveAll statements Resolution.start) :=
      ⟨hn.nodup, fun o ho => (hn.within o ho).2, fun o _ => by simp [Resolution.start],
        fun _ _ => rfl⟩
    have hsame := Stmt.AllRenames.resolve_eq hxy hx hy hlacks h hs hf hk (List.isEmpty_iff.1 hclean)
    rw [hsame, if_pos hclean]
  · cases hresolve

end LoxLang
