import LoxLang.Proofs.Scoping.Walk

/-!
# Resolution traces all mentions

If a resolution finds no fault in a tree, then the distances it records are right for every mention
in it.

1. `Stmt.scoped_of_resolve`: statements.
2. `scoped_of_resolve`: programs.
-/

namespace LoxLang

open Resolution

namespace Surroundings

theorem locate?_cons (names : List String) (around : Surroundings) (x : String) :
    locate? (names :: around) x =
      if x ∈ names then some 0 else (locate? around x).map (· + 1) := by
  simp only [locate?, List.findIdx?_cons]
  by_cases h : x ∈ names <;> simp [h]

theorem locate?_declare (around : Surroundings) {name x : String} (h : x ≠ name) :
    (around.declare name).locate? x = around.locate? x := by
  cases around with
  | nil => rfl
  | cons names outer => simp [declare, locate?_cons, h]

/-- Inside a class body `this` is bound, and with a superclass `super` right outside of it. -/
def Fits (around : Surroundings) : ClassContext → Prop
  | .outside => True
  | .plain => (around.locate? "this").isSome
  | .subclass => ∃ d, around.locate? "this" = some d ∧ around.locate? "super" = some (d + 1)

theorem Fits.declare {around : Surroundings} {c : ClassContext} (h : around.Fits c) {name : String}
    (hname : IsName name) : (around.declare name).Fits c := by
  cases c with
  | outside => trivial
  | plain => simpa [Fits, locate?_declare _ hname.ne_this.symm] using h
  | subclass =>
    simpa [Fits, locate?_declare _ hname.ne_this.symm,
      locate?_declare _ hname.ne_super.symm] using h

theorem Fits.inside {around : Surroundings} {c : ClassContext} (h : around.Fits c)
    {names : List String} (hnames : ∀ x ∈ names, IsName x) : Fits (names :: around) c := by
  have hthis : "this" ∉ names := fun hm => (hnames _ hm).ne_this rfl
  have hsuper : "super" ∉ names := fun hm => (hnames _ hm).ne_super rfl
  cases c with
  | outside => trivial
  | plain => simpa [Fits, locate?_cons, hthis] using h
  | subclass =>
    obtain ⟨d, hd, hd'⟩ := h
    exact ⟨d + 1, by simp [locate?_cons, hthis, hd], by simp [locate?_cons, hsuper, hd']⟩

end Surroundings

namespace Resolution

/-- Of these mentions nothing was recorded before `r`, and what is recorded at `r'` is known. -/
structure Records (k : Knowledge) (os : List Occurrence) (r r' : Resolution) : Prop where
  nodup : (os.map Occurrence.id).Nodup
  known : ∀ o ∈ os, o.id < k.limit
  fresh : ∀ o ∈ os, r.distances[o.id]? = none
  agree : ∀ o ∈ os, k.distances[o.id]? = r'.distances[o.id]?

namespace Records

variable {k : Knowledge} {os os' : List Occurrence} {r r₁ r₂ : Resolution}

theorem swap (h : Records k (os ++ os') r r₂) : Records k (os' ++ os) r r₂ where
  nodup := by
    have hp : ((os ++ os').map Occurrence.id).Perm ((os' ++ os).map Occurrence.id) :=
      List.perm_append_comm.map _
    exact hp.nodup_iff.1 h.nodup
  known := fun o ho => h.known o (by simpa [or_comm] using ho)
  fresh := fun o ho => h.fresh o (by simpa [or_comm] using ho)
  agree := fun o ho => h.agree o (by simpa [or_comm] using ho)

/-- The records of two parts are apart, and the walk over one leaves those of the other alone. -/
theorem split (h : Records k (os ++ os') r r₂) (h₁ : Leads os r r₁) (h₂ : Leads os' r₁ r₂) :
    Records k os r r₁ ∧ Records k os' r₁ r₂ := by
  have hn := h.nodup
  rw [List.map_append, List.nodup_append] at hn
  have happart : ∀ o ∈ os, ∀ o' ∈ os', o.id ≠ o'.id := fun o ho o' ho' =>
    hn.2.2 o.id (List.mem_map_of_mem ho) o'.id (List.mem_map_of_mem ho')
  refine ⟨⟨hn.1, ?_, ?_, ?_⟩, hn.2.1, ?_, ?_, ?_⟩
  · exact fun o ho => h.known o (List.mem_append_left _ ho)
  · exact fun o ho => h.fresh o (List.mem_append_left _ ho)
  · intro o ho
    rw [h.agree o (List.mem_append_left _ ho)]
    refine h₂.distances _ fun hm => ?_
    obtain ⟨o', ho', he⟩ := List.mem_map.1 hm
    exact happart o ho o' ho' he.symm
  · exact fun o ho => h.known o (List.mem_append_right _ ho)
  · intro o ho
    rw [← h.fresh o (List.mem_append_right _ ho)]
    refine h₁.distances _ fun hm => ?_
    obtain ⟨o', ho', he⟩ := List.mem_map.1 hm
    exact happart o' ho' o ho he
  · exact fun o ho => h.agree o (List.mem_append_right _ ho)

/-- What records nothing may come first or last. -/
theorem inner (h : Records k os r r₂) {r' r₂' : Resolution} (h₁ : Leads [] r r')
    (h₂ : Leads [] r₂' r₂) : Records k os r' r₂' where
  nodup := h.nodup
  known := h.known
  fresh := fun o ho => (h₁.distances _ (by simp)).trans (h.fresh o ho)
  agree := fun o ho => (h.agree o ho).trans (h₂.distances _ (by simp))

theorem enclosed {r' : Resolution} (h : Records k os r r'.leave) : Records k os r.enter r' :=
  ⟨h.nodup, h.known, h.fresh, h.agree⟩

theorem traces {o : Occurrence} (h : Records k [o] r (r.refer o)) : k.Traces r.around o := by
  refine ⟨h.known o (by simp), (h.agree o (by simp)).trans ?_⟩
  unfold refer
  rw [locate?_scopes]
  split
  · next d hd => simp [hd]
  · next hd => rw [hd, h.fresh o (by simp)]

end Records

/-! ## Walks into functions and classes -/

namespace Records

variable {k : Knowledge} {r : Resolution} {name : Token}

/-- The walk over a body begins behind the parameters. -/
theorem body {context : FunctionContext} {params : List Token} {body : List Stmt}
    (hk : Records k (FunctionDecl.mentions ⟨name, params, body⟩) r
      (FunctionDecl.resolve context ⟨name, params, body⟩ r))
    (hc : (FunctionDecl.resolve context ⟨name, params, body⟩ r).errors = []) :
    let inside := params.foldl introduce (enter { r with inFunction := context })
    Records k (Stmt.allMentions body) inside (Stmt.resolveAll body inside) ∧
      inside.errors = [] := by
  intro inside
  have hk₀ : Records k (Stmt.allMentions body) (enter { r with inFunction := context })
      (Stmt.resolveAll body inside) := ⟨hk.nodup, hk.known, hk.fresh, hk.agree⟩
  exact ⟨hk₀.inner (introduceAll_leads params _) (.refl _),
    (Stmt.resolveAll_leads body inside).clean hc⟩

/-- The walk over the methods of a class begins inside the scope that has `this`. -/
theorem methods {methods : List FunctionDecl}
    (hk : Records k (Stmt.mentions (.classDecl name none methods)) r
      (Stmt.resolve (.classDecl name none methods) r))
    (hc : (Stmt.resolve (.classDecl name none methods) r).errors = []) :
    let declared := introduce { r with inClass := .plain } name
    let inside := declared.enter.put "this" .defined
    Records k (FunctionDecl.allMentions methods) inside (FunctionDecl.resolveAll methods inside) ∧
      declared.errors = [] := by
  intro declared inside
  have hthis := put_leads declared.enter "this" .defined
  have hmethods := FunctionDecl.resolveAll_leads methods inside
  have hk₀ : Records k (FunctionDecl.allMentions methods) { r with inClass := .plain }
      (FunctionDecl.resolveAll methods inside).leave := ⟨hk.nodup, hk.known, hk.fresh, hk.agree⟩
  exact ⟨(hk₀.inner (introduce_leads _ name) (.refl _)).enclosed.inner hthis (.refl _),
    (hthis.trans hmethods).clean hc⟩

/-- With a superclass there is a scope between, which has `super`. -/
theorem inherited {parent : Occurrence} {methods : List FunctionDecl}
    (hk : Records k (Stmt.mentions (.classDecl name (some parent) methods)) r
      (Stmt.resolve (.classDecl name (some parent) methods) r))
    (hc : (Stmt.resolve (.classDecl name (some parent) methods) r).errors = []) :
    let declared := introduce { r with inClass := .plain } name
    let inherited := declared.inherit name parent
    let inside := (inherited.enter.put "super" .defined).enter.put "this" .defined
    (Records k [parent] declared inherited ∧
      Records k (FunctionDecl.allMentions methods) inside
        (FunctionDecl.resolveAll methods inside)) ∧
      inherited.errors = [] ∧ declared.errors = [] := by
  intro declared inherited inside
  have hparent := inherit_leads declared name parent
  have hsuper := put_leads inherited.enter "super" .defined
  have hthis := put_leads (inherited.enter.put "super" .defined).enter "this" .defined
  have hbody := hsuper.trans (hthis.trans (FunctionDecl.resolveAll_leads methods inside)).enclosed
  have hk₀ : Records k ([parent] ++ FunctionDecl.allMentions methods) { r with inClass := .plain }
      (FunctionDecl.resolveAll methods inside).leave.leave :=
    ⟨hk.nodup, hk.known, hk.fresh, hk.agree⟩
  obtain ⟨hk₁, hk₂⟩ := (hk₀.inner (introduce_leads _ name) (.refl _)).split hparent hbody.enclosed
  have hclean := hbody.clean hc
  exact ⟨⟨hk₁, (hk₂.enclosed.inner hsuper (.refl _)).enclosed.inner hthis (.refl _)⟩, hclean,
    hparent.clean hclean⟩

end Records

/-! ## Expressions -/

/-- The place of an expression: the pending variable is one that the walk knows to be, and the class
around is one of the scopes around. -/
structure Ready (pending : Option String) (r : Resolution) : Prop where
  initializing : ∀ x, pending = some x → r.initializing x
  fits : r.around.Fits r.inClass

theorem Ready.stays {pending : Option String} {r r' : Resolution} (h : Ready pending r)
    (hs : Stays r r') : Ready pending r' where
  initializing := by
    intro x hx
    have hr := h.initializing x hx
    unfold Resolution.initializing at hr ⊢
    rwa [hs.scopes]
  fits := by
    rw [hs.around, hs.inClass]
    exact h.fits

theorem not_clean_report (r : Resolution) (t : Token) (fault : ScopingFault) :
    (r.report t fault).errors ≠ [] := by
  simp [report]

variable {k : Knowledge} {pending : Option String} {r : Resolution} {o : Occurrence}

theorem traces_of_read (hk : Records k [o] r (r.read o)) (hc : (r.read o).errors = []) :
    k.Traces r.around o ∧ ¬r.initializing o.name := by
  unfold read at hk hc
  split at hc
  · exact absurd ((refer_leads _ o).clean hc) (not_clean_report _ _ _)
  · next hi =>
    rw [if_neg hi] at hk
    exact ⟨hk.traces, hi⟩

theorem scoped_of_read (hr : Ready pending r) (hk : Records k [o] r (r.read o))
    (hc : (r.read o).errors = []) : k.Traces r.around o ∧ pending ≠ some o.name := by
  obtain ⟨ht, hi⟩ := traces_of_read hk hc
  exact ⟨ht, fun he => hi (hr.initializing _ he)⟩

theorem scoped_of_this (hr : Ready pending r) (hk : Records k [o] r (r.this o))
    (hc : (r.this o).errors = []) : k.Traces r.around o ∧ (r.around.locate? "this").isSome := by
  have hfits := hr.fits
  unfold this at hk hc
  cases hcl : r.inClass with
  | outside =>
    simp only [hcl] at hc
    exact absurd hc (not_clean_report _ _ _)
  | plain =>
    simp only [hcl] at hk hfits
    exact ⟨hk.traces, hfits⟩
  | subclass =>
    simp only [hcl] at hk hfits
    obtain ⟨d, hd, -⟩ := hfits
    exact ⟨hk.traces, by simp [hd]⟩

theorem scoped_of_super (hr : Ready pending r) (hk : Records k [o] r (r.super o))
    (hc : (r.super o).errors = []) :
    k.Traces r.around o ∧
      ∃ d, r.around.locate? "this" = some d ∧ r.around.locate? "super" = some (d + 1) := by
  have hfits := hr.fits
  unfold super at hk hc
  cases hcl : r.inClass with
  | outside =>
    simp only [hcl] at hc
    exact absurd ((refer_leads _ o).clean hc) (not_clean_report _ _ _)
  | plain =>
    simp only [hcl] at hc
    exact absurd ((refer_leads _ o).clean hc) (not_clean_report _ _ _)
  | subclass =>
    simp only [hcl] at hk hfits
    exact ⟨hk.traces, hfits⟩

/-- An expression and then something else: what is known about both is known about each. -/
theorem Ready.first {e : Expr} {os : List Occurrence} {r' : Resolution} (hr : Ready pending r)
    (hk : Records k (e.mentions ++ os) r r') (hl : Leads os (e.resolve r) r')
    (hc : r'.errors = []) :
    Records k e.mentions r (e.resolve r) ∧ (e.resolve r).errors = [] ∧
      Ready pending (e.resolve r) ∧ Records k os (e.resolve r) r' ∧
        (e.resolve r).around = r.around := by
  obtain ⟨hk₁, hk₂⟩ := hk.split (e.resolve_leads r) hl
  exact ⟨hk₁, hl.clean hc, hr.stays (e.resolve_stays r), hk₂, (e.resolve_stays r).around⟩

end Resolution

variable {k : Knowledge} {pending : Option String}

mutual

theorem Expr.scoped_of_resolve : (e : Expr) → (r : Resolution) → e.Formed IsName → Ready pending r →
    Records k e.mentions r (e.resolve r) → (e.resolve r).errors = [] →
      e.Scoped k r.around pending
  | .literal _, _, _, _, _, _ => trivial
  | .grouping inner, r, hf, hr, hk, hc => inner.scoped_of_resolve r hf hr hk hc
  | .unary _ operand, r, hf, hr, hk, hc => operand.scoped_of_resolve r hf hr hk hc
  | .binary left _ right, r, hf, hr, hk, hc => by
    obtain ⟨hk₁, hc₁, hr₁, hk₂, ha⟩ := hr.first hk (right.resolve_leads _) hc
    have hright := right.scoped_of_resolve _ hf.2 hr₁ hk₂ hc
    exact ⟨left.scoped_of_resolve r hf.1 hr hk₁ hc₁, ha ▸ hright⟩
  | .logical left _ right, r, hf, hr, hk, hc => by
    obtain ⟨hk₁, hc₁, hr₁, hk₂, ha⟩ := hr.first hk (right.resolve_leads _) hc
    have hright := right.scoped_of_resolve _ hf.2 hr₁ hk₂ hc
    exact ⟨left.scoped_of_resolve r hf.1 hr hk₁ hc₁, ha ▸ hright⟩
  | .var _, r, _, hr, hk, hc => scoped_of_read hr hk hc
  | .assign target value, r, hf, hr, hk, hc => by
    obtain ⟨hk₁, hc₁, _, hk₂, ha⟩ := hr.first hk (refer_leads _ target) hc
    exact ⟨value.scoped_of_resolve r hf.2 hr hk₁ hc₁, ha ▸ hk₂.traces⟩
  | .call callee _ arguments, r, hf, hr, hk, hc => by
    obtain ⟨hk₁, hc₁, hr₁, hk₂, ha⟩ := hr.first hk (Expr.resolveAll_leads arguments _) hc
    have harguments := Expr.allScoped_of_resolve arguments _ hf.2 hr₁ hk₂ hc
    exact ⟨callee.scoped_of_resolve r hf.1 hr hk₁ hc₁, ha ▸ harguments⟩
  | .get object _, r, hf, hr, hk, hc => object.scoped_of_resolve r hf hr hk hc
  | .set object _ value, r, hf, hr, hk, hc => by
    obtain ⟨hk₁, hc₁, hr₁, hk₂, ha⟩ := hr.first hk.swap (object.resolve_leads _) hc
    have hobject := object.scoped_of_resolve _ hf.1 hr₁ hk₂ hc
    exact ⟨ha ▸ hobject, value.scoped_of_resolve r hf.2 hr hk₁ hc₁⟩
  | .this _, r, hf, hr, hk, hc => by
    have h := scoped_of_this hr hk hc
    exact ⟨h.1, hf, h.2⟩
  | .super _ _, r, hf, hr, hk, hc => by
    have h := scoped_of_super hr hk hc
    exact ⟨h.1, hf, h.2⟩

theorem Expr.allScoped_of_resolve : (es : List Expr) → (r : Resolution) → Expr.AllFormed IsName es →
    Ready pending r → Records k (Expr.allMentions es) r (Expr.resolveAll es r) →
      (Expr.resolveAll es r).errors = [] → Expr.AllScoped k r.around pending es
  | [], _, _, _, _, _ => trivial
  | e :: rest, r, hf, hr, hk, hc => by
    obtain ⟨hk₁, hc₁, hr₁, hk₂, ha⟩ := hr.first hk (Expr.resolveAll_leads rest _) hc
    have hrest := Expr.allScoped_of_resolve rest _ hf.2 hr₁ hk₂ hc
    exact ⟨e.scoped_of_resolve r hf.1 hr hk₁ hc₁, ha ▸ hrest⟩

end

/-! ## Declarations -/

namespace Resolution

theorem around_put_of_mem {r : Resolution} {name : String} {status : Status}
    (h : ∀ names ∈ r.around.head?, name ∈ names) : (r.put name status).around = r.around := by
  cases hs : r.scopes with
  | nil => simp [put, hs, around]
  | cons scope outer =>
    have hmem : name ∈ Bindings.names scope := h _ (by simp [around, hs])
    simp [put, hs, around, Bindings.names_put, Bindings.has_eq_contains, hmem]

/-- A declaration without a fault is one of a new name; until it is complete, the name is known to
be on the way. -/
theorem around_declare {r : Resolution} {t : Token} (hc : (r.declare t).errors = []) :
    r.around.Fresh t.lexeme ∧ (r.declare t).around = r.around.declare t.lexeme ∧
      ∀ x, r.around.pending t.lexeme = some x → (r.declare t).initializing x := by
  unfold declare at hc ⊢
  cases hs : r.scopes with
  | nil => simp [around, hs, Surroundings.Fresh, Surroundings.declare, Surroundings.pending]
  | cons scope outer =>
    simp only [hs] at hc
    split at hc
    · exact absurd hc (not_clean_report _ _ _)
    · next hnew =>
      have hfresh : t.lexeme ∉ Bindings.names scope := by
        simpa [Bindings.has_eq_contains] using hnew
      refine ⟨by simpa [around, hs, Surroundings.Fresh] using hfresh, ?_, ?_⟩
      · simp [hnew, put, hs, around, Bindings.names_put, Surroundings.declare]
      · intro x hx
        obtain rfl : t.lexeme = x := by simpa [around, hs, Surroundings.pending] using hx
        simp [hnew, initializing, put, hs, Bindings.get?_put]

theorem mem_head?_declare (around : Surroundings) (name : String) :
    ∀ names ∈ (around.declare name).head?, name ∈ names := by
  cases around <;> simp [Surroundings.declare]

theorem around_introduce {r : Resolution} {t : Token} (hc : (r.introduce t).errors = []) :
    r.around.Fresh t.lexeme ∧ (r.introduce t).around = r.around.declare t.lexeme := by
  obtain ⟨hfresh, ha, -⟩ := around_declare ((put_leads (r.declare t) t.lexeme .defined).clean hc)
  refine ⟨hfresh, ?_⟩
  unfold introduce define
  rw [around_put_of_mem (ha ▸ mem_head?_declare _ _), ha]

theorem around_introduceAll {r : Resolution} {names : List String} {outer : Surroundings}
    (params : List Token) (ha : r.around = names :: outer)
    (hc : (params.foldl introduce r).errors = []) :
    (params.foldl introduce r).around = (names ++ params.map Token.lexeme) :: outer ∧
      (params.map Token.lexeme).Nodup ∧ ∀ p ∈ params, p.lexeme ∉ names := by
  induction params generalizing r names with
  | nil => simpa using ha
  | cons p params ih =>
    obtain ⟨hfresh, hp⟩ := around_introduce ((introduceAll_leads params _).clean hc)
    rw [ha] at hfresh hp
    obtain ⟨hrest, hnodup, hnot⟩ := ih hp hc
    have hne : ∀ q ∈ params, q.lexeme ≠ p.lexeme := by
      intro q hq he
      exact hnot q hq (by simp [he])
    refine ⟨by simpa using hrest, ?_, ?_⟩
    · rw [List.map_cons, List.nodup_cons]
      refine ⟨?_, hnodup⟩
      intro hm
      obtain ⟨q, hq, he⟩ := List.mem_map.1 hm
      exact hne q hq he
    · intro q hq
      rcases List.mem_cons.1 hq with rfl | hq
      · exact hfresh
      · exact fun hm => hnot q hq (List.mem_append_left _ hm)

theorem put_inClass (r : Resolution) (name : String) (status : Status) :
    (r.put name status).inClass = r.inClass := by
  unfold put
  split <;> rfl

theorem declare_inClass (r : Resolution) (t : Token) : (r.declare t).inClass = r.inClass := by
  unfold declare
  split
  · rfl
  · split
    · rfl
    · exact put_inClass _ _ _

theorem introduce_inClass (r : Resolution) (t : Token) : (r.introduce t).inClass = r.inClass :=
  (put_inClass _ _ _).trans (declare_inClass r t)

theorem introduceAll_inClass (params : List Token) (r : Resolution) :
    (params.foldl introduce r).inClass = r.inClass := by
  induction params generalizing r with
  | nil => rfl
  | cons p params ih => exact (ih _).trans (introduce_inClass r p)

/-- What a part of a tree does to the place behind it. -/
structure Passes (around : Surroundings) (r r' : Resolution) : Prop where
  around : r'.around = around
  inClass : r'.inClass = r.inClass

theorem Passes.of_stays {r r' : Resolution} (h : Stays r r') : Passes r.around r r' :=
  ⟨h.around, h.inClass⟩

theorem ready_none {r : Resolution} (h : r.around.Fits r.inClass) : Ready none r :=
  ⟨by simp, h⟩

/-- Out of a scope, the scopes around it are as they were. -/
theorem around_leave {os : List Occurrence} {r r' : Resolution} (h : Leads os r.enter r') :
    r'.leave.around = r.around := by
  have houter : r'.scopes.tail = r.scopes := h.outer
  simp [leave, around, houter]

/-- An expression and then a statement. -/
theorem condition_scoped {k : Knowledge} {r r' : Resolution} {e : Expr} {os : List Occurrence}
    (hf : e.Formed IsName) (hfits : r.around.Fits r.inClass)
    (hk : Records k (e.mentions ++ os) r r') (hl : Leads os (e.resolve r) r')
    (hc : r'.errors = []) :
    e.Scoped k r.around none ∧ Records k os (e.resolve r) r' ∧
      (e.resolve r).around = r.around ∧ (e.resolve r).inClass = r.inClass := by
  obtain ⟨hk₁, hc₁, -, hk₂, ha⟩ := (ready_none hfits).first hk hl hc
  exact ⟨e.scoped_of_resolve r hf (ready_none hfits) hk₁ hc₁, hk₂, ha,
    (e.resolve_stays r).inClass⟩

/-- A superclass that is named without a fault is another class, and it is traced. -/
theorem scoped_of_inherit {k : Knowledge} {r : Resolution} {name : Token} {o : Occurrence}
    (hk : Records k [o] r (r.inherit name o)) (hc : (r.inherit name o).errors = []) :
    (o.name ≠ name.lexeme ∧ k.Traces r.around o) ∧ (r.inherit name o).around = r.around ∧
      (r.inherit name o).inClass = .subclass := by
  unfold inherit at hk hc ⊢
  split at hc
  · exact absurd ((read_leads _ o).clean hc) (not_clean_report _ _ _)
  · next hne =>
    rw [if_neg hne] at hk ⊢
    have ht := (traces_of_read (hk.inner (inClass_leads r .subclass) (.refl _)) hc).1
    have hs := read_stays { r with inClass := .subclass } o
    exact ⟨⟨hne, ht⟩, hs.around, hs.inClass⟩

theorem leaveFunction_eq {r : Resolution} {keyword : Token} {hasValue : Bool}
    (hc : (r.leaveFunction keyword hasValue).errors = []) :
    r.leaveFunction keyword hasValue = r := by
  unfold leaveFunction at hc ⊢
  split at hc
  · exact absurd hc (not_clean_report _ _ _)
  · exact absurd hc (not_clean_report _ _ _)
  · rfl

end Resolution

theorem Surroundings.after_of_declared? {s : Stmt} (h : s.declared? = none)
    (around : Surroundings) : s.after around = around := by
  cases s <;> simp_all [Stmt.declared?, Stmt.after]

theorem Surroundings.Fits.after {around : Surroundings} {c : ClassContext} (h : around.Fits c)
    {s : Stmt} (hs : s.Formed IsName) : (s.after around).Fits c := by
  cases s with
  | varDecl name initializer =>
    cases initializer with
    | none => exact h.declare hs
    | some value => exact h.declare hs.1
  | funDecl decl => exact h.declare (decl.name_of_formed hs)
  | classDecl name superclass methods => exact h.declare hs.1
  | _ => exact h

section

variable {k : Knowledge}

mutual

theorem Stmt.scoped_of_resolve : (s : Stmt) → (r : Resolution) → s.Formed IsName →
    r.around.Fits r.inClass → Records k s.mentions r (s.resolve r) → (s.resolve r).errors = [] →
      s.Scoped k r.around ∧ Passes (s.after r.around) r (s.resolve r)
  | .expression value, r, hf, hfits, hk, hc =>
    ⟨value.scoped_of_resolve r hf (ready_none hfits) hk hc, .of_stays (value.resolve_stays r)⟩
  | .print value, r, hf, hfits, hk, hc =>
    ⟨value.scoped_of_resolve r hf (ready_none hfits) hk hc, .of_stays (value.resolve_stays r)⟩
  | .varDecl name (some value), r, hf, hfits, hk, hc => by
    have hdefine := put_leads (value.resolve (r.declare name)) name.lexeme .defined
    have hstays := value.resolve_stays (r.declare name)
    have hc₂ := hdefine.clean hc
    obtain ⟨hfresh, ha, hpending⟩ := around_declare ((value.resolve_leads _).clean hc₂)
    have hready : Ready (r.around.pending name.lexeme) (r.declare name) :=
      ⟨hpending, by rw [ha, declare_inClass]; exact hfits.declare hf.1⟩
    have hvalue := value.scoped_of_resolve _ hf.2 hready
      (hk.inner (declare_leads r name) hdefine) hc₂
    have ha₂ := hstays.around.trans ha
    refine ⟨⟨hf.1, hfresh, ?_⟩, ?_, ?_⟩
    · rintro e ⟨⟩
      exact ha ▸ hvalue
    · exact (around_put_of_mem (ha₂ ▸ mem_head?_declare _ _)).trans ha₂
    · exact (put_inClass _ _ _).trans (hstays.inClass.trans (declare_inClass r name))
  | .varDecl name none, r, hf, hfits, hk, hc => by
    obtain ⟨hfresh, ha⟩ := around_introduce hc
    exact ⟨⟨hf, hfresh, by simp⟩, ha, introduce_inClass r name⟩
  | .block body, r, hf, hfits, hk, hc => by
    have hinside : Surroundings.Fits r.enter.around r.enter.inClass :=
      hfits.inside fun _ hx => absurd hx List.not_mem_nil
    obtain ⟨h, hi⟩ := Stmt.allScoped_of_resolve body r.enter hf hinside hk.enclosed hc
    exact ⟨h, around_leave (Stmt.resolveAll_leads body r.enter), hi⟩
  | .ifThen condition thenBranch, r, hf, hfits, hk, hc => by
    obtain ⟨hcondition, hk₁, ha, hi⟩ := condition_scoped hf.1 hfits hk
      (thenBranch.resolve_leads _) hc
    obtain ⟨hthen, hp⟩ := thenBranch.scoped_of_resolve _ hf.2.1 (by rw [ha, hi]; exact hfits) hk₁ hc
    have hafter := Surroundings.after_of_declared? hf.2.2 r.around
    rw [ha] at hthen hp
    exact ⟨⟨hcondition, hthen, hafter⟩, hp.around.trans hafter, hp.inClass.trans hi⟩
  | .ifElse condition thenBranch elseBranch, r, hf, hfits, hk, hc => by
    have helse := elseBranch.resolve_leads (thenBranch.resolve (condition.resolve r))
    have hbranches := (thenBranch.resolve_leads (condition.resolve r)).trans helse
    obtain ⟨hcondition, hk₁, ha, hi⟩ := condition_scoped hf.1 hfits hk hbranches hc
    obtain ⟨hk₂, hk₃⟩ := hk₁.split (thenBranch.resolve_leads _) helse
    obtain ⟨h, hp⟩ := thenBranch.scoped_of_resolve _ hf.2.1.1 (by rw [ha, hi]; exact hfits) hk₂
      (helse.clean hc)
    have hafter := Surroundings.after_of_declared? hf.2.1.2 r.around
    have hafter' := Surroundings.after_of_declared? hf.2.2.2 r.around
    rw [ha] at h hp
    have ha' := hp.around.trans hafter
    have hi' := hp.inClass.trans hi
    obtain ⟨h', hp'⟩ := elseBranch.scoped_of_resolve _ hf.2.2.1 (by rw [ha', hi']; exact hfits) hk₃
      hc
    rw [ha'] at h' hp'
    exact ⟨⟨hcondition, ⟨h, hafter⟩, h', hafter'⟩, hp'.around.trans hafter',
      hp'.inClass.trans hi'⟩
  | .whileDo condition body, r, hf, hfits, hk, hc => by
    obtain ⟨hcondition, hk₁, ha, hi⟩ := condition_scoped hf.1 hfits hk (body.resolve_leads _) hc
    obtain ⟨hbody, hp⟩ := body.scoped_of_resolve _ hf.2.1 (by rw [ha, hi]; exact hfits) hk₁ hc
    have hafter := Surroundings.after_of_declared? hf.2.2 r.around
    rw [ha] at hbody hp
    exact ⟨⟨hcondition, hbody, hafter⟩, hp.around.trans hafter, hp.inClass.trans hi⟩
  | .funDecl decl, r, hf, hfits, hk, hc => by
    obtain ⟨hfresh, ha⟩ := around_introduce ((decl.resolve_leads .function _).clean hc)
    have hi := introduce_inClass r decl.name
    have hname := FunctionDecl.name_of_formed decl hf
    obtain ⟨h, hp⟩ := decl.scoped_of_resolve .function (r.introduce decl.name) hf
      (by rw [ha, hi]; exact hfits.declare hname) (hk.inner (introduce_leads r decl.name) (.refl _))
      hc
    rw [ha] at h hp
    exact ⟨⟨hname, hfresh, h⟩, hp.around, hp.inClass.trans hi⟩
  | .ret keyword (some value), r, hf, hfits, hk, hc => by
    have hsame := leaveFunction_eq ((value.resolve_leads _).clean hc)
    simp only [Stmt.resolve, hsame] at hk hc ⊢
    refine ⟨?_, .of_stays (value.resolve_stays r)⟩
    rintro e ⟨⟩
    exact value.scoped_of_resolve r hf (ready_none hfits) hk hc
  | .ret keyword none, r, hf, hfits, hk, hc => by
    have hsame : (Stmt.ret keyword none).resolve r = r := leaveFunction_eq hc
    rw [hsame]
    exact ⟨by simp [Stmt.Scoped], rfl, rfl⟩
  | .classDecl name none methods, r, hf, hfits, hk, hc => by
    let r₀ : Resolution := { r with inClass := .plain }
    let r₁ := r₀.introduce name
    let r₂ := r₁.enter.put "this" .defined
    have hbody := (put_leads r₁.enter "this" .defined).trans
      (FunctionDecl.resolveAll_leads methods r₂)
    obtain ⟨hk₂, hc₁⟩ := hk.methods hc
    obtain ⟨hfresh, ha⟩ := around_introduce hc₁
    have ha₂ : r₂.around = ["this"] :: r.around.declare name.lexeme :=
      congrArg (["this"] :: ·) ha
    have hi₂ : r₂.inClass = .plain := (put_inClass _ _ _).trans (introduce_inClass r₀ name)
    have hfits₂ : r₂.around.Fits r₂.inClass := by
      rw [ha₂, hi₂]
      simp [Surroundings.Fits, Surroundings.locate?_cons]
    obtain ⟨h, -⟩ := FunctionDecl.allScoped_of_resolve methods r₂ hf.2.2 hfits₂ hk₂ hc
    rw [ha₂] at h
    exact ⟨⟨hf.1, hfresh, by simp, h⟩, (around_leave hbody).trans ha, rfl⟩
  | .classDecl name (some parent) methods, r, hf, hfits, hk, hc => by
    let r₀ : Resolution := { r with inClass := .plain }
    let r₁ := r₀.introduce name
    let r₂ := r₁.inherit name parent
    let r₃ := r₂.enter.put "super" .defined
    let r₄ := r₃.enter.put "this" .defined
    have hbody := (put_leads r₂.enter "super" .defined).trans
      ((put_leads r₃.enter "this" .defined).trans
        (FunctionDecl.resolveAll_leads methods r₄)).enclosed
    obtain ⟨⟨hk₁, hk₄⟩, hc₂, hc₁⟩ := hk.inherited hc
    obtain ⟨hparent, ha₂, hi₂⟩ := scoped_of_inherit hk₁ hc₂
    obtain ⟨hfresh, ha₁⟩ := around_introduce hc₁
    rw [ha₁] at hparent ha₂
    have ha₄ : r₄.around = ["this"] :: ["super"] :: r.around.declare name.lexeme :=
      congrArg (["this"] :: ["super"] :: ·) ha₂
    have hi₃ : r₃.inClass = .subclass := (put_inClass _ _ _).trans hi₂
    have hi₄ : r₄.inClass = .subclass := (put_inClass _ _ _).trans hi₃
    have hfits₄ : r₄.around.Fits r₄.inClass := by
      rw [ha₄, hi₄]
      simp [Surroundings.Fits, Surroundings.locate?_cons]
    obtain ⟨h, -⟩ := FunctionDecl.allScoped_of_resolve methods r₄ hf.2.2 hfits₄ hk₄ hc
    rw [ha₄] at h
    refine ⟨⟨hf.1, hfresh, ?_, h⟩, (around_leave hbody).trans ha₂, rfl⟩
    rintro o ⟨⟩
    exact hparent

theorem FunctionDecl.scoped_of_resolve : (decl : FunctionDecl) → (context : FunctionContext) →
    (r : Resolution) → decl.Formed IsName → r.around.Fits r.inClass →
      Records k decl.mentions r (decl.resolve context r) → (decl.resolve context r).errors = [] →
      decl.Scoped k r.around ∧ Passes r.around r (decl.resolve context r)
  | ⟨_, params, body⟩, context, r, hf, hfits, hk, hc => by
    let r₀ : Resolution := { r with inFunction := context }
    have hparams := introduceAll_leads params r₀.enter
    have hbody := Stmt.resolveAll_leads body (params.foldl introduce r₀.enter)
    obtain ⟨hk₁, hc₁⟩ := hk.body hc
    obtain ⟨ha, hnodup, -⟩ := around_introduceAll params
      (show r₀.enter.around = [] :: r.around from rfl) hc₁
    rw [List.nil_append] at ha
    have hi := introduceAll_inClass params r₀.enter
    have hnames : ∀ x ∈ params.map Token.lexeme, IsName x := by
      simpa using hf.2.1
    obtain ⟨h, hi'⟩ := Stmt.allScoped_of_resolve body _ hf.2.2
      (by rw [ha, hi]; exact hfits.inside hnames) hk₁ hc
    rw [ha] at h
    exact ⟨⟨hnodup, hf.2.1, h⟩, around_leave (r := r₀) (hparams.trans hbody), hi'.trans hi⟩

theorem Stmt.allScoped_of_resolve : (body : List Stmt) → (r : Resolution) →
    Stmt.AllFormed IsName body → r.around.Fits r.inClass →
      Records k (Stmt.allMentions body) r (Stmt.resolveAll body r) →
      (Stmt.resolveAll body r).errors = [] →
      Stmt.AllScoped k r.around body ∧ (Stmt.resolveAll body r).inClass = r.inClass
  | [], _, _, _, _, _ => ⟨trivial, rfl⟩
  | s :: rest, r, hf, hfits, hk, hc => by
    have hrest := Stmt.resolveAll_leads rest (s.resolve r)
    obtain ⟨hk₁, hk₂⟩ := hk.split (s.resolve_leads r) hrest
    obtain ⟨h, hp⟩ := s.scoped_of_resolve r hf.1 hfits hk₁ (hrest.clean hc)
    obtain ⟨h', hi⟩ := Stmt.allScoped_of_resolve rest _ hf.2
      (by rw [hp.around, hp.inClass]; exact hfits.after hf.1) hk₂ hc
    rw [hp.around] at h'
    exact ⟨⟨h, h'⟩, hi.trans hp.inClass⟩

theorem FunctionDecl.allScoped_of_resolve : (methods : List FunctionDecl) → (r : Resolution) →
    FunctionDecl.AllFormed IsName methods → r.around.Fits r.inClass →
      Records k (FunctionDecl.allMentions methods) r (FunctionDecl.resolveAll methods r) →
      (FunctionDecl.resolveAll methods r).errors = [] →
      FunctionDecl.AllScoped k r.around methods ∧
        Passes r.around r (FunctionDecl.resolveAll methods r)
  | [], _, _, _, _, _ => ⟨trivial, rfl, rfl⟩
  | m :: rest, r, hf, hfits, hk, hc => by
    have hrest := FunctionDecl.resolveAll_leads rest
      (m.resolve (if m.isInitializer then .initializer else .method) r)
    obtain ⟨hk₁, hk₂⟩ := hk.split (m.resolve_leads _ r) hrest
    obtain ⟨h, hp⟩ := m.scoped_of_resolve _ r hf.1 hfits hk₁ (hrest.clean hc)
    obtain ⟨h', hp'⟩ := FunctionDecl.allScoped_of_resolve rest _ hf.2
      (by rw [hp.around, hp.inClass]; exact hfits) hk₂ hc
    rw [hp.around] at h'
    exact ⟨⟨h, h'⟩, hp'.around.trans hp.around, hp'.inClass.trans hp.inClass⟩

end

end

/-- A program that is resolved without a fault records nothing about mentions that are not in it. -/
theorem distances_of_resolve {statements : List Stmt} {distances : Distances}
    (h : resolve statements = .ok distances) {id : Nat}
    (hid : id ∉ (Stmt.allMentions statements).map Occurrence.id) : distances[id]? = none := by
  simp only [resolve] at h
  split at h
  · cases h
    rw [(Stmt.resolveAll_leads statements Resolution.start).distances id hid]
    simp [Resolution.start]
  · cases h

/-- A program that is resolved without a fault is traced by all that is recorded about it. -/
theorem scoped_of_resolve {statements : List Stmt} {distances : Distances} {k : Knowledge}
    {n n' : Nat} (h : resolve statements = .ok distances) (hf : Stmt.AllFormed IsName statements)
    (hn : Numbered n (Stmt.allMentions statements) n') (hl : n' ≤ k.limit)
    (ha : ∀ o ∈ Stmt.allMentions statements, k.distances[o.id]? = distances[o.id]?) :
    Stmt.AllScoped k [] statements := by
  simp only [resolve] at h
  split at h
  · next hc =>
    cases h
    have hk : Records k (Stmt.allMentions statements) Resolution.start
        (Stmt.resolveAll statements Resolution.start) := by
      refine ⟨hn.nodup, fun o ho => ?_, fun o _ => by simp [Resolution.start], ha⟩
      exact Nat.lt_of_lt_of_le (hn.within o ho).2 hl
    exact (Stmt.allScoped_of_resolve statements Resolution.start hf trivial hk
      (List.isEmpty_iff.1 hc)).1
  · cases h

end LoxLang
