import LoxLang.Proofs.Alpha.Moved
import LoxLang.Proofs.Renaming.Trees
import LoxLang.Proofs.Scoping.Soundness

/-!
# Renamed programs are alike

A program in which a local variable gets a name that is new to it has the same meaning: at each
place the new name means what the old one means where it means the variable, and every other name
means what it meant.

1. `Pairing.Renames`: what is paired inside the scope of the variable.
2. `Stmt.AllRenames.alike`: programs.
-/

namespace LoxLang

variable {k : Knowledge} {x y : String}

namespace Pairing

/-- At a place `n` scopes inside the scope of the variable: where the old name means the variable,
it is paired with the new one, and all other names are paired with themselves. -/
structure Renames (x y : String) (n : Nat) (ρ : Pairing) (around : Surroundings) : Prop where
  renamed : around.locate? x = some n → ρ.Pairs x y
  other : ∀ z, z ≠ y → (z = x → around.locate? x ≠ some n) → ρ.Pairs z z

namespace Renames

variable {n : Nat} {ρ : Pairing} {around outer : Surroundings} {names : List String}

/-- Into the scope of the variable. -/
theorem start (hρ : ρ.Diagonal) (around : Surroundings) : Renames x y 0 ρ ([] :: around) where
  renamed := by simp [Surroundings.locate?_cons]
  other z _ _ := pairs_diagonal hρ z

/-- Into a scope inside it. -/
theorem enter (h : Renames x y n ρ around) : Renames x y (n + 1) ρ ([] :: around) where
  renamed := by simpa [Surroundings.locate?_cons] using h.renamed
  other := by simpa [Surroundings.locate?_cons] using h.other

/-- Behind the declaration of the variable. -/
theorem declareVariable (h : Renames x y 0 ρ (names :: outer)) :
    Renames x y 0 ((x, y) :: ρ) ((names ++ [x]) :: outer) where
  renamed _ := .inl ⟨rfl, rfl⟩
  other := by
    intro z hy hx
    have hne : z ≠ x := fun he => hx he (by simp [Surroundings.locate?_cons])
    exact .inr ⟨hne, hy, h.other z hy fun he => absurd he hne⟩

/-- Behind any other declaration. -/
theorem declareOther (h : Renames x y n ρ (names :: outer)) {z : String} (hy : z ≠ y)
    (hx : z = x → n ≠ 0) : Renames x y n ((z, z) :: ρ) ((names ++ [z]) :: outer) where
  renamed := by
    intro hlocate
    by_cases hz : x = z
    · subst hz
      simp only [Surroundings.locate?_cons, List.mem_append, List.mem_singleton, or_true, if_true,
        Option.some.injEq] at hlocate
      exact absurd hlocate.symm (hx rfl)
    · have hsame : Surroundings.locate? (names :: outer) x = some n := by
        simpa [Surroundings.locate?_cons, hz] using hlocate
      exact .inr ⟨hz, hy.symm, h.renamed hsame⟩
  other := by
    intro u hu hlocate
    by_cases hz : u = z
    · exact .inl ⟨hz, hz⟩
    · refine .inr ⟨hz, hz, h.other u hu fun he => ?_⟩
      have hne := hlocate he
      subst he
      simpa [Surroundings.locate?_cons, hz] using hne

theorem declare (h : Renames x y n ρ (names :: outer)) {t : Token} (hy : t.lexeme ≠ y) :
    Renames x y n ((t.lexeme, (t.renameAt x y n).lexeme) :: ρ)
      ((names ++ [t.lexeme]) :: outer) := by
  unfold Token.renameAt Token.rename
  by_cases hn : n = 0
  · by_cases hx : t.lexeme = x
    · subst hn hx
      simpa using h.declareVariable
    · simpa [hn, hx] using h.declareOther hy fun he => absurd he hx
  · simpa [hn] using h.declareOther hy fun _ => hn

theorem declareAll (h : Renames x y n ρ (names :: outer)) {params : List Token}
    (hy : ∀ p ∈ params, p.lexeme ≠ y) :
    Renames x y n (Pairing.declareAll params (params.map (Token.renameAt x y n)) ρ)
      ((names ++ params.map Token.lexeme) :: outer) := by
  induction params generalizing ρ names with
  | nil => simpa [Pairing.declareAll] using h
  | cons p params ih =>
    obtain ⟨hp, hparams⟩ := List.forall_mem_cons.1 hy
    simpa [Pairing.declareAll] using ih (h.declare (t := p) hp) hparams

theorem this (h : Renames x y n ρ around) (hx : IsName x) (hy : IsName y) :
    ρ.Pairs "this" "this" :=
  h.other _ hy.ne_this.symm fun he => absurd he.symm hx.ne_this

theorem super (h : Renames x y n ρ around) (hx : IsName x) (hy : IsName y) :
    ρ.Pairs "super" "super" :=
  h.other _ hy.ne_super.symm fun he => absurd he.symm hx.ne_super

/-- A mention of the variable gets its new name, and all others keep theirs. -/
theorem mention (h : Renames x y n ρ around) {o : Occurrence} (ht : k.Traces around o)
    (hy : o.name ≠ y) : o.Alike Eq ρ (o.rename k.distances x y n) := by
  unfold Occurrence.rename Token.rename
  rw [ht.2]
  by_cases hx : o.name = x
  · have hx' : o.token.lexeme = x := hx
    by_cases hlocate : around.locate? x = some n
    · rw [hx, if_pos hlocate, if_pos hx']
      exact ⟨hx ▸ h.renamed hlocate, rfl⟩
    · rw [hx, if_neg hlocate]
      exact ⟨h.other _ hy fun _ => hlocate, rfl⟩
  · have hx' : ¬o.token.lexeme = x := hx
    rw [if_neg hx', ite_id]
    exact ⟨h.other _ hy fun he => absurd he hx, rfl⟩

end Renames

end Pairing

/-! ## Inside the scope of the variable -/

section

variable {n : Nat} {ρ : Pairing} {around outer : Surroundings} {names : List String}

mutual

theorem Expr.alike_rename (hx : IsName x) (hy : IsName y) (h : Pairing.Renames x y n ρ around)
    {pending : Option String} : (e : Expr) → e.Scoped k around pending → e.Formed (· ≠ y) →
      e.Alike Eq ρ (e.rename k.distances x y n)
  | .literal value, _, _ => .literal value
  | .grouping inner, hs, hf => .grouping (inner.alike_rename hx hy h hs hf)
  | .unary operator operand, hs, hf =>
    .unary operator.alike_self (operand.alike_rename hx hy h hs hf)
  | .binary left operator right, hs, hf =>
    .binary (left.alike_rename hx hy h hs.1 hf.1) operator.alike_self
      (right.alike_rename hx hy h hs.2 hf.2)
  | .logical left operator right, hs, hf =>
    .logical (left.alike_rename hx hy h hs.1 hf.1) operator.alike_self
      (right.alike_rename hx hy h hs.2 hf.2)
  | .var _, hs, hf => .var (h.mention hs.1 hf)
  | .assign _ value, hs, hf =>
    .assign (h.mention hs.2 hf.1) (value.alike_rename hx hy h hs.1 hf.2)
  | .call callee close arguments, hs, hf =>
    .call (callee.alike_rename hx hy h hs.1 hf.1) close.alike_self
      (Expr.allAlike_rename hx hy h arguments hs.2 hf.2)
  | .get object name, hs, hf => .get (object.alike_rename hx hy h hs hf) name.alike_self
  | .set object name value, hs, hf =>
    .set (object.alike_rename hx hy h hs.1 hf.1) name.alike_self
      (value.alike_rename hx hy h hs.2 hf.2)
  | .this _, _, hf => .this ⟨hf ▸ h.this hx hy, rfl⟩
  | .super _ method, _, _ => .super rfl (h.super hx hy) (h.this hx hy) method.alike_self

theorem Expr.allAlike_rename (hx : IsName x) (hy : IsName y) (h : Pairing.Renames x y n ρ around)
    {pending : Option String} : (es : List Expr) → Expr.AllScoped k around pending es →
      Expr.AllFormed (· ≠ y) es → Expr.AllAlike Eq ρ es (Expr.renameAll k.distances x y n es)
  | [], _, _ => .nil
  | e :: rest, hs, hf =>
    .cons (e.alike_rename hx hy h hs.1 hf.1) (Expr.allAlike_rename hx hy h rest hs.2 hf.2)

end

theorem Pairing.after_rename_of_declared? {s : Stmt} (h : s.declared? = none)
    (ρ? : Option Pairing) :
    after s (s.rename k.distances x y n) ρ? = ρ? := by
  cases s with
  | varDecl => exact nomatch h
  | funDecl => exact nomatch h
  | classDecl => exact nomatch h
  | _ => rfl

/-- Behind a statement. -/
theorem Pairing.Renames.after (h : Renames x y n ρ (names :: outer)) {s : Stmt}
    (hf : s.Formed (· ≠ y)) (hx : n = 0 → s.Spares x) :
    ∃ ρ' names', Pairing.after s (s.rename k.distances x y n) (some ρ) = some ρ' ∧
      s.after (names :: outer) = names' :: outer ∧ Renames x y n ρ' (names' :: outer) := by
  cases s with
  | varDecl name initializer =>
    have hname : name.lexeme ≠ y := by
      cases initializer with
      | none => exact hf
      | some value => exact hf.1
    exact ⟨_, _, rfl, rfl, h.declare hname⟩
  | funDecl decl =>
    cases decl
    exact ⟨_, _, rfl, rfl, h.declareOther hf.1 fun he hn => hx hn he⟩
  | classDecl name superclass methods =>
    cases superclass <;> exact ⟨_, _, rfl, rfl, h.declareOther hf.1 fun he hn => hx hn he⟩
  | _ => exact ⟨_, _, rfl, rfl, h⟩

mutual

theorem Stmt.alike_rename {n : Nat} {ρ : Pairing} {names : List String} {outer : Surroundings}
    (hx : IsName x) (hy : IsName y) (h : Pairing.Renames x y n ρ (names :: outer)) :
    (s : Stmt) → s.Scoped k (names :: outer) → s.Formed (· ≠ y) → (n = 0 → s.Spares x) →
      s.Alike Eq (some ρ) (s.rename k.distances x y n)
  | .expression value, hs, hf, _ => .expression (value.alike_rename hx hy h hs hf)
  | .print value, hs, hf, _ => .print (value.alike_rename hx hy h hs hf)
  | .varDecl _ none, _, _, _ => .varDecl nofun .none
  | .varDecl _ (some value), hs, hf, _ =>
    .varDecl nofun (.some (value.alike_rename hx hy (h.declare hf.1) (hs.2.2 value rfl) hf.2))
  | .block body, hs, hf, _ =>
    .block (Stmt.allAlike_rename hx hy h.enter body hs hf nofun)
  | .ifThen condition thenBranch, hs, hf, _ =>
    .ifThen (condition.alike_rename hx hy h hs.1 hf.1)
      (thenBranch.alike_rename hx hy h hs.2.1 hf.2.1 fun _ => Stmt.spares_of_declared? hf.2.2 x)
      (Pairing.after_rename_of_declared? hf.2.2 _)
  | .ifElse condition thenBranch elseBranch, hs, hf, _ =>
    .ifElse (condition.alike_rename hx hy h hs.1 hf.1)
      (thenBranch.alike_rename hx hy h hs.2.1.1 hf.2.1.1 fun _ =>
        Stmt.spares_of_declared? hf.2.1.2 x)
      (Pairing.after_rename_of_declared? hf.2.1.2 _)
      (elseBranch.alike_rename hx hy h hs.2.2.1 hf.2.2.1 fun _ =>
        Stmt.spares_of_declared? hf.2.2.2 x)
      (Pairing.after_rename_of_declared? hf.2.2.2 _)
  | .whileDo condition body, hs, hf, _ =>
    .whileDo (condition.alike_rename hx hy h hs.1 hf.1)
      (body.alike_rename hx hy h hs.2.1 hf.2.1 fun _ => Stmt.spares_of_declared? hf.2.2 x)
      (Pairing.after_rename_of_declared? hf.2.2 _)
  | .funDecl ⟨name, params, body⟩, hs, hf, hspares =>
    .funDecl (FunctionDecl.alike_rename hx hy (h.declareOther hf.1 fun he hn => hspares hn he)
      ⟨name, params, body⟩ hs.2.2 hf)
  | .ret _ none, _, _, _ => .ret .none
  | .ret _ (some value), hs, hf, _ => .ret (.some (value.alike_rename hx hy h (hs value rfl) hf))
  | .classDecl _ none methods, hs, hf, hspares => by
    have hthis := (h.declareOther hf.1 fun he hn => hspares hn he).enter.declareOther
      hy.ne_this.symm fun he => absurd he.symm hx.ne_this
    exact .classDecl rfl .none (FunctionDecl.allAlike_rename hx hy hthis methods hs.2.2.2 hf.2.2)
  | .classDecl name (some parent) methods, hs, hf, hspares => by
    have hsuper := (h.declareOther hf.1 fun he hn => hspares hn he).enter.declareOther
      hy.ne_super.symm fun he => absurd he.symm hx.ne_super
    have hthis := hsuper.enter.declareOther hy.ne_this.symm fun he => absurd he.symm hx.ne_this
    obtain ⟨hne, ht⟩ := hs.2.2.1 parent rfl
    have hparent : k.Traces (names :: outer) parent :=
      ⟨ht.1, ht.2.trans (Surroundings.locate?_declare _ hne)⟩
    exact .classDecl rfl (.some (h.mention hparent (hf.2.1 parent rfl)))
      (FunctionDecl.allAlike_rename hx hy hthis methods hs.2.2.2 hf.2.2)

theorem FunctionDecl.alike_rename {n : Nat} {ρ : Pairing} {around : Surroundings}
    (hx : IsName x) (hy : IsName y) (h : Pairing.Renames x y n ρ around) :
    (decl : FunctionDecl) → decl.Scoped k around → decl.Formed (· ≠ y) →
      decl.Alike Eq ρ (decl.rename k.distances x y n)
  | ⟨_, params, body⟩, hs, hf => by
    have hparams := h.enter.declareAll hf.2.1
    rw [Token.map_renameAt_succ] at hparams
    exact .mk rfl rfl (Stmt.allAlike_rename hx hy hparams body hs.2.2 hf.2.2 nofun)

theorem Stmt.allAlike_rename {n : Nat} {ρ : Pairing} {names : List String} {outer : Surroundings}
    (hx : IsName x) (hy : IsName y) (h : Pairing.Renames x y n ρ (names :: outer)) :
    (body : List Stmt) → Stmt.AllScoped k (names :: outer) body → Stmt.AllFormed (· ≠ y) body →
      (n = 0 → ∀ s ∈ body, s.Spares x) →
      Stmt.AllAlike Eq (some ρ) body (Stmt.renameAll k.distances x y n body)
  | [], _, _, _ => .nil
  | s :: rest, hs, hf, hspares => by
    have hspare : n = 0 → s.Spares x := fun hn => hspares hn s List.mem_cons_self
    obtain ⟨ρ', names', hafter, haround, h'⟩ := h.after (k := k) hf.1 hspare
    have hrest := hs.2
    rw [haround] at hrest
    refine .cons (s.alike_rename hx hy h hs.1 hf.1 hspare) ?_
    rw [hafter]
    exact Stmt.allAlike_rename hx hy h' rest hrest hf.2 fun hn t ht =>
      hspares hn t (List.mem_cons_of_mem _ ht)

theorem FunctionDecl.allAlike_rename {n : Nat} {ρ : Pairing} {around : Surroundings}
    (hx : IsName x) (hy : IsName y) (h : Pairing.Renames x y n ρ around) :
    (methods : List FunctionDecl) → FunctionDecl.AllScoped k around methods →
      FunctionDecl.AllFormed (· ≠ y) methods →
      FunctionDecl.AllAlike Eq ρ methods (FunctionDecl.renameAll k.distances x y n methods)
  | [], _, _ => .nil
  | m :: rest, hs, hf =>
    .cons (m.alike_rename hx hy h hs.1 hf.1) (FunctionDecl.allAlike_rename hx hy h rest hs.2 hf.2)

end

end

/-! ## Around the scope of the variable -/

/-- A renamed declaration declares what it did. -/
theorem Stmt.Renames.after_diagonal {distances : Distances} {s s' : Stmt}
    (h : s.Renames distances x y s') {ρ : Option Pairing} (hρ : (Pairing.known ρ).Diagonal) :
    (Pairing.known (Pairing.after s s' ρ)).Diagonal := by
  cases h with
  | funDecl hdecl =>
    rw [Pairing.after, hdecl.name_eq]
    exact hρ.declare _
  | classDecl name => exact hρ.declare name.lexeme
  | _ => exact hρ

theorem Stmt.Renames.after_of_declared? {distances : Distances} {s s' : Stmt}
    (h : s.Renames distances x y s') (hs : s.declared? = none) (ρ : Option Pairing) :
    Pairing.after s s' ρ = ρ := by
  cases h with
  | funDecl => exact nomatch hs
  | classDecl => exact nomatch hs
  | _ => rfl

mutual

theorem Stmt.Renames.alike {ρ : Option Pairing} {around : Surroundings} {s s' : Stmt}
    (hx : IsName x) (hy : IsName y) (hρ : (Pairing.known ρ).Diagonal) :
    s.Renames k.distances x y s' → s.Scoped k around → s.Formed (· ≠ y) → s.Alike Eq ρ s'
  | .here hdeclares, hs, hf =>
    .block (Stmt.allAlike_rename hx hy (.start hρ around) _ hs hf fun _ =>
      Stmt.AllScoped.spares hs (.inr hdeclares))
  | .block h, hs, hf => .block (h.alike (ρ := some _) hx hy hρ hs hf)
  | .ifThen condition h, hs, hf =>
    .ifThen (condition.alike_self hρ) (h.alike hx hy hρ hs.2.1 hf.2.1)
      (h.after_of_declared? hf.2.2 ρ)
  | .thenBranch condition _ h, hs, hf =>
    .ifElse (condition.alike_self hρ) (h.alike hx hy hρ hs.2.1.1 hf.2.1.1)
      (h.after_of_declared? hf.2.1.2 ρ) (Stmt.alike_self hρ hf.2.2.1)
      (Pairing.after_self hf.2.2.2 ρ)
  | .elseBranch condition _ h, hs, hf =>
    .ifElse (condition.alike_self hρ) (Stmt.alike_self hρ hf.2.1.1)
      (Pairing.after_self hf.2.1.2 ρ) (h.alike hx hy hρ hs.2.2.1 hf.2.2.1)
      (h.after_of_declared? hf.2.2.2 ρ)
  | .whileDo condition h, hs, hf =>
    .whileDo (condition.alike_self hρ) (h.alike hx hy hρ hs.2.1 hf.2.1)
      (h.after_of_declared? hf.2.2 ρ)
  | .funDecl h, hs, hf => by
    refine .funDecl (h.alike hx hy ?_ hs.2.2 hf)
    rw [h.name_eq]
    exact hρ.declare _
  | .classDecl name superclass h, hs, hf => by
    refine .classDecl rfl ?_
      (h.alike hx hy (((hρ.declare name.lexeme).inherit superclass).cons "this") hs.2.2.2 hf.2.2)
    cases superclass with
    | none => exact .none
    | some parent => exact .some ⟨Pairing.pairs_diagonal hρ _, rfl⟩

theorem FunctionDecl.Renames.alike {ρ : Pairing} {around : Surroundings} {decl decl' : FunctionDecl}
    (hx : IsName x) (hy : IsName y) (hρ : ρ.Diagonal) :
    decl.Renames k.distances x y decl' → decl.Scoped k around → decl.Formed (· ≠ y) →
      decl.Alike Eq ρ decl'
  | .here _ hdeclares, hs, hf =>
    .mk rfl (List.length_map _).symm
      (Stmt.allAlike_rename hx hy ((Pairing.Renames.start hρ around).declareAll hf.2.1) _ hs.2.2
        hf.2.2 fun _ => hs.2.2.spares hdeclares)
  | .body _ params h, hs, hf =>
    .mk rfl rfl (h.alike (ρ := some _) hx hy (hρ.declareAll_self params) hs.2.2 hf.2.2)

/-- A program in which a local variable is renamed is alike. -/
theorem Stmt.AllRenames.alike {ρ : Option Pairing} {around : Surroundings} {body body' : List Stmt}
    (hx : IsName x) (hy : IsName y) (hρ : (Pairing.known ρ).Diagonal) :
    Stmt.AllRenames k.distances x y body body' → Stmt.AllScoped k around body →
      Stmt.AllFormed (· ≠ y) body → Stmt.AllAlike Eq ρ body body'
  | .head _ h, hs, hf =>
    .cons (h.alike hx hy hρ hs.1 hf.1) (Stmt.allAlike_self (h.after_diagonal hρ) hf.2)
  | .tail s h, hs, hf =>
    .cons (Stmt.alike_self hρ hf.1) (h.alike hx hy (hρ.after_self s) hs.2 hf.2)

theorem FunctionDecl.AllRenames.alike {ρ : Pairing} {around : Surroundings}
    {methods methods' : List FunctionDecl} (hx : IsName x) (hy : IsName y) (hρ : ρ.Diagonal) :
    FunctionDecl.AllRenames k.distances x y methods methods' →
      FunctionDecl.AllScoped k around methods → FunctionDecl.AllFormed (· ≠ y) methods →
      FunctionDecl.AllAlike Eq ρ methods methods'
  | .head _ h, hs, hf =>
    .cons (h.alike hx hy hρ hs.1 hf.1) (FunctionDecl.allAlike_self hρ hf.2)
  | .tail _ h, hs, hf =>
    .cons (FunctionDecl.alike_self hρ hf.1) (h.alike hx hy hρ hs.2 hf.2)

end

end LoxLang
