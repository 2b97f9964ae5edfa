import LoxLang.Proofs.Grammar.Reading

/-!
# Trees of programs

What the trees of programs have in common, beside their shape: names are names of the program and
not reserved words, no branch of an `if` or a loop is a declaration, and no two mentions have the
same number.

1. `Grammar.Expression.formed`: expressions.
2. `Grammar.Declarations.formed`: declarations, and so whole programs.
-/

namespace LoxLang

mutual

/-- All mentions in an expression. -/
def Expr.mentions : Expr → List Occurrence
  | .literal _ => []
  | .grouping inner => inner.mentions
  | .unary _ operand => operand.mentions
  | .binary left _ right => left.mentions ++ right.mentions
  | .logical left _ right => left.mentions ++ right.mentions
  | .var name => [name]
  | .assign target value => value.mentions ++ [target]
  | .call callee _ arguments => callee.mentions ++ Expr.allMentions arguments
  | .get object _ => object.mentions
  | .set object _ value => object.mentions ++ value.mentions
  | .this keyword => [keyword]
  | .super keyword _ => [keyword]

/-- All mentions in some expressions. -/
def Expr.allMentions : List Expr → List Occurrence
  | [] => []
  | e :: rest => e.mentions ++ Expr.allMentions rest

end

mutual

/-- All mentions in a statement. -/
def Stmt.mentions : Stmt → List Occurrence
  | .expression value => value.mentions
  | .print value => value.mentions
  | .varDecl _ (some value) => value.mentions
  | .varDecl _ none => []
  | .block body => Stmt.allMentions body
  | .ifThen condition thenBranch => condition.mentions ++ thenBranch.mentions
  | .ifElse condition thenBranch elseBranch =>
    condition.mentions ++ (thenBranch.mentions ++ elseBranch.mentions)
  | .whileDo condition body => condition.mentions ++ body.mentions
  | .funDecl decl => decl.mentions
  | .ret _ (some value) => value.mentions
  | .ret _ none => []
  | .classDecl _ superclass methods => superclass.toList ++ FunctionDecl.allMentions methods

/-- All mentions in a function. -/
def FunctionDecl.mentions : FunctionDecl → List Occurrence
  | ⟨_, _, body⟩ => Stmt.allMentions body

/-- All mentions in some statements. -/
def Stmt.allMentions : List Stmt → List Occurrence
  | [] => []
  | s :: rest => s.mentions ++ Stmt.allMentions rest

/-- All mentions in some functions. -/
def FunctionDecl.allMentions : List FunctionDecl → List Occurrence
  | [] => []
  | m :: rest => m.mentions ++ FunctionDecl.allMentions rest

end

theorem Expr.allMentions_eq_flatMap (es : List Expr) :
    Expr.allMentions es = es.flatMap Expr.mentions := by
  induction es with
  | nil => rfl
  | cons e rest ih => rw [Expr.allMentions, ih, List.flatMap_cons]

theorem Stmt.allMentions_eq_flatMap (body : List Stmt) :
    Stmt.allMentions body = body.flatMap Stmt.mentions := by
  induction body with
  | nil => rfl
  | cons s rest ih => rw [Stmt.allMentions, ih, List.flatMap_cons]

theorem FunctionDecl.allMentions_eq_flatMap (methods : List FunctionDecl) :
    FunctionDecl.allMentions methods = methods.flatMap FunctionDecl.mentions := by
  induction methods with
  | nil => rfl
  | cons m rest ih => rw [FunctionDecl.allMentions, ih, List.flatMap_cons]

/-- The name that a declaration gives to the scope around it; a statement gives none. -/
def Stmt.declared? : Stmt → Option Token
  | .varDecl name _ => some name
  | .funDecl decl => some decl.name
  | .classDecl name _ _ => some name
  | _ => none

section

variable (P : String → Prop)

mutual

/-- Mentions of variables are such names, mentions of reserved words are those words. -/
def Expr.Formed : Expr → Prop
  | .literal _ => True
  | .grouping inner => inner.Formed
  | .unary _ operand => operand.Formed
  | .binary left _ right => left.Formed ∧ right.Formed
  | .logical left _ right => left.Formed ∧ right.Formed
  | .var name => P name.name
  | .assign target value => P target.name ∧ value.Formed
  | .call callee _ arguments => callee.Formed ∧ Expr.AllFormed arguments
  | .get object _ => object.Formed
  | .set object _ value => object.Formed ∧ value.Formed
  | .this keyword => keyword.name = "this"
  | .super keyword _ => keyword.name = "super"

def Expr.AllFormed : List Expr → Prop
  | [] => True
  | e :: rest => e.Formed ∧ Expr.AllFormed rest

end

mutual

/-- What is declared are such names, and no branch is a declaration. -/
def Stmt.Formed : Stmt → Prop
  | .expression value => value.Formed P
  | .print value => value.Formed P
  | .varDecl name (some value) => P name.lexeme ∧ value.Formed P
  | .varDecl name none => P name.lexeme
  | .block body => Stmt.AllFormed body
  | .ifThen condition thenBranch =>
    condition.Formed P ∧ thenBranch.Formed ∧ thenBranch.declared? = none
  | .ifElse condition thenBranch elseBranch =>
    condition.Formed P ∧ (thenBranch.Formed ∧ thenBranch.declared? = none) ∧
      elseBranch.Formed ∧ elseBranch.declared? = none
  | .whileDo condition body => condition.Formed P ∧ body.Formed ∧ body.declared? = none
  | .funDecl decl => decl.Formed
  | .ret _ (some value) => value.Formed P
  | .ret _ none => True
  | .classDecl name superclass methods =>
    P name.lexeme ∧ (∀ o ∈ superclass, P o.name) ∧ FunctionDecl.AllFormed methods

def FunctionDecl.Formed : FunctionDecl → Prop
  | ⟨name, params, body⟩ =>
    P name.lexeme ∧ (∀ p ∈ params, P p.lexeme) ∧ Stmt.AllFormed body

def Stmt.AllFormed : List Stmt → Prop
  | [] => True
  | s :: rest => s.Formed ∧ Stmt.AllFormed rest

def FunctionDecl.AllFormed : List FunctionDecl → Prop
  | [] => True
  | m :: rest => m.Formed ∧ FunctionDecl.AllFormed rest

end

end

variable {P : String → Prop}

/-- The names of a program are such, and its reserved words are those words. -/
structure Token.Named (P : String → Prop) (t : Token) : Prop where
  name : t.kind = .identifier → P t.lexeme
  word : ∀ k, t.kind = .keyword k → t.lexeme = k.text

theorem FunctionDecl.name_of_formed (decl : FunctionDecl) (h : decl.Formed P) :
    P decl.name.lexeme := by
  cases decl
  exact h.1

/-- The mentions have numbers from `n` up to, and without, `n'`, and no two the same. -/
structure Numbered (n : Nat) (os : List Occurrence) (n' : Nat) : Prop where
  le : n ≤ n'
  nodup : (os.map Occurrence.id).Nodup
  within : ∀ o ∈ os, n ≤ o.id ∧ o.id < n'

namespace Numbered

theorem nil {n n' : Nat} (h : n ≤ n') : Numbered n [] n' :=
  ⟨h, List.nodup_nil, by simp⟩

theorem single {n n' : Nat} {o : Occurrence} (h : n ≤ o.id) (h' : o.id < n') :
    Numbered n [o] n' :=
  ⟨by omega, by simp, by simpa using ⟨h, h'⟩⟩

theorem append {n k n' : Nat} {os os' : List Occurrence} (h : Numbered n os k)
    (h' : Numbered k os' n') : Numbered n (os ++ os') n' where
  le := Nat.le_trans h.le h'.le
  nodup := by
    rw [List.map_append]
    refine List.nodup_append.2 ⟨h.nodup, h'.nodup, ?_⟩
    intro i hi j hj
    obtain ⟨o, ho, rfl⟩ := List.mem_map.1 hi
    obtain ⟨o', ho', rfl⟩ := List.mem_map.1 hj
    have hlt := (h.within o ho).2
    have hle := (h'.within o' ho').1
    omega
  within := by
    intro o ho
    rcases List.mem_append.1 ho with ho | ho
    · have hw := h.within o ho
      exact ⟨hw.1, Nat.lt_of_lt_of_le hw.2 h'.le⟩
    · have hw := h'.within o ho
      exact ⟨Nat.le_trans h.le hw.1, hw.2⟩

/-- The order of the mentions is free. -/
theorem perm {n n' : Nat} {os os' : List Occurrence} (h : Numbered n os n')
    (hp : os.Perm os') : Numbered n os' n' where
  le := h.le
  nodup := (hp.map _).nodup_iff.1 h.nodup
  within := fun o ho => h.within o (hp.mem_iff.2 ho)

/-- Some of the mentions may be dropped. -/
theorem sublist {n n' : Nat} {os os' : List Occurrence} (h : Numbered n os n')
    (hs : os'.Sublist os) : Numbered n os' n' where
  le := h.le
  nodup := h.nodup.sublist (hs.map _)
  within := fun o ho => h.within o (hs.subset ho)

end Numbered

namespace Grammar

section

variable {ts us : List Token}

theorem named_left (h : ∀ t ∈ ts ++ us, t.Named P) : ∀ t ∈ ts, t.Named P :=
  fun t ht => h t (List.mem_append_left _ ht)

theorem named_right (h : ∀ t ∈ ts ++ us, t.Named P) : ∀ t ∈ us, t.Named P :=
  fun t ht => h t (List.mem_append_right _ ht)

end

/-! ## Expressions -/

mutual

theorem Expression.formed {n n' : Nat} {ts : List Token} {e : Expr} :
    Expression n ts e n' → (∀ t ∈ ts, t.Named P) → e.Formed P ∧ Numbered n e.mentions n'
  | .assign hname _ h, hs => by
    obtain ⟨hf, hn⟩ := h.formed fun t ht => hs t (by simp [ht])
    have hn' : Numbered n _ _ := (Numbered.nil (Nat.le_add_right n 1)).append hn
    exact ⟨⟨(hs _ List.mem_cons_self).name hname, hf⟩,
      hn'.append (.single (Nat.le_refl _) (Nat.lt_succ_self _))⟩
  | .set hobject _ _ _ hvalue, hs => by
    obtain ⟨hf, hn⟩ := hobject.formed (named_left hs)
    obtain ⟨hf', hn'⟩ := hvalue.formed fun t ht => hs t (by simp [ht])
    exact ⟨⟨hf, hf'⟩, hn.append hn'⟩
  | .operators h, hs => h.formed (fun _ hm => Level.proper_of_mem_all hm) hs

theorem Operators.formed {levels : List Level} {n n' : Nat} {ts : List Token} {e : Expr} :
    Operators levels n ts e n' → (∀ level ∈ levels, level.Proper) → (∀ t ∈ ts, t.Named P) →
      e.Formed P ∧ Numbered n e.mentions n'
  | .operand h, _, hs => h.formed hs
  | .tighter h, hl, hs => h.formed (fun l hm => hl l (List.mem_cons_of_mem _ hm)) hs
  | .operator hleft _ hright, hl, hs => by
    obtain ⟨hf, hn⟩ := hleft.formed hl (named_left hs)
    obtain ⟨hf', hn'⟩ := hright.formed (fun l hm => hl l (List.mem_cons_of_mem _ hm))
      fun t ht => hs t (by simp [ht])
    rcases (hl _ List.mem_cons_self).2 _ _ _ with hb | hb <;> rw [hb] <;>
      exact ⟨⟨hf, hf'⟩, hn.append hn'⟩

theorem Unary.formed {n n' : Nat} {ts : List Token} {e : Expr} :
    Unary n ts e n' → (∀ t ∈ ts, t.Named P) → e.Formed P ∧ Numbered n e.mentions n'
  | .operator _ h, hs => h.formed fun t ht => hs t (by simp [ht])
  | .call h, hs => h.formed hs

theorem Call.formed {n n' : Nat} {ts : List Token} {e : Expr} :
    Call n ts e n' → (∀ t ∈ ts, t.Named P) → e.Formed P ∧ Numbered n e.mentions n'
  | .primary h, hs => h.formed hs
  | .call h _ hargs _ _, hs => by
    obtain ⟨hf, hn⟩ := h.formed (named_left hs)
    obtain ⟨hf', hn'⟩ := hargs.formed fun t ht => hs t (by simp [ht])
    exact ⟨⟨hf, hf'⟩, hn.append hn'⟩
  | .get h _ _, hs => h.formed (named_left hs)

theorem Arguments.formed {n n' : Nat} {ts : List Token} {es : List Expr} :
    Arguments n ts es n' → (∀ t ∈ ts, t.Named P) →
      Expr.AllFormed P es ∧ Numbered n (Expr.allMentions es) n'
  | .none, _ => ⟨trivial, .nil (Nat.le_refl _)⟩
  | .some h, hs => h.formed hs

theorem Listed.formed {n n' : Nat} {ts : List Token} {es : List Expr} :
    Listed n ts es n' → (∀ t ∈ ts, t.Named P) →
      Expr.AllFormed P es ∧ Numbered n (Expr.allMentions es) n'
  | .one h, hs => by
    obtain ⟨hf, hn⟩ := h.formed hs
    exact ⟨⟨hf, trivial⟩, hn.append (.nil (Nat.le_refl _))⟩
  | .more h _ hrest, hs => by
    obtain ⟨hf, hn⟩ := h.formed (named_left hs)
    obtain ⟨hf', hn'⟩ := hrest.formed fun t ht => hs t (by simp [ht])
    exact ⟨⟨hf, hf'⟩, hn.append hn'⟩

theorem Primary.formed {n n' : Nat} {ts : List Token} {e : Expr} :
    Primary n ts e n' → (∀ t ∈ ts, t.Named P) → e.Formed P ∧ Numbered n e.mentions n'
  | .literal _, _ => ⟨trivial, .nil (Nat.le_refl _)⟩
  | .this hk, hs =>
    ⟨(hs _ List.mem_cons_self).word _ hk, .single (Nat.le_refl _) (Nat.lt_succ_self _)⟩
  | .var hk, hs =>
    ⟨(hs _ List.mem_cons_self).name hk, .single (Nat.le_refl _) (Nat.lt_succ_self _)⟩
  | .super hk _ _, hs =>
    ⟨(hs _ List.mem_cons_self).word _ hk, .single (Nat.le_refl _) (Nat.lt_succ_self _)⟩
  | .grouping _ h _, hs => h.formed fun t ht => hs t (by simp [ht])

end

/-! ## Statements and declarations -/

theorem Clause.formed {n n' : Nat} {ts : List Token} {o : Option Expr} (h : Clause n ts o n')
    (hs : ∀ t ∈ ts, t.Named P) :
    (∀ e ∈ o, e.Formed P) ∧ Numbered n ((o.map Expr.mentions).getD []) n' := by
  cases h with
  | none => exact ⟨by simp, .nil (Nat.le_refl _)⟩
  | some h =>
    obtain ⟨hf, hn⟩ := h.formed hs
    exact ⟨by simpa using hf, hn⟩

theorem Variable.formed {n n' : Nat} {ts : List Token} {s : Stmt} (h : Variable n ts s n')
    (hs : ∀ t ∈ ts, t.Named P) : s.Formed P ∧ Numbered n s.mentions n' := by
  cases h with
  | bare hname _ =>
    exact ⟨(hs _ List.mem_cons_self).name hname, .nil (Nat.le_refl _)⟩
  | initialized hname _ h _ =>
    obtain ⟨hf, hn⟩ := h.formed fun t ht => hs t (by simp [ht])
    exact ⟨⟨(hs _ List.mem_cons_self).name hname, hf⟩, hn⟩

theorem Initializer.formed {n n' : Nat} {ts : List Token} {o : Option Stmt}
    (h : Initializer n ts o n') (hs : ∀ t ∈ ts, t.Named P) :
    (∀ s ∈ o, s.Formed P) ∧ Numbered n ((o.map Stmt.mentions).getD []) n' := by
  cases h with
  | none _ => exact ⟨by simp, .nil (Nat.le_refl _)⟩
  | declaration _ h =>
    obtain ⟨hf, hn⟩ := h.formed fun t ht => hs t (by simp [ht])
    exact ⟨by simpa using hf, hn⟩
  | expression h _ =>
    obtain ⟨hf, hn⟩ := h.formed (named_left hs)
    exact ⟨by simpa [Stmt.Formed] using hf, hn⟩

theorem Names.formed {ts names : List Token} (h : Names ts names) (hs : ∀ t ∈ ts, t.Named P) :
    ∀ p ∈ names, P p.lexeme := by
  induction h with
  | one hk => simpa using (hs _ List.mem_cons_self).name hk
  | more hk _ _ ih =>
    intro p hp
    rcases List.mem_cons.1 hp with rfl | hp
    · exact (hs _ List.mem_cons_self).name hk
    · exact ih (fun t ht => hs t (by simp [ht])) p hp

theorem Parameters.formed {ts names : List Token} (h : Parameters ts names)
    (hs : ∀ t ∈ ts, t.Named P) : ∀ p ∈ names, P p.lexeme := by
  cases h with
  | none => simp
  | some h _ => exact h.formed hs

theorem Superclass.formed {n n' : Nat} {ts : List Token} {o : Option Occurrence}
    (h : Superclass n ts o n') (hs : ∀ t ∈ ts, t.Named P) :
    (∀ p ∈ o, P p.name) ∧ Numbered n o.toList n' := by
  cases h with
  | none => exact ⟨by simp, .nil (Nat.le_refl _)⟩
  | some _ hk =>
    have hname : P (Occurrence.name ⟨n, _⟩) := (hs _ (by simp)).name hk
    exact ⟨by simpa using hname, .single (Nat.le_refl _) (Nat.lt_succ_self _)⟩

theorem formed_ret {n n' : Nat} (word : Token) {value : Option Expr}
    (h : (∀ e ∈ value, e.Formed P) ∧ Numbered n ((value.map Expr.mentions).getD []) n') :
    (Stmt.ret word value).Formed P ∧ Numbered n (Stmt.ret word value).mentions n' := by
  cases value with
  | none => exact ⟨trivial, h.2⟩
  | some value => exact ⟨h.1 value rfl, h.2⟩

/-- A loop keeps its clauses as they are; only their order changes. -/
theorem mentions_forLoop (initializer : Option Stmt) (condition increment : Option Expr)
    (body : Stmt) : (Stmt.forLoop initializer condition increment body).mentions =
      (initializer.map Stmt.mentions).getD [] ++ ((condition.map Expr.mentions).getD [] ++
        (body.mentions ++ (increment.map Expr.mentions).getD [])) := by
  cases initializer <;> cases condition <;> cases increment <;>
    simp [Stmt.forLoop, Stmt.mentions, Stmt.allMentions, Expr.mentions]

theorem formed_forLoop {n n₁ n₂ n₃ n' : Nat} {initializer : Option Stmt}
    {condition increment : Option Expr} {body : Stmt}
    (hi : (∀ s ∈ initializer, s.Formed P) ∧
      Numbered n ((initializer.map Stmt.mentions).getD []) n₁)
    (hc : (∀ e ∈ condition, e.Formed P) ∧ Numbered n₁ ((condition.map Expr.mentions).getD []) n₂)
    (hu : (∀ e ∈ increment, e.Formed P) ∧ Numbered n₂ ((increment.map Expr.mentions).getD []) n₃)
    (hb : body.Formed P ∧ Numbered n₃ body.mentions n') (hd : body.declared? = none) :
    (Stmt.forLoop initializer condition increment body).Formed P ∧
      Numbered n (Stmt.forLoop initializer condition increment body).mentions n' := by
  constructor
  · cases initializer <;> cases condition <;> cases increment <;>
      simp_all [Stmt.forLoop, Stmt.Formed, Stmt.AllFormed, Expr.Formed, Stmt.declared?]
  · rw [mentions_forLoop]
    refine (hi.2.append (hc.2.append (hu.2.append hb.2))).perm ?_
    exact (List.perm_append_comm.append_left _).append_left _

theorem declared?_forLoop (initializer : Option Stmt) (condition increment : Option Expr)
    (body : Stmt) : (Stmt.forLoop initializer condition increment body).declared? = none := by
  cases initializer <;> rfl

theorem Statement.declared?_eq_none {d : Bool} {n n' : Nat} {ts : List Token} {s : Stmt}
    (h : Statement d n ts s n') : s.declared? = none := by
  cases h with
  | forLoop _ _ _ _ _ _ _ _ hloop => exact desugars_iff.1 hloop ▸ declared?_forLoop _ _ _ _
  | _ => rfl

mutual

theorem Statement.formed {d : Bool} {n n' : Nat} {ts : List Token} {s : Stmt} :
    Statement d n ts s n' → (∀ t ∈ ts, t.Named P) → s.Formed P ∧ Numbered n s.mentions n'
  | .expression h _, hs => h.formed (named_left hs)
  | .print _ h _, hs => h.formed fun t ht => hs t (by simp [ht])
  | .ret _ h _, hs => formed_ret _ (h.formed fun t ht => hs t (by simp [ht]))
  | .block h, hs => h.formed hs
  | .whileDo _ _ h _ hbody, hs => by
    obtain ⟨hf, hn⟩ := h.formed fun t ht => hs t (by simp [ht])
    obtain ⟨hf', hn'⟩ := hbody.formed fun t ht => hs t (by simp [ht])
    exact ⟨⟨hf, hf', hbody.declared?_eq_none⟩, hn.append hn'⟩
  | .forLoop _ _ hinit hcondition _ hincrement _ hbody hloop, hs => by
    obtain rfl := desugars_iff.1 hloop
    exact formed_forLoop (hinit.formed fun t ht => hs t (by simp [ht]))
      (hcondition.formed fun t ht => hs t (by simp [ht]))
      (hincrement.formed fun t ht => hs t (by simp [ht]))
      (hbody.formed fun t ht => hs t (by simp [ht])) hbody.declared?_eq_none
  | .ifThen _ _ h _ hthen, hs => by
    obtain ⟨hf, hn⟩ := h.formed fun t ht => hs t (by simp [ht])
    obtain ⟨hf', hn'⟩ := hthen.formed fun t ht => hs t (by simp [ht])
    exact ⟨⟨hf, hf', hthen.declared?_eq_none⟩, hn.append hn'⟩
  | .ifElse _ _ h _ hthen _ helse, hs => by
    obtain ⟨hf, hn⟩ := h.formed fun t ht => hs t (by simp [ht])
    obtain ⟨hf', hn'⟩ := hthen.formed fun t ht => hs t (by simp [ht])
    obtain ⟨hf'', hn''⟩ := helse.formed fun t ht => hs t (by simp [ht])
    exact ⟨⟨hf, ⟨hf', hthen.declared?_eq_none⟩, hf'', helse.declared?_eq_none⟩,
      hn.append (hn'.append hn'')⟩

theorem Declaration.formed {n n' : Nat} {ts : List Token} {s : Stmt} :
    Declaration n ts s n' → (∀ t ∈ ts, t.Named P) → s.Formed P ∧ Numbered n s.mentions n'
  | .classDecl _ hname hparent _ hmethods _, hs => by
    obtain ⟨hf, hn⟩ := hparent.formed fun t ht => hs t (by simp [ht])
    obtain ⟨hf', hn'⟩ := hmethods.formed fun t ht => hs t (by simp [ht])
    exact ⟨⟨(hs _ (by simp)).name hname, hf, hf'⟩, hn.append hn'⟩
  | .funDecl _ h, hs => h.formed fun t ht => hs t (by simp [ht])
  | .varDecl _ h, hs => h.formed fun t ht => hs t (by simp [ht])
  | .statement h, hs => h.formed hs

theorem Declarations.formed {n n' : Nat} {ts : List Token} {body : List Stmt} :
    Declarations n ts body n' → (∀ t ∈ ts, t.Named P) →
      Stmt.AllFormed P body ∧ Numbered n (Stmt.allMentions body) n'
  | .nil, _ => ⟨trivial, .nil (Nat.le_refl _)⟩
  | .cons h hrest, hs => by
    obtain ⟨hf, hn⟩ := h.formed (named_left hs)
    obtain ⟨hf', hn'⟩ := hrest.formed (named_right hs)
    exact ⟨⟨hf, hf'⟩, hn.append hn'⟩

theorem Block.formed {n n' : Nat} {ts : List Token} {body : List Stmt} :
    Block n ts body n' → (∀ t ∈ ts, t.Named P) →
      Stmt.AllFormed P body ∧ Numbered n (Stmt.allMentions body) n'
  | .braces _ h _, hs => h.formed fun t ht => hs t (by simp [ht])

theorem Function.formed {n n' : Nat} {ts : List Token} {decl : FunctionDecl} :
    Function n ts decl n' → (∀ t ∈ ts, t.Named P) →
      decl.Formed P ∧ Numbered n decl.mentions n'
  | .named hname _ hparams _ hbody, hs => by
    obtain ⟨hf, hn⟩ := hbody.formed fun t ht => hs t (by simp [ht])
    have hp := hparams.formed fun t ht => hs t (by simp [ht])
    exact ⟨⟨(hs _ List.mem_cons_self).name hname, hp, hf⟩, hn⟩

theorem Methods.formed {n n' : Nat} {ts : List Token} {methods : List FunctionDecl} :
    Methods n ts methods n' → (∀ t ∈ ts, t.Named P) →
      FunctionDecl.AllFormed P methods ∧ Numbered n (FunctionDecl.allMentions methods) n'
  | .nil, _ => ⟨trivial, .nil (Nat.le_refl _)⟩
  | .cons h hrest, hs => by
    obtain ⟨hf, hn⟩ := h.formed (named_left hs)
    obtain ⟨hf', hn'⟩ := hrest.formed (named_right hs)
    exact ⟨⟨hf, hf'⟩, hn.append hn'⟩

end

end Grammar

end LoxLang
