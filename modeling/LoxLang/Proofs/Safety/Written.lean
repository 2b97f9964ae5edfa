import LoxLang.Proofs.Copies.Code
import LoxLang.Proofs.Grammar.Sources
import LoxLang.Proofs.Lookups.Failures

/-!
# What the grammar lets be written

Between operands there are only operators of the language, and only names are declared, read and
assigned to. So it is in every piece of a program that is read without an error.

1. `Operator.isInternal_unary`, `Operator.isInternal_binary`: such operators are known.
2. `Reading.written_of_accepted`: programs are written so.
-/

namespace LoxLang

namespace Operator

/-- The operators before an operand. -/
def unaries : List Kind :=
  [.mark .bang, .mark .minus]

/-- The operators between two operands that are both evaluated. -/
def binaries : List Kind :=
  [.mark .bangEqual, .mark .equalEqual, .mark .greater, .mark .greaterEqual, .mark .less,
    .mark .lessEqual, .mark .minus, .mark .plus, .mark .slash, .mark .star]

variable {σ : Type} {operator : Kind} {fault : RuntimeFault}

theorem isInternal_unary (h : operator ∈ unaries) {operand : Value σ}
    (hfault : unary operator operand = .error fault) : fault.isInternal = false := by
  simp only [unaries, List.mem_cons, List.not_mem_nil, or_false] at h
  rcases h with rfl | rfl
  · exact nomatch hfault
  · cases operand <;> cases hfault <;> rfl

theorem numeric_ne_error (h : operator ∈ binaries) (hequal : operator ≠ .mark .equalEqual)
    (hbang : operator ≠ .mark .bangEqual) (hplus : operator ≠ .mark .plus) (a b : Float) :
    (numeric operator a b : Except RuntimeFault (Value σ)) ≠ .error fault := by
  simp only [binaries, List.mem_cons, List.not_mem_nil, or_false] at h
  rcases h with rfl | rfl | rfl | rfl | rfl | rfl | rfl | rfl | rfl | rfl
  · exact absurd rfl hbang
  · exact absurd rfl hequal
  all_goals first | exact absurd rfl hplus | exact nofun

theorem isInternal_binary (h : operator ∈ binaries) {left right : Value σ}
    (hfault : binary operator left right = .error fault) : fault.isInternal = false := by
  unfold binary at hfault
  split at hfault
  · exact nomatch hfault
  · exact nomatch hfault
  · unfold add at hfault
    split at hfault <;> cases hfault
    rfl
  · next hequal hbang hplus =>
    split at hfault
    · exact absurd hfault (numeric_ne_error h hequal hbang hplus _ _)
    · cases hfault
      rfl

end Operator

/-- If the piece is an operation on values then its operator is one of the language. -/
def Code.Operates : Code → Prop
  | expr (.unary operator _) => operator.kind ∈ Operator.unaries
  | expr (.binary _ operator _) => operator.kind ∈ Operator.binaries
  | _ => True

/-! ## Operators -/

namespace Grammar

/-- The operators of a level are operations on values, or stand for `and` or `or`. -/
theorem build_of_mem_all {level : Level} (h : level ∈ Level.all) :
    level.build = .logical ∨ level.build = .binary ∧ level.operators ⊆ Operator.binaries := by
  simp only [Level.all, List.mem_cons, List.not_mem_nil, or_false] at h
  rcases h with rfl | rfl | rfl | rfl | rfl | rfl
  · exact .inl rfl
  · exact .inl rfl
  all_goals exact .inr ⟨rfl, by simp [Operator.binaries]⟩

theorem operates_build {level : Level} (hl : level ∈ Level.all) {operator : Token}
    (ho : operator.kind ∈ level.operators) {left right : Expr}
    (hleft : Code.All Code.Operates (.expr left))
    (hright : Code.All Code.Operates (.expr right)) :
    Code.All Code.Operates (.expr (level.build left operator right)) := by
  have hparts : ∀ c ∈ [Code.expr left, Code.expr right], Code.All Code.Operates c := by
    simpa using ⟨hleft, hright⟩
  rcases build_of_mem_all hl with hbuild | ⟨hbuild, hoperators⟩
  · rw [hbuild]
    exact .intro trivial hparts
  · rw [hbuild]
    exact .intro (hoperators ho) hparts

mutual

theorem Expression.operates {n n' : Nat} {ts : List Token} {e : Expr} :
    Expression n ts e n' → Code.All Code.Operates (.expr e)
  | .assign _ _ h =>
    .intro trivial (by simpa [Code.parts] using h.operates)
  | .set hobject _ _ _ hvalue =>
    .intro trivial (by simpa [Code.parts] using ⟨hobject.operates, hvalue.operates⟩)
  | .operators h => h.operates fun _ hm => hm

theorem Operators.operates {levels : List Level} {n n' : Nat} {ts : List Token} {e : Expr} :
    Operators levels n ts e n' → (∀ level ∈ levels, level ∈ Level.all) →
      Code.All Code.Operates (.expr e)
  | .operand h, _ => h.operates
  | .tighter h, hl => h.operates fun l hm => hl l (List.mem_cons_of_mem _ hm)
  | .operator hleft ho hright, hl =>
    operates_build (hl _ List.mem_cons_self) ho (hleft.operates hl)
      (hright.operates fun l hm => hl l (List.mem_cons_of_mem _ hm))

theorem Unary.operates {n n' : Nat} {ts : List Token} {e : Expr} :
    Unary n ts e n' → Code.All Code.Operates (.expr e)
  | .operator hk h =>
    .intro (by simpa [Code.Operates, Operator.unaries] using hk)
      (by simpa [Code.parts] using h.operates)
  | .call h => h.operates

theorem Call.operates {n n' : Nat} {ts : List Token} {e : Expr} :
    Call n ts e n' → Code.All Code.Operates (.expr e)
  | .primary h => h.operates
  | .call h _ hargs _ _ =>
    .intro trivial (by simpa [Code.parts] using ⟨h.operates, hargs.operates⟩)
  | .get h _ _ => .intro trivial (by simpa [Code.parts] using h.operates)

theorem Arguments.operates {n n' : Nat} {ts : List Token} {es : List Expr} :
    Arguments n ts es n' → ∀ e ∈ es, Code.All Code.Operates (.expr e)
  | .none => nofun
  | .some h => h.operates

theorem Listed.operates {n n' : Nat} {ts : List Token} {es : List Expr} :
    Listed n ts es n' → ∀ e ∈ es, Code.All Code.Operates (.expr e)
  | .one h => by simpa using h.operates
  | .more h _ hrest => List.forall_mem_cons.2 ⟨h.operates, hrest.operates⟩

theorem Primary.operates {n n' : Nat} {ts : List Token} {e : Expr} :
    Primary n ts e n' → Code.All Code.Operates (.expr e)
  | .literal _ | .this _ | .var _ | .super _ _ _ => .intro trivial nofun
  | .grouping _ h _ => .intro trivial (by simpa [Code.parts] using h.operates)

end

/-! ## Statements and declarations -/

theorem Clause.operates {n n' : Nat} {ts : List Token} {o : Option Expr} (h : Clause n ts o n') :
    ∀ e ∈ o, Code.All Code.Operates (.expr e) := by
  cases h with
  | none => exact nofun
  | some h => simpa using h.operates

theorem Variable.operates {n n' : Nat} {ts : List Token} {s : Stmt} (h : Variable n ts s n') :
    Code.All Code.Operates (.stmt s) := by
  cases h with
  | bare _ _ => exact .intro trivial nofun
  | initialized _ _ h _ =>
    exact .intro trivial (by simpa [Code.parts] using h.operates)

theorem Initializer.operates {n n' : Nat} {ts : List Token} {o : Option Stmt}
    (h : Initializer n ts o n') : ∀ s ∈ o, Code.All Code.Operates (.stmt s) := by
  cases h with
  | none _ => exact nofun
  | declaration _ h => simpa using h.operates
  | expression h _ =>
    have hstmt : Code.All Code.Operates (.stmt (.expression _)) :=
      .intro trivial (by simpa [Code.parts] using h.operates)
    simpa using hstmt

theorem operates_forLoop {initializer : Option Stmt} {condition increment : Option Expr}
    {body : Stmt} (hi : ∀ s ∈ initializer, Code.All Code.Operates (.stmt s))
    (hc : ∀ e ∈ condition, Code.All Code.Operates (.expr e))
    (hu : ∀ e ∈ increment, Code.All Code.Operates (.expr e))
    (hb : Code.All Code.Operates (.stmt body)) :
    Code.All Code.Operates (.stmt (Stmt.forLoop initializer condition increment body)) := by
  obtain ⟨inner, hinner, hfor⟩ : ∃ inner, Code.All Code.Operates (.stmt inner) ∧
      Stmt.forLoop initializer condition increment body =
        Stmt.forLoop initializer condition none inner := by
    cases increment with
    | none => exact ⟨body, hb, rfl⟩
    | some increment =>
      have hlast : Code.All Code.Operates (.stmt (.expression increment)) :=
        .intro trivial (by simpa [Code.parts] using hu)
      have hblock : Code.All Code.Operates (.stmt (.block [body, .expression increment])) :=
        .intro trivial (by simpa [Code.parts] using ⟨hb, hlast⟩)
      exact ⟨_, hblock, rfl⟩
  have hcondition : Code.All Code.Operates
      (.expr (condition.getD (.literal (.boolean true)))) := by
    cases condition with
    | none => exact .intro trivial nofun
    | some condition => exact hc condition rfl
  have hloop : Code.All Code.Operates
      (.stmt (.whileDo (condition.getD (.literal (.boolean true))) inner)) :=
    .intro trivial (by simpa [Code.parts] using ⟨hcondition, hinner⟩)
  rw [hfor]
  cases initializer with
  | none => exact hloop
  | some initializer =>
    have hall : ∀ c ∈ [Code.stmt initializer,
        .stmt (.whileDo (condition.getD (.literal (.boolean true))) inner)],
        Code.All Code.Operates c := by
      simpa using ⟨hi initializer rfl, hloop⟩
    exact .intro trivial hall

mutual

theorem Statement.operates {d : Bool} {n n' : Nat} {ts : List Token} {s : Stmt} :
    Statement d n ts s n' → Code.All Code.Operates (.stmt s)
  | .expression h _ => .intro trivial (by simpa [Code.parts] using h.operates)
  | .print _ h _ => .intro trivial (by simpa [Code.parts] using h.operates)
  | .ret _ h _ => .intro trivial (by simpa [Code.parts] using h.operates)
  | .block h => .intro trivial (by simpa [Code.parts] using h.operates)
  | .whileDo _ _ h _ hbody =>
    .intro trivial (by simpa [Code.parts] using ⟨h.operates, hbody.operates⟩)
  | .forLoop _ _ hinit hcondition _ hincrement _ hbody hloop => by
    obtain rfl := desugars_iff.1 hloop
    exact operates_forLoop hinit.operates hcondition.operates hincrement.operates hbody.operates
  | .ifThen _ _ h _ hthen =>
    .intro trivial (by simpa [Code.parts] using ⟨h.operates, hthen.operates⟩)
  | .ifElse _ _ h _ hthen _ helse =>
    .intro trivial (by simpa [Code.parts] using ⟨h.operates, hthen.operates, helse.operates⟩)

theorem Declaration.operates {n n' : Nat} {ts : List Token} {s : Stmt} :
    Declaration n ts s n' → Code.All Code.Operates (.stmt s)
  | .classDecl _ _ _ _ hmethods _ =>
    .intro trivial (by simpa [Code.parts] using hmethods.operates)
  | .funDecl _ h => .intro trivial (by simpa [Code.parts] using h.operates)
  | .varDecl _ h => h.operates
  | .statement h => h.operates

theorem Declarations.operates {n n' : Nat} {ts : List Token} {body : List Stmt} :
    Declarations n ts body n' → ∀ s ∈ body, Code.All Code.Operates (.stmt s)
  | .nil => nofun
  | .cons h hrest => List.forall_mem_cons.2 ⟨h.operates, hrest.operates⟩

theorem Block.operates {n n' : Nat} {ts : List Token} {body : List Stmt} :
    Block n ts body n' → ∀ s ∈ body, Code.All Code.Operates (.stmt s)
  | .braces _ h _ => h.operates

theorem Function.operates {n n' : Nat} {ts : List Token} {decl : FunctionDecl} :
    Function n ts decl n' → Code.All Code.Operates (.function decl)
  | .named _ _ _ _ hbody => .intro trivial (by simpa [Code.parts] using hbody.operates)

theorem Methods.operates {n n' : Nat} {ts : List Token} {methods : List FunctionDecl} :
    Methods n ts methods n' → ∀ m ∈ methods, Code.All Code.Operates (.function m)
  | .nil => nofun
  | .cons h hrest => List.forall_mem_cons.2 ⟨h.operates, hrest.operates⟩

end

end Grammar

/-! ## Names -/

theorem Expr.allFormed_iff {P : String → Prop} {es : List Expr} :
    Expr.AllFormed P es ↔ ∀ e ∈ es, e.Formed P := by
  induction es with
  | nil => simp [Expr.AllFormed]
  | cons e rest ih => simp [Expr.AllFormed, ih]

theorem Stmt.allFormed_iff {P : String → Prop} {body : List Stmt} :
    Stmt.AllFormed P body ↔ ∀ s ∈ body, s.Formed P := by
  induction body with
  | nil => simp [Stmt.AllFormed]
  | cons s rest ih => simp [Stmt.AllFormed, ih]

theorem FunctionDecl.allFormed_iff {P : String → Prop} {methods : List FunctionDecl} :
    FunctionDecl.AllFormed P methods ↔ ∀ m ∈ methods, m.Formed P := by
  induction methods with
  | nil => simp [FunctionDecl.AllFormed]
  | cons m rest ih => simp [FunctionDecl.AllFormed, ih]

namespace Code

/-- The names in a piece are such. -/
def Formed (P : String → Prop) : Code → Prop
  | expr e => e.Formed P
  | stmt s => s.Formed P
  | function decl => decl.Formed P

variable {P : String → Prop}

theorem Formed.parts {c : Code} (h : c.Formed P) : ∀ c' ∈ c.parts, c'.Formed P := by
  cases c with
  | expr e =>
    cases e <;> simp_all [Formed, Code.parts, Expr.Formed, Expr.allFormed_iff]
  | stmt s =>
    cases s with
    | varDecl name initializer =>
      cases initializer <;> simp_all [Formed, Code.parts, Stmt.Formed]
    | ret keyword value => cases value <;> simp_all [Formed, Code.parts, Stmt.Formed]
    | _ =>
      simp_all [Formed, Code.parts, Stmt.Formed, Stmt.allFormed_iff, FunctionDecl.allFormed_iff]
  | function decl =>
    obtain ⟨name, params, body⟩ := decl
    simpa [Formed, Code.parts, Stmt.allFormed_iff] using h.2.2

theorem Formed.names {c : Code} (h : c.Formed P) : ∀ x ∈ c.names, P x := by
  cases c with
  | expr e => cases e <;> simp_all [Formed, Code.names, Expr.Formed]
  | stmt s =>
    cases s with
    | varDecl name initializer =>
      cases initializer <;> simp_all [Formed, Code.names, Stmt.Formed]
    | funDecl decl =>
      simpa [Code.names] using decl.name_of_formed (P := P) h
    | _ => simp_all [Formed, Code.names, Stmt.Formed]
  | function decl =>
    obtain ⟨name, params, body⟩ := decl
    simpa [Code.names] using h.2.1

/-- A piece is as the grammar has it. -/
structure Written (c : Code) : Prop where
  formed : c.Formed IsName
  operates : All Operates c

theorem written_hereditary : Hereditary Written :=
  fun h _ hpart => ⟨h.formed.parts _ hpart, h.operates.part hpart⟩

end Code

/-- A source without an error is written as the grammar has it. -/
theorem Reading.written_of_accepted {source : String} {first : Nat}
    (h : (ofSource source first).errors = []) :
    ∀ s ∈ (ofSource source first).statements, (Code.stmt s).Written := fun s hs =>
  ⟨Stmt.allFormed_iff.1 (formed_of_accepted h).1 s hs,
    (errors_eq_nil_iff.1 h).2.operates s hs⟩

end LoxLang
