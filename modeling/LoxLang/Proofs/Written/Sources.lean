import LoxLang.Proofs.Grammar.Sources
import LoxLang.Proofs.Scanning.Rescanning
import LoxLang.Proofs.Written.Legible

/-!
# Unique readability

Different programs have different texts, once no string and no infinity is in them: the text of a
statement that was read without an error determines the statement.

1. `Grammar.Declarations.legible`: the trees that are derived of legible tokens.
2. `Reading.text_determines`: two statements, of any two sources, with one text.
-/

namespace LoxLang

/-- The text of the token is text of its kind, and the constant that it stands for, if any, is no
string and no infinity. -/
structure Token.Legible (t : Token) : Prop where
  lexeme : Lexeme t.lexeme.toList (.token t.kind)
  literal : ∀ v, t.kind.literal? = some v → v.Legible

namespace Token.Legible

variable {t : Token}

theorem isIdent (h : t.Legible) (hk : t.kind = .identifier) : t.IsIdent := by
  refine ⟨hk, ?_⟩
  have hlexeme := h.lexeme
  rwa [hk] at hlexeme

theorem isMark (h : t.Legible) {m : Mark} (hk : t.kind = .mark m) {marks : List Mark}
    (hm : m ∈ marks) : t.IsMark marks := by
  have hlexeme := h.lexeme
  rw [hk] at hlexeme
  generalize htext : t.lexeme.toList = text at hlexeme
  cases hlexeme with
  | mark => exact ⟨m, hm, hk, String.toList_inj.1 htext⟩

theorem isWord (h : t.Legible) {k : Keyword} (hk : t.kind = .keyword k) {words : List Keyword}
    (hw : k ∈ words) : t.IsWord words := by
  have hlexeme := h.lexeme
  rw [hk] at hlexeme
  generalize htext : t.lexeme.toList = text at hlexeme
  cases hlexeme with
  | keyword => exact ⟨k, hw, hk, String.toList_inj.1 htext⟩

end Token.Legible

namespace Grammar

section

variable {ts us : List Token}

theorem legible_left (h : ∀ t ∈ ts ++ us, t.Legible) : ∀ t ∈ ts, t.Legible :=
  fun t ht => h t (List.mem_append_left _ ht)

theorem legible_right (h : ∀ t ∈ ts ++ us, t.Legible) : ∀ t ∈ us, t.Legible :=
  fun t ht => h t (List.mem_append_right _ ht)

end

/-! ## Expressions -/

/-- What a level of operators builds is legible. -/
theorem legible_build {level : Level} (hlevel : level ∈ Level.all) {t : Token} (ht : t.Legible)
    (hk : t.kind ∈ level.operators) {left right : Expr} (hleft : left.Legible)
    (hright : right.Legible) : (level.build left t right).Legible := by
  simp only [Level.all, List.mem_cons, List.not_mem_nil, or_false] at hlevel
  rcases hlevel with rfl | rfl | rfl | rfl | rfl | rfl <;>
    simp only [List.mem_cons, List.not_mem_nil, or_false] at hk
  · exact ⟨hleft, ht.isWord hk (by decide), hright⟩
  · exact ⟨hleft, ht.isWord hk (by decide), hright⟩
  · rcases hk with hk | hk <;> exact ⟨hleft, ht.isMark hk (by decide), hright⟩
  · rcases hk with hk | hk | hk | hk <;> exact ⟨hleft, ht.isMark hk (by decide), hright⟩
  · rcases hk with hk | hk <;> exact ⟨hleft, ht.isMark hk (by decide), hright⟩
  · rcases hk with hk | hk <;> exact ⟨hleft, ht.isMark hk (by decide), hright⟩

mutual

theorem Expression.legible {n n' : Nat} {ts : List Token} {e : Expr} :
    Expression n ts e n' → (∀ t ∈ ts, t.Legible) → e.Legible
  | .assign hname _ h, hs =>
    ⟨(hs _ (by simp)).isIdent hname, h.legible fun t ht => hs t (by simp [ht])⟩
  | .set hobject _ hname _ hvalue, hs =>
    ⟨hobject.legible (legible_left hs), (hs _ (by simp)).isIdent hname,
      hvalue.legible fun t ht => hs t (by simp [ht])⟩
  | .operators h, hs => h.legible (fun _ hm => hm) hs

theorem Operators.legible {levels : List Level} {n n' : Nat} {ts : List Token} {e : Expr} :
    Operators levels n ts e n' → (∀ level ∈ levels, level ∈ Level.all) →
      (∀ t ∈ ts, t.Legible) → e.Legible
  | .operand h, _, hs => h.legible hs
  | .tighter h, hl, hs => h.legible (fun l hm => hl l (List.mem_cons_of_mem _ hm)) hs
  | .operator hleft hk hright, hl, hs =>
    legible_build (hl _ List.mem_cons_self) (hs _ (by simp)) hk
      (hleft.legible hl (legible_left hs))
      (hright.legible (fun l hm => hl l (List.mem_cons_of_mem _ hm))
        fun t ht => hs t (by simp [ht]))

theorem Unary.legible {n n' : Nat} {ts : List Token} {e : Expr} :
    Unary n ts e n' → (∀ t ∈ ts, t.Legible) → e.Legible
  | .operator hk h, hs => by
    have hoperand := h.legible fun t ht => hs t (by simp [ht])
    rcases hk with hk | hk <;>
      exact ⟨(hs _ List.mem_cons_self).isMark hk (by decide), hoperand⟩
  | .call h, hs => h.legible hs

theorem Call.legible {n n' : Nat} {ts : List Token} {e : Expr} :
    Call n ts e n' → (∀ t ∈ ts, t.Legible) → e.Legible
  | .primary h, hs => h.legible hs
  | .call h _ hargs _ hclose, hs =>
    ⟨h.legible (legible_left hs), (hs _ (by simp)).isMark hclose (by decide),
      hargs.legible fun t ht => hs t (by simp [ht])⟩
  | .get h _ hname, hs => ⟨h.legible (legible_left hs), (hs _ (by simp)).isIdent hname⟩

theorem Arguments.legible {n n' : Nat} {ts : List Token} {es : List Expr} :
    Arguments n ts es n' → (∀ t ∈ ts, t.Legible) → Expr.AllLegible es
  | .none, _ => trivial
  | .some h, hs => h.legible hs

theorem Listed.legible {n n' : Nat} {ts : List Token} {es : List Expr} :
    Listed n ts es n' → (∀ t ∈ ts, t.Legible) → Expr.AllLegible es
  | .one h, hs => ⟨h.legible hs, trivial⟩
  | .more h _ hrest, hs =>
    ⟨h.legible (legible_left hs), hrest.legible fun t ht => hs t (by simp [ht])⟩

theorem Primary.legible {n n' : Nat} {ts : List Token} {e : Expr} :
    Primary n ts e n' → (∀ t ∈ ts, t.Legible) → e.Legible
  | .literal hk, hs => (hs _ List.mem_cons_self).literal _ hk
  | .this hk, hs => (hs _ List.mem_cons_self).isWord hk (by decide)
  | .var hk, hs => (hs _ List.mem_cons_self).isIdent hk
  | .super hk _ hmethod, hs =>
    ⟨(hs _ List.mem_cons_self).isWord hk (by decide), (hs _ (by simp)).isIdent hmethod⟩
  | .grouping _ h _, hs => h.legible fun t ht => hs t (by simp [ht])

end

/-! ## Statements and declarations -/

theorem Clause.legible {n n' : Nat} {ts : List Token} {o : Option Expr} (h : Clause n ts o n')
    (hs : ∀ t ∈ ts, t.Legible) : ∀ e ∈ o, e.Legible := by
  cases h with
  | none => exact nofun
  | some h =>
    intro e he
    obtain rfl := Option.mem_some_iff.1 he
    exact h.legible hs

theorem Variable.legible {n n' : Nat} {ts : List Token} {s : Stmt} (h : Variable n ts s n')
    (hs : ∀ t ∈ ts, t.Legible) : s.Legible := by
  cases h with
  | bare hname _ => exact ⟨(hs _ List.mem_cons_self).isIdent hname, nofun⟩
  | initialized hname _ h _ =>
    refine ⟨(hs _ List.mem_cons_self).isIdent hname, ?_⟩
    intro e he
    obtain rfl := Option.mem_some_iff.1 he
    exact h.legible fun t ht => hs t (by simp [ht])

theorem Initializer.legible {n n' : Nat} {ts : List Token} {o : Option Stmt}
    (h : Initializer n ts o n') (hs : ∀ t ∈ ts, t.Legible) : ∀ s ∈ o, s.Legible := by
  cases h with
  | none _ => exact nofun
  | declaration _ h =>
    intro s hmem
    obtain rfl := Option.mem_some_iff.1 hmem
    exact h.legible fun t ht => hs t (by simp [ht])
  | expression h _ =>
    intro s hmem
    obtain rfl := Option.mem_some_iff.1 hmem
    exact h.legible (legible_left hs)

theorem Names.legible {ts names : List Token} (h : Names ts names) (hs : ∀ t ∈ ts, t.Legible) :
    ∀ p ∈ names, p.IsIdent := by
  induction h with
  | one hk => simpa using (hs _ List.mem_cons_self).isIdent hk
  | more hk _ _ ih =>
    exact List.forall_mem_cons.2 ⟨(hs _ List.mem_cons_self).isIdent hk,
      ih fun t ht => hs t (by simp [ht])⟩

theorem Parameters.legible {ts names : List Token} (h : Parameters ts names)
    (hs : ∀ t ∈ ts, t.Legible) : ∀ p ∈ names, p.IsIdent := by
  cases h with
  | none => exact nofun
  | some h _ => exact h.legible hs

theorem Superclass.legible {n n' : Nat} {ts : List Token} {o : Option Occurrence}
    (h : Superclass n ts o n') (hs : ∀ t ∈ ts, t.Legible) : ∀ p ∈ o, p.token.IsIdent := by
  cases h with
  | none => exact nofun
  | some _ hk =>
    intro p hp
    obtain rfl := Option.mem_some_iff.1 hp
    exact (hs _ (by simp)).isIdent hk

/-- A `for` loop is legible as its clauses are. -/
theorem legible_forLoop {initializer : Option Stmt} {condition increment : Option Expr}
    {body : Stmt} (hi : ∀ s ∈ initializer, s.Legible) (hc : ∀ e ∈ condition, e.Legible)
    (hu : ∀ e ∈ increment, e.Legible) (hb : body.Legible) :
    (Stmt.forLoop initializer condition increment body).Legible := by
  cases initializer <;> cases condition <;> cases increment <;>
    simp_all [Stmt.forLoop, Stmt.Legible, Stmt.AllLegible, Expr.Legible, Literal.Legible]

mutual

theorem Statement.legible {d : Bool} {n n' : Nat} {ts : List Token} {s : Stmt} :
    Statement d n ts s n' → (∀ t ∈ ts, t.Legible) → s.Legible
  | .expression h _, hs => h.legible (legible_left hs)
  | .print _ h _, hs => h.legible fun t ht => hs t (by simp [ht])
  | .ret hk h _, hs =>
    ⟨(hs _ List.mem_cons_self).isWord hk (by decide), h.legible fun t ht => hs t (by simp [ht])⟩
  | .block h, hs => h.legible hs
  | .whileDo _ _ h _ hbody, hs =>
    ⟨h.legible fun t ht => hs t (by simp [ht]), hbody.legible fun t ht => hs t (by simp [ht])⟩
  | .forLoop _ _ hinit hcondition _ hincrement _ hbody hloop, hs => by
    obtain rfl := desugars_iff.1 hloop
    exact legible_forLoop (hinit.legible fun t ht => hs t (by simp [ht]))
      (hcondition.legible fun t ht => hs t (by simp [ht]))
      (hincrement.legible fun t ht => hs t (by simp [ht]))
      (hbody.legible fun t ht => hs t (by simp [ht]))
  | .ifThen _ _ h _ hthen, hs =>
    ⟨h.legible fun t ht => hs t (by simp [ht]), hthen.legible fun t ht => hs t (by simp [ht])⟩
  | .ifElse _ _ h _ hthen _ helse, hs =>
    ⟨h.legible fun t ht => hs t (by simp [ht]), hthen.legible fun t ht => hs t (by simp [ht]),
      helse.legible fun t ht => hs t (by simp [ht])⟩

theorem Declaration.legible {n n' : Nat} {ts : List Token} {s : Stmt} :
    Declaration n ts s n' → (∀ t ∈ ts, t.Legible) → s.Legible
  | .classDecl _ hname hparent _ hmethods _, hs =>
    ⟨(hs _ (by simp)).isIdent hname, hparent.legible fun t ht => hs t (by simp [ht]),
      hmethods.legible fun t ht => hs t (by simp [ht])⟩
  | .funDecl _ h, hs => h.legible fun t ht => hs t (by simp [ht])
  | .varDecl _ h, hs => h.legible fun t ht => hs t (by simp [ht])
  | .statement h, hs => h.legible hs

theorem Declarations.legible {n n' : Nat} {ts : List Token} {body : List Stmt} :
    Declarations n ts body n' → (∀ t ∈ ts, t.Legible) → Stmt.AllLegible body
  | .nil, _ => trivial
  | .cons h hrest, hs => ⟨h.legible (legible_left hs), hrest.legible (legible_right hs)⟩

theorem Block.legible {n n' : Nat} {ts : List Token} {body : List Stmt} :
    Block n ts body n' → (∀ t ∈ ts, t.Legible) → Stmt.AllLegible body
  | .braces _ h _, hs => h.legible fun t ht => hs t (by simp [ht])

theorem Function.legible {n n' : Nat} {ts : List Token} {decl : FunctionDecl} :
    Function n ts decl n' → (∀ t ∈ ts, t.Legible) → decl.Legible
  | .named hname _ hparams _ hbody, hs =>
    ⟨(hs _ List.mem_cons_self).isIdent hname, hparams.legible fun t ht => hs t (by simp [ht]),
      hbody.legible fun t ht => hs t (by simp [ht])⟩

theorem Methods.legible {n n' : Nat} {ts : List Token} {methods : List FunctionDecl} :
    Methods n ts methods n' → (∀ t ∈ ts, t.Legible) → FunctionDecl.AllLegible methods
  | .nil, _ => trivial
  | .cons h hrest, hs => ⟨h.legible (legible_left hs), hrest.legible (legible_right hs)⟩

end

end Grammar

theorem Stmt.legible_of_mem {ss : List Stmt} (h : Stmt.AllLegible ss) {s : Stmt} (hs : s ∈ ss) :
    s.Legible := by
  induction ss with
  | nil => exact absurd hs List.not_mem_nil
  | cons s' ss ih =>
    rcases List.mem_cons.1 hs with rfl | hs
    · exact h.1
    · exact ih h.2 hs

/-! ## Sources -/

/-- Neither a string nor a number that is too large for a double. -/
def Kind.isPlain : Kind → Bool
  | .string _ => false
  | .number value =>
    match Binary64.ofFloat value with
    | .infinite _ => false
    | _ => true
  | _ => true

/-- No string stands in the source, and no number that is too large for a double. -/
def Plain (source : String) : Prop :=
  ∀ t ∈ (scan source).1, t.kind.isPlain

/-- What a source has for tokens is text of their kinds. -/
theorem lexeme_of_scan {source : String} {t : Token} (ht : t ∈ (scan source).1)
    (hend : t.kind ≠ .eof) : Lexeme t.lexeme.toList (.token t.kind) := by
  rw [scan_fst] at ht
  rcases List.mem_append.1 ht with ht | ht
  · obtain ⟨span, hspan, hshape, htext⟩ := Item.span_of_mem_tokens ht
    obtain ⟨kind, hkind, hlexeme⟩ := Span.isWord_of_mem_tile hspan (by simp [Span.isToken, hshape])
    rw [hshape] at hkind
    obtain rfl : t.kind = kind := by simpa using hkind
    rwa [htext, String.toList_ofList]
  · obtain rfl := List.mem_singleton.1 ht
    exact absurd rfl hend

/-- The value of a number token is read from its digits, and so it is a number. -/
theorem ofFloat_ne_of_lexeme {text : List Char} {value : Float}
    (h : Lexeme text (.token (.number value))) : Binary64.ofFloat value ≠ .notANumber := by
  cases h with
  | whole _ => exact Lexical.ofFloat_numberValue_ne _ _
  | decimal _ _ => exact Lexical.ofFloat_numberValue_ne _ _

/-- The constants that literals stand for are strings and numbers where the literals are. -/
theorem Kind.eq_of_literal? {k : Kind} {v : Literal} (h : k.literal? = some v) :
    v = .nil ∨ (∃ b, v = .boolean b) ∨ (∃ x, v = .number x ∧ k = .number x) ∨
      ∃ contents, v = .string contents ∧ k = .string contents := by
  cases k with
  | number x => exact .inr (.inr (.inl ⟨x, (Option.some.inj h).symm, rfl⟩))
  | string contents => exact .inr (.inr (.inr ⟨contents, (Option.some.inj h).symm, rfl⟩))
  | keyword k =>
    cases k with
    | nilWord => exact .inl (Option.some.inj h).symm
    | trueWord => exact .inr (.inl ⟨true, (Option.some.inj h).symm⟩)
    | falseWord => exact .inr (.inl ⟨false, (Option.some.inj h).symm⟩)
    | _ => exact nomatch h
  | _ => exact nomatch h

theorem Plain.legible {source : String} (h : Plain source) {t : Token}
    (ht : t ∈ (scan source).1) (hend : t.kind ≠ .eof) : t.Legible := by
  have hlexeme := lexeme_of_scan ht hend
  have hplain := h t ht
  refine ⟨hlexeme, fun v hv => ?_⟩
  rcases Kind.eq_of_literal? hv with rfl | ⟨b, rfl⟩ | ⟨x, rfl, hk⟩ | ⟨contents, rfl, hk⟩
  · trivial
  · trivial
  · rw [hk] at hlexeme
    rw [hk, Kind.isPlain] at hplain
    change ∃ negative coefficient exponent, _ = Binary64.finite negative coefficient exponent
    cases hvalue : Binary64.ofFloat x with
    | notANumber => exact absurd hvalue (ofFloat_ne_of_lexeme hlexeme)
    | infinite negative => simp [hvalue] at hplain
    | finite negative coefficient exponent => exact ⟨_, _, _, rfl⟩
  · rw [hk] at hplain
    exact nomatch hplain

namespace Reading

theorem legible_of_plain {source : String} {first : Nat}
    (h : (ofSource source first).errors = []) (hplain : Plain source) :
    Stmt.AllLegible (ofSource source first).statements := by
  refine (errors_eq_nil_iff.1 h).2.legible fun t ht => ?_
  have hscan := (List.takeWhile_sublist _).subset ht
  have hend : t.isEnd = false := by simpa using List.mem_takeWhile_imp ht
  exact hplain.legible hscan (by simpa [Token.isEnd] using hend)

/-- Statements of two sources without errors, strings and infinities: where their texts are the
same, the statements are, up to the numbers of their mentions, the lines of their tokens, and
numbers that print the same. -/
theorem text_determines {source source' : String} {first first' : Nat} {s s' : Stmt}
    (h : (ofSource source first).errors = []) (h' : (ofSource source' first').errors = [])
    (hplain : Plain source) (hplain' : Plain source')
    (hs : s ∈ (ofSource source first).statements)
    (hs' : s' ∈ (ofSource source' first').statements) (htext : s.text = s'.text) :
    s.Agrees s' :=
  Stmt.agrees_of_text_eq (Stmt.legible_of_mem (legible_of_plain h hplain) hs)
    (Stmt.legible_of_mem (legible_of_plain h' hplain') hs') htext

/-- A number is printed alike on one line or on two, with a zero more or less. -/
theorem text_determines_print :
    let source := "print 1.50;"
    let source' := "print\n1.5;"
    ((ofSource source 0).errors = [] ∧ (ofSource source' 7).errors = [] ∧ Plain source ∧
      Plain source') ∧
      ∃ s ∈ (ofSource source 0).statements, ∃ s' ∈ (ofSource source' 7).statements,
        s.text = "(print 1.5)" ∧ s'.text = "(print 1.5)" ∧ s.Agrees s' := by
  intro source source'
  have h : (ofSource source 0).errors = [] := by decide +kernel
  have h' : (ofSource source' 7).errors = [] := by decide +kernel
  have htexts : (ofSource source 0).statements.map Stmt.text = ["(print 1.5)"] := by
    decide +kernel
  have htexts' : (ofSource source' 7).statements.map Stmt.text = ["(print 1.5)"] := by
    decide +kernel
  have hplain : Plain source := by unfold Plain; decide +kernel
  have hplain' : Plain source' := by unfold Plain; decide +kernel
  obtain ⟨s, hs, htext⟩ := List.mem_map.1 (htexts ▸ List.mem_singleton_self _)
  obtain ⟨s', hs', htext'⟩ := List.mem_map.1 (htexts' ▸ List.mem_singleton_self _)
  exact ⟨⟨h, h', hplain, hplain'⟩, s, hs, s', hs', htext, htext',
    text_determines h h' hplain hplain' hs hs' (htext.trans htext'.symm)⟩

end Reading

end LoxLang
