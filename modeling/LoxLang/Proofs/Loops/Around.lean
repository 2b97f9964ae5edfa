import LoxLang.Proofs.Grammar.Unnumbered

/-!
# Statements in their places

A program with a statement somewhere in it: what stands before the statement, and what behind. In
its place may stand what uses up the same numbers, and does not end with an `if` that has no `else`
unless the statement does; else an `else` behind it would find another `if`.

1. `Grammar.DeclarationsAround.fill`: the statement in its place.
2. `Grammar.DeclarationsAround.replace`: what may stand in its place.
-/

namespace LoxLang

namespace Grammar

section

variable (Hole : Bool → Nat → Stmt → Nat → Prop)

mutual

/-- A statement with some statement in it, itself perhaps. -/
inductive StatementAround :
    Bool → Nat → List Token → List Token → Stmt → Nat → Prop
  | here {d : Bool} {n n' : Nat} {s : Stmt} : Hole d n s n' → StatementAround d n [] [] s n'
  | block {n n' : Nat} {pre post : List Token} {body : List Stmt} :
      BlockAround n pre post body n' → StatementAround false n pre post (.block body) n'
  | whileDo {d : Bool} {n n₁ n' : Nat} {word opening close : Token} {ts pre post : List Token}
      {condition : Expr} {body : Stmt} :
      word.kind = .keyword .whileWord → opening.kind = .mark .leftParen →
      Expression n ts condition n₁ → close.kind = .mark .rightParen →
      StatementAround d n₁ pre post body n' →
      StatementAround d n (word :: opening :: (ts ++ close :: pre)) post
        (.whileDo condition body) n'
  | forLoop {d : Bool} {n n₁ n₂ n₃ n' : Nat} {word opening semicolon close : Token}
      {ts us vs pre post : List Token} {initializer : Option Stmt}
      {condition increment : Option Expr} {body s : Stmt} :
      word.kind = .keyword .forWord → opening.kind = .mark .leftParen →
      Initializer n ts initializer n₁ → Clause n₁ us condition n₂ →
      semicolon.kind = .mark .semicolon → Clause n₂ vs increment n₃ →
      close.kind = .mark .rightParen → StatementAround d n₃ pre post body n' →
      Desugars initializer condition increment body s →
      StatementAround d n
        (word :: opening :: (ts ++ (us ++ semicolon :: (vs ++ close :: pre)))) post s n'
  | ifThen {d : Bool} {n n₁ n' : Nat} {word opening close : Token} {ts pre post : List Token}
      {condition : Expr} {thenBranch : Stmt} :
      word.kind = .keyword .ifWord → opening.kind = .mark .leftParen →
      Expression n ts condition n₁ → close.kind = .mark .rightParen →
      StatementAround d n₁ pre post thenBranch n' →
      StatementAround true n (word :: opening :: (ts ++ close :: pre)) post
        (.ifThen condition thenBranch) n'
  | ifElseThen {d : Bool} {n n₁ n₂ n' : Nat} {word opening close other : Token}
      {ts pre post vs : List Token} {condition : Expr} {thenBranch elseBranch : Stmt} :
      word.kind = .keyword .ifWord → opening.kind = .mark .leftParen →
      Expression n ts condition n₁ → close.kind = .mark .rightParen →
      StatementAround false n₁ pre post thenBranch n₂ → other.kind = .keyword .elseWord →
      Statement d n₂ vs elseBranch n' →
      StatementAround d n (word :: opening :: (ts ++ close :: pre)) (post ++ other :: vs)
        (.ifElse condition thenBranch elseBranch) n'
  | ifElseElse {d : Bool} {n n₁ n₂ n' : Nat} {word opening close other : Token}
      {ts us pre post : List Token} {condition : Expr} {thenBranch elseBranch : Stmt} :
      word.kind = .keyword .ifWord → opening.kind = .mark .leftParen →
      Expression n ts condition n₁ → close.kind = .mark .rightParen →
      Statement false n₁ us thenBranch n₂ → other.kind = .keyword .elseWord →
      StatementAround d n₂ pre post elseBranch n' →
      StatementAround d n (word :: opening :: (ts ++ close :: (us ++ other :: pre))) post
        (.ifElse condition thenBranch elseBranch) n'

/-- A declaration with some statement in it. -/
inductive DeclarationAround : Nat → List Token → List Token → Stmt → Nat → Prop
  | classDecl {n n₁ n' : Nat} {word name opening close : Token} {ts pre post : List Token}
      {parent : Option Occurrence} {methods : List FunctionDecl} :
      word.kind = .keyword .classWord → name.kind = .identifier → Superclass n ts parent n₁ →
      opening.kind = .mark .leftBrace → MethodsAround n₁ pre post methods n' →
      close.kind = .mark .rightBrace →
      DeclarationAround n (word :: name :: (ts ++ opening :: pre)) (post ++ [close])
        (.classDecl name parent methods) n'
  | funDecl {n n' : Nat} {word : Token} {pre post : List Token} {decl : FunctionDecl} :
      word.kind = .keyword .funWord → FunctionAround n pre post decl n' →
      DeclarationAround n (word :: pre) post (.funDecl decl) n'
  | statement {d : Bool} {n n' : Nat} {pre post : List Token} {s : Stmt} :
      StatementAround d n pre post s n' → DeclarationAround n pre post s n'

/-- Declarations with some statement in one of them. -/
inductive DeclarationsAround : Nat → List Token → List Token → List Stmt → Nat → Prop
  | head {n n₁ n' : Nat} {pre post us : List Token} {s : Stmt} {rest : List Stmt} :
      DeclarationAround n pre post s n₁ → Declarations n₁ us rest n' →
      DeclarationsAround n pre (post ++ us) (s :: rest) n'
  | tail {n n₁ n' : Nat} {ts pre post : List Token} {s : Stmt} {rest : List Stmt} :
      Declaration n ts s n₁ → DeclarationsAround n₁ pre post rest n' →
      DeclarationsAround n (ts ++ pre) post (s :: rest) n'

/-- A block with some statement in it. -/
inductive BlockAround : Nat → List Token → List Token → List Stmt → Nat → Prop
  | braces {n n' : Nat} {opening close : Token} {pre post : List Token} {body : List Stmt} :
      opening.kind = .mark .leftBrace → DeclarationsAround n pre post body n' →
      close.kind = .mark .rightBrace → BlockAround n (opening :: pre) (post ++ [close]) body n'

/-- A function with some statement in it. -/
inductive FunctionAround : Nat → List Token → List Token → FunctionDecl → Nat → Prop
  | named {n n' : Nat} {name opening close : Token} {ts pre post params : List Token}
      {body : List Stmt} :
      name.kind = .identifier → opening.kind = .mark .leftParen → Parameters ts params →
      close.kind = .mark .rightParen → BlockAround n pre post body n' →
      FunctionAround n (name :: opening :: (ts ++ close :: pre)) post ⟨name, params, body⟩ n'

/-- The methods of a class, with some statement in one of them. -/
inductive MethodsAround : Nat → List Token → List Token → List FunctionDecl → Nat → Prop
  | head {n n₁ n' : Nat} {pre post us : List Token} {m : FunctionDecl}
      {rest : List FunctionDecl} :
      FunctionAround n pre post m n₁ → Methods n₁ us rest n' →
      MethodsAround n pre (post ++ us) (m :: rest) n'
  | tail {n n₁ n' : Nat} {ts pre post : List Token} {m : FunctionDecl}
      {rest : List FunctionDecl} :
      Function n ts m n₁ → MethodsAround n₁ pre post rest n' →
      MethodsAround n (ts ++ pre) post (m :: rest) n'

end

end

variable {Hole : Bool → Nat → Stmt → Nat → Prop} {us : List Token}

/-! ## The statement in its place -/

/-- Every statement of the hole is what some tokens derive. -/
def Fits (Hole : Bool → Nat → Stmt → Nat → Prop) (us : List Token) : Prop :=
  ∀ {d n s n'}, Hole d n s n' → Statement d n us s n'

mutual

theorem StatementAround.fill {d : Bool} {n n' : Nat} {pre post : List Token} {s : Stmt}
    (hfits : Fits Hole us) :
    StatementAround Hole d n pre post s n' → Statement d n (pre ++ us ++ post) s n'
  | .here h => by simpa using hfits h
  | .block h => .block (h.fill hfits)
  | .whileDo hword hopening h hclose hbody => by
    simpa using Statement.whileDo hword hopening h hclose (hbody.fill hfits)
  | .forLoop hword hopening hinit hcondition hsemicolon hincrement hclose hbody hloop => by
    simpa using Statement.forLoop hword hopening hinit hcondition hsemicolon hincrement hclose
      (hbody.fill hfits) hloop
  | .ifThen hword hopening h hclose hthen => by
    simpa using Statement.ifThen hword hopening h hclose (hthen.fill hfits)
  | .ifElseThen hword hopening h hclose hthen hother helse => by
    simpa using Statement.ifElse hword hopening h hclose (hthen.fill hfits) hother helse
  | .ifElseElse hword hopening h hclose hthen hother helse => by
    simpa using Statement.ifElse hword hopening h hclose hthen hother (helse.fill hfits)

theorem DeclarationAround.fill {n n' : Nat} {pre post : List Token} {s : Stmt}
    (hfits : Fits Hole us) :
    DeclarationAround Hole n pre post s n' → Declaration n (pre ++ us ++ post) s n'
  | .classDecl hword hname hparent hopening hmethods hclose => by
    simpa using Declaration.classDecl hword hname hparent hopening (hmethods.fill hfits) hclose
  | .funDecl hword h => by simpa using Declaration.funDecl hword (h.fill hfits)
  | .statement h => .statement (h.fill hfits)

theorem DeclarationsAround.fill {n n' : Nat} {pre post : List Token} {body : List Stmt}
    (hfits : Fits Hole us) :
    DeclarationsAround Hole n pre post body n' → Declarations n (pre ++ us ++ post) body n'
  | .head h hrest => by simpa using Declarations.cons (h.fill hfits) hrest
  | .tail h hrest => by simpa using Declarations.cons h (hrest.fill hfits)

theorem BlockAround.fill {n n' : Nat} {pre post : List Token} {body : List Stmt}
    (hfits : Fits Hole us) :
    BlockAround Hole n pre post body n' → Block n (pre ++ us ++ post) body n'
  | .braces hopening h hclose => by simpa using Block.braces hopening (h.fill hfits) hclose

theorem FunctionAround.fill {n n' : Nat} {pre post : List Token} {decl : FunctionDecl}
    (hfits : Fits Hole us) :
    FunctionAround Hole n pre post decl n' → Function n (pre ++ us ++ post) decl n'
  | .named hname hopening hparams hclose h => by
    simpa using Function.named hname hopening hparams hclose (h.fill hfits)

theorem MethodsAround.fill {n n' : Nat} {pre post : List Token} {methods : List FunctionDecl}
    (hfits : Fits Hole us) :
    MethodsAround Hole n pre post methods n' → Methods n (pre ++ us ++ post) methods n'
  | .head h hrest => by simpa using Methods.cons (h.fill hfits) hrest
  | .tail h hrest => by simpa using Methods.cons h (hrest.fill hfits)

end

/-! ## What may stand in its place -/

/-- For every statement of the hole, some tokens derive one that differs in its numbers only, and
ends with an `if` that has no `else` only if that statement does. -/
def Stands (Hole : Bool → Nat → Stmt → Nat → Prop) (us : List Token) : Prop :=
  ∀ {d n s n'}, Hole d n s n' →
    ∃ d' s', (d' = true → d = true) ∧ Statement d' n us s' n' ∧ s'.unnumbered = s.unnumbered

mutual

theorem StatementAround.replace {d : Bool} {n n' : Nat} {pre post : List Token} {s : Stmt}
    (hstands : Stands Hole us) : StatementAround Hole d n pre post s n' →
      ∃ d' s', (d' = true → d = true) ∧ Statement d' n (pre ++ us ++ post) s' n' ∧
        s'.unnumbered = s.unnumbered
  | .here h => by simpa using hstands h
  | .block h => by
    obtain ⟨body', hbody', hsame⟩ := h.replace hstands
    exact ⟨false, .block body', id, .block hbody', by simp only [Stmt.unnumbered, hsame]⟩
  | .whileDo hword hopening h hclose hbody => by
    obtain ⟨d', body', hd, hbody', hsame⟩ := hbody.replace hstands
    exact ⟨d', _, hd, by simpa using Statement.whileDo hword hopening h hclose hbody',
      by simp only [Stmt.unnumbered, hsame]⟩
  | .forLoop hword hopening hinit hcondition hsemicolon hincrement hclose hbody hloop => by
    obtain rfl := desugars_iff.1 hloop
    obtain ⟨d', body', hd, hbody', hsame⟩ := hbody.replace hstands
    exact ⟨d', _, hd, by
      simpa using Statement.forLoop hword hopening hinit hcondition hsemicolon hincrement hclose
        hbody' (desugars_forLoop _ _ _ _), by simp only [Stmt.unnumbered_forLoop, hsame]⟩
  | .ifThen hword hopening h hclose hthen => by
    obtain ⟨d', then', -, hthen', hsame⟩ := hthen.replace hstands
    exact ⟨true, _, id, by simpa using Statement.ifThen hword hopening h hclose hthen',
      by simp only [Stmt.unnumbered, hsame]⟩
  | .ifElseThen hword hopening h hclose hthen hother helse => by
    obtain ⟨d', then', hd, hthen', hsame⟩ := hthen.replace hstands
    obtain rfl : d' = false := Bool.eq_false_iff.2 fun h => Bool.false_ne_true (hd h)
    exact ⟨_, _, id, by simpa using Statement.ifElse hword hopening h hclose hthen' hother helse,
      by simp only [Stmt.unnumbered, hsame]⟩
  | .ifElseElse hword hopening h hclose hthen hother helse => by
    obtain ⟨d', else', hd, helse', hsame⟩ := helse.replace hstands
    exact ⟨d', _, hd, by simpa using Statement.ifElse hword hopening h hclose hthen hother helse',
      by simp only [Stmt.unnumbered, hsame]⟩

theorem DeclarationAround.replace {n n' : Nat} {pre post : List Token} {s : Stmt}
    (hstands : Stands Hole us) : DeclarationAround Hole n pre post s n' →
      ∃ s', Declaration n (pre ++ us ++ post) s' n' ∧ s'.unnumbered = s.unnumbered
  | .classDecl hword hname hparent hopening hmethods hclose => by
    obtain ⟨methods', hmethods', hsame⟩ := hmethods.replace hstands
    exact ⟨_, by simpa using Declaration.classDecl hword hname hparent hopening hmethods' hclose,
      by simp only [Stmt.unnumbered, hsame]⟩
  | .funDecl hword h => by
    obtain ⟨decl', hdecl', hsame⟩ := h.replace hstands
    exact ⟨_, by simpa using Declaration.funDecl hword hdecl',
      by simp only [Stmt.unnumbered, hsame]⟩
  | .statement h => by
    obtain ⟨d', s', -, hs', hsame⟩ := h.replace hstands
    exact ⟨s', .statement hs', hsame⟩

theorem DeclarationsAround.replace {n n' : Nat} {pre post : List Token} {body : List Stmt}
    (hstands : Stands Hole us) : DeclarationsAround Hole n pre post body n' →
      ∃ body', Declarations n (pre ++ us ++ post) body' n' ∧
        Stmt.unnumberedAll body' = Stmt.unnumberedAll body
  | .head h hrest => by
    obtain ⟨s', hs', hsame⟩ := h.replace hstands
    exact ⟨_, by simpa using Declarations.cons hs' hrest,
      by simp only [Stmt.unnumberedAll, hsame]⟩
  | .tail h hrest => by
    obtain ⟨rest', hrest', hsame⟩ := hrest.replace hstands
    exact ⟨_, by simpa using Declarations.cons h hrest',
      by simp only [Stmt.unnumberedAll, hsame]⟩

theorem BlockAround.replace {n n' : Nat} {pre post : List Token} {body : List Stmt}
    (hstands : Stands Hole us) : BlockAround Hole n pre post body n' →
      ∃ body', Block n (pre ++ us ++ post) body' n' ∧
        Stmt.unnumberedAll body' = Stmt.unnumberedAll body
  | .braces hopening h hclose => by
    obtain ⟨body', hbody', hsame⟩ := h.replace hstands
    exact ⟨body', by simpa using Block.braces hopening hbody' hclose, hsame⟩

theorem FunctionAround.replace {n n' : Nat} {pre post : List Token} {decl : FunctionDecl}
    (hstands : Stands Hole us) : FunctionAround Hole n pre post decl n' →
      ∃ decl', Function n (pre ++ us ++ post) decl' n' ∧ decl'.unnumbered = decl.unnumbered
  | .named hname hopening hparams hclose h => by
    obtain ⟨body', hbody', hsame⟩ := h.replace hstands
    exact ⟨_, by simpa using Function.named hname hopening hparams hclose hbody',
      by simp only [FunctionDecl.unnumbered, hsame]⟩

theorem MethodsAround.replace {n n' : Nat} {pre post : List Token} {methods : List FunctionDecl}
    (hstands : Stands Hole us) : MethodsAround Hole n pre post methods n' →
      ∃ methods', Methods n (pre ++ us ++ post) methods' n' ∧
        FunctionDecl.unnumberedAll methods' = FunctionDecl.unnumberedAll methods
  | .head h hrest => by
    obtain ⟨m', hm', hsame⟩ := h.replace hstands
    exact ⟨_, by simpa using Methods.cons hm' hrest,
      by simp only [FunctionDecl.unnumberedAll, hsame]⟩
  | .tail h hrest => by
    obtain ⟨rest', hrest', hsame⟩ := hrest.replace hstands
    exact ⟨_, by simpa using Methods.cons h hrest',
      by simp only [FunctionDecl.unnumberedAll, hsame]⟩

end

end Grammar

end LoxLang
