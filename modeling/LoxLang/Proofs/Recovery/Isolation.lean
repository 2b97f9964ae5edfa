import LoxLang.Token.Stream
import LoxLang.Proofs.Recovery.Inserted

/-!
# Debris is isolated

Debris that a semicolon ends costs the statements around it nothing, neither in a program nor in the
body of a block or a function, however deep that is. The faults found are those of the debris.

1. `Parsed.opens_debris`: debris in a body.
2. `Parsed.isolates_debris`: what is read around debris.
-/

namespace LoxLang

namespace Parsed

theorem ofTokens_of_comesTo {tokens : List Token} {first : Nat} {statements : List Stmt}
    {c : Cursor}
    (h : (Rule.program (steps tokens.length) ⟨tokens, first, []⟩).ComesTo (.ok statements c)) :
    ofTokens tokens first = ⟨statements, c.errors, c.nextId⟩ := by
  obtain ⟨read, d, hends⟩ := Rule.program_ends tokens first
  rw [hends] at h
  rcases h with h | h
  · cases h
  · cases h
    rw [ofTokens, hends]

/-- What is read without a fault is derived from any number on, with the same tree but for the
numbers. -/
theorem declarations_from {tokens : List Token} (hend : ∀ t ∈ tokens, t.kind ≠ .eof) {first : Nat}
    (h : (ofTokens tokens first).errors = []) (n : Nat) :
    ∃ body n', Grammar.Declarations n tokens body n' ∧
      Stmt.unnumberedAll body = Stmt.unnumberedAll (ofTokens tokens first).statements := by
  have hfirst := ofTokens_on tokens 0 first
  rw [Nat.zero_add] at hfirst
  have hnone : (ofTokens tokens 0).errors = [] := by simpa [hfirst] using h
  have hprogram := ofTokens_eq_iff.1 (show ofTokens tokens 0 = ⟨_, [], _⟩ by rw [← hnone])
  have hwhole := takeWhile_eq_of_append hend (show (([] : List Token).headD _).isEnd from rfl)
  rw [List.append_nil] at hwhole
  rw [Grammar.Program, hwhole] at hprogram
  have hmoved := hprogram.move (.on n)
  rw [Token.map_move_on, show 0 + (Move.on n).ids = n from Nat.zero_add n] at hmoved
  refine ⟨_, _, hmoved, ?_⟩
  rw [hfirst, Stmt.unnumberedAll_moveAll, Stmt.unnumberedAll_moveAll]

end Parsed

theorem Token.IsPlain.not_closes {t : Token} (h : t.IsPlain) :
    (t.isEnd || t.kind = .mark .rightBrace) = false := by
  have hbrace : t.kind ≠ .mark .rightBrace := fun hk => h.1 (by simp [hk])
  simp [h.isEnd_eq, hbrace]

/-- If the text without the insertion is read without a fault, then the text with it is read as the
same tree, with the faults in what was inserted. -/
theorem Insertion.ofTokens_inserted (i : Insertion) {first : Nat}
    (hpre : ∀ t ∈ i.pre, t.kind ≠ .eof)
    (hlength : i.without.length ≤ i.inserted.length)
    (hclean : (Parsed.ofTokens (i.pre ++ i.opening :: i.without) first).errors = []) :
    Stmt.unnumberedAll (Parsed.ofTokens (i.pre ++ i.opening :: i.inserted) first).statements =
        Stmt.unnumberedAll (Parsed.ofTokens (i.pre ++ i.opening :: i.without) first).statements ∧
      i.body ∈ Stmt.allBodies (Stmt.unnumberedAll
        (Parsed.ofTokens (i.pre ++ i.opening :: i.inserted) first).statements) ∧
      (Parsed.ofTokens (i.pre ++ i.opening :: i.inserted) first).errors = i.noted := by
  obtain ⟨statements, c, hrun⟩ := Rule.program_ends (i.pre ++ i.opening :: i.without) first
  rw [Parsed.ofTokens_of_comesTo (.of_eq hrun)] at hclean ⊢
  have hsteps : Parsed.steps (i.pre ++ i.opening :: i.without).length ≤
      Parsed.steps (i.pre ++ i.opening :: i.inserted).length := by
    simp only [Parsed.steps, List.length_append, List.length_cons]
    omega
  have hrun' := (Rule.outlasts_program hsteps).ok hrun
  cases (swaps_program _).meets i.pre (List.suffix_refl _) first [] statements c hrun' hclean with
  | @before s hs hrest _ =>
    have hend : (s ++ i.opening :: i.without).headD Cursor.standIn |>.isEnd := by
      have hstops := Rule.stops_of_manyUntil hrun
      rwa [Cursor.peek, hrest] at hstops
    cases s with
    | nil => simp [Token.isEnd, i.brace] at hend
    | cons t s => exact absurd (beq_iff_eq.1 hend) (hpre t (hs.subset List.mem_cons_self))
  | behind hsame hmeets =>
    rw [Parsed.ofTokens_of_comesTo hmeets, hsame.1]
    exact ⟨rfl, hsame.2, rfl⟩

namespace Parsed

section

variable {before debris behind : List Token} {semicolon : Token} {first : Nat}
  (hbefore : ∀ t ∈ before, t.kind ≠ .eof) (hbefore' : (ofTokens before first).errors = [])
  (hbehind : ∀ t ∈ behind, t.kind ≠ .eof) (hbehind' : (ofTokens behind first).errors = [])
  (h : Debris debris) (hs : semicolon.kind = .mark .semicolon)
  (hnone : (ofTokens (debris ++ [semicolon]) 0).statements = [])
include hbefore hbefore' hbehind hbehind' h hs hnone

/-- A body with debris in it is read as the body without. -/
theorem opens_debris {closing : Token} (hclosing : closing.kind = .mark .rightBrace)
    (post : List Token) (steps k : Nat) :
    Rule.Opens (before ++ (behind ++ closing :: post))
      (before ++ (debris ++ semicolon :: (behind ++ closing :: post)))
      (ofTokens (debris ++ [semicolon]) 0).nextId (ofTokens (debris ++ [semicolon]) 0).errors
      (Stmt.BodyAround (Stmt.unnumberedAll
        ((ofTokens before first).statements ++ (ofTokens behind first).statements)))
      (Rule.block (Rule.declaration steps) k) := by
  intro n es v c hrun herrors
  obtain ⟨body, n₁, hbody, hbody'⟩ := declarations_from hbefore hbefore' n
  obtain ⟨rest, n₂, hrest, hrest'⟩ := declarations_from hbehind hbehind' n₁
  have hwithout := Grammar.accepts_block
    ((hbody.append hrest).accepted Grammar.isStop_braces steps k) hclosing post es trivial
  simp only [List.append_assoc, List.singleton_append] at hwithout
  rw [hrun] at hwithout
  rcases hwithout with hwithout | hwithout
  · cases hwithout
  cases hwithout
  have hinserted := Rule.manyUntil_debris h hs hnone Grammar.isStop_braces
    (fun t ht => ht.not_closes) hbody hrest
    (show ((closing :: post).headD _).kind = .mark .rightBrace from hclosing) es steps k
  refine ⟨body ++ Stmt.moveAll (.on (ofTokens (debris ++ [semicolon]) 0).nextId) rest, ⟨?_, ?_⟩, ?_⟩
  · simp only [Stmt.unnumberedAll_append, Stmt.unnumberedAll_moveAll]
  · rw [Stmt.unnumberedAll_append, Stmt.unnumberedAll_append, hbody', hrest']
    exact List.mem_cons_self
  · exact (Rule.comesTo_bind hinserted).trans (.of_eq (Rule.run_expect hclosing))

end

/-- Debris that a semicolon ends is passed over, with the faults that it has by itself: what stands
before it and behind it is read as if it was not there. It may stand in a program, or in the body of
a block or a function, which is opened by a brace that does not stand behind a name. -/
theorem isolates_debris {before debris behind : List Token} {semicolon : Token} {first : Nat}
    (hbefore : ∀ t ∈ before, t.kind ≠ .eof) (hbefore' : (ofTokens before first).errors = [])
    (hbehind : ∀ t ∈ behind, t.kind ≠ .eof) (hbehind' : (ofTokens behind first).errors = [])
    (h : Debris debris) (hs : semicolon.kind = .mark .semicolon)
    (hnone : (ofTokens (debris ++ [semicolon]) first).statements = []) :
    (∀ ending : List Token, (ending.headD Cursor.standIn).isEnd →
      Stmt.unnumberedAll
          (ofTokens (before ++ debris ++ [semicolon] ++ behind ++ ending) first).statements =
        Stmt.unnumberedAll
          ((ofTokens before first).statements ++ (ofTokens behind first).statements) ∧
      (ofTokens (before ++ debris ++ [semicolon] ++ behind ++ ending) first).errors =
        (ofTokens (debris ++ [semicolon]) first).errors) ∧
    ∀ (pre post : List Token) (opening closing : Token), (∀ t ∈ pre, t.kind ≠ .eof) →
      (∀ t ∈ pre.getLast?, t.kind ≠ .identifier) → opening.kind = .mark .leftBrace →
      closing.kind = .mark .rightBrace →
      (ofTokens (pre ++ [opening] ++ before ++ behind ++ [closing] ++ post) first).errors = [] →
      let damaged :=
        ofTokens (pre ++ [opening] ++ before ++ debris ++ [semicolon] ++ behind ++ [closing] ++ post)
          first
      Stmt.unnumberedAll damaged.statements = Stmt.unnumberedAll
          (ofTokens (pre ++ [opening] ++ before ++ behind ++ [closing] ++ post) first).statements ∧
        Stmt.unnumberedAll
            ((ofTokens before first).statements ++ (ofTokens behind first).statements) ∈
          Stmt.allBodies (Stmt.unnumberedAll damaged.statements) ∧
        damaged.errors = (ofTokens (debris ++ [semicolon]) first).errors := by
  have halone := ofTokens_on (debris ++ [semicolon]) 0 first
  rw [Nat.zero_add] at halone
  have hnone₀ : (ofTokens (debris ++ [semicolon]) 0).statements = [] := by
    rw [halone] at hnone
    cases hread : (ofTokens (debris ++ [semicolon]) 0).statements with
    | nil => rfl
    | cons s rest => simp [hread, Stmt.moveAll] at hnone
  simp only [List.append_assoc, List.cons_append, List.nil_append]
  constructor
  · intro ending hending
    obtain ⟨body, n₁, hbody, hbody'⟩ := declarations_from hbefore hbefore' first
    obtain ⟨rest, n₂, hrest, hrest'⟩ := declarations_from hbehind hbehind' n₁
    have hrun := fun steps => Rule.manyUntil_debris h hs hnone₀ Grammar.isStop_end
      (fun t ht => ht.isEnd_eq) hbody hrest
      (show (ending.headD _).kind = .eof from beq_iff_eq.1 hending) [] steps steps
    rw [ofTokens_of_comesTo (hrun _), halone]
    simp [Stmt.unnumberedAll_append, Stmt.unnumberedAll_moveAll, hbody', hrest']
  · intro pre post opening closing hpre hclass hopening hclosing hclean
    let i : Insertion :=
      ⟨pre, opening, _, _, _, _, _, hopening, hclass,
        opens_debris hbefore hbefore' hbehind hbehind' h hs hnone₀ hclosing post⟩
    have hlength : i.without.length ≤ i.inserted.length := by
      simp only [i, List.length_append, List.length_cons]
      omega
    obtain ⟨hsame, hbody, herrors⟩ := i.ofTokens_inserted hpre hlength hclean
    exact ⟨hsame, hbody, by rw [herrors, halone]⟩

/-- A loop in a function. -/
theorem isolates_debris_nested :
    let tokens (source : String) := (scan source).1.dropLast
    let before := tokens "print a;"
    let debris := tokens "b c"
    let behind := tokens "print d;"
    let semicolon : Token := ⟨.mark .semicolon, ";", 1⟩
    let opening : Token := ⟨.mark .leftBrace, "\x7b", 1⟩
    let closing : Token := ⟨.mark .rightBrace, "\x7d", 1⟩
    let pre := tokens "fun f() \x7b while (x)"
    let post := (scan "\x7d f();").1
    let damaged :=
      ofTokens (pre ++ [opening] ++ before ++ debris ++ [semicolon] ++ behind ++ [closing] ++ post) 0
    ((∀ t ∈ before, t.kind ≠ .eof) ∧ (ofTokens before 0).errors = [] ∧
      (∀ t ∈ behind, t.kind ≠ .eof) ∧ (ofTokens behind 0).errors = [] ∧ Debris debris ∧
      (ofTokens (debris ++ [semicolon]) 0).statements = [] ∧ (∀ t ∈ pre, t.kind ≠ .eof) ∧
      (∀ t ∈ pre.getLast?, t.kind ≠ .identifier) ∧
      (ofTokens (pre ++ [opening] ++ before ++ behind ++ [closing] ++ post) 0).errors = []) ∧
    Stmt.unnumberedAll damaged.statements = Stmt.unnumberedAll
        (ofTokens (pre ++ [opening] ++ before ++ behind ++ [closing] ++ post) 0).statements ∧
      Stmt.unnumberedAll ((ofTokens before 0).statements ++ (ofTokens behind 0).statements) ∈
        Stmt.allBodies (Stmt.unnumberedAll damaged.statements) ∧
      damaged.errors = [⟨⟨1, some "c"⟩, .missing .expressionEnd⟩] := by
  intro tokens before debris behind semicolon opening closing pre post damaged
  have hbefore : (∀ t ∈ before, t.kind ≠ .eof) ∧ (ofTokens before 0).errors = [] := by
    decide +kernel
  have hbehind : (∀ t ∈ behind, t.kind ≠ .eof) ∧ (ofTokens behind 0).errors = [] := by
    decide +kernel
  have hdebris : Debris debris := ⟨by decide +kernel, by decide +kernel, by decide +kernel⟩
  have hnone : (ofTokens (debris ++ [semicolon]) 0).statements = [] := by decide +kernel
  have hpre : (∀ t ∈ pre, t.kind ≠ .eof) ∧ ∀ t ∈ pre.getLast?, t.kind ≠ .identifier := by
    decide +kernel
  have hclean :
      (ofTokens (pre ++ [opening] ++ before ++ behind ++ [closing] ++ post) 0).errors = [] := by
    decide +kernel
  obtain ⟨hsame, hbody, herrors⟩ := (isolates_debris hbefore.1 hbefore.2 hbehind.1 hbehind.2
    hdebris rfl hnone).2 pre post opening closing hpre.1 hpre.2 rfl rfl hclean
  refine ⟨⟨hbefore.1, hbefore.2, hbehind.1, hbehind.2, hdebris, hnone, hpre.1, hpre.2, hclean⟩,
    hsame, hbody, herrors.trans ?_⟩
  decide +kernel

end Parsed

end LoxLang
