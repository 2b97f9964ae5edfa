import LoxLang.Proofs.Recovery.Isolation

/-!
# Debris before a statement

Debris without a semicolon ends at a word that begins a statement, and reading goes on there: unless
it is that word at which the debris fails. For the token at which reading fails is dropped, whatever
it is, and with that word the statement that it begins is lost.

1. `Parsed.resumes_at_word`: where reading goes on.
2. `Parsed.word_dropped`: a statement that is lost.
-/

namespace LoxLang

namespace Rule

/-- Where debris fails before a word that begins a statement, reading goes on at the word, or behind
it if it fails there. -/
theorem resynchronize_word {ts : List Token} (hts : ∀ t ∈ ts, t.IsPlain) {word : Token}
    (hword : startsStatement word) (us : List Token) (n : Nat) (es : List GrammarError) :
    resynchronize ⟨ts ++ word :: us, n, es⟩ =
      ⟨if ts = [] then boundary word us else word :: us, n, es⟩ := by
  cases ts with
  | nil =>
    have hend : word.kind ≠ .eof := fun hk => by simp [startsStatement, hk] at hword
    exact resynchronize_of_ne_end hend us n es
  | cons t ts =>
    obtain ⟨⟨hkind, -⟩, hts⟩ := List.forall_mem_cons.1 hts
    simp only [List.mem_cons, List.not_mem_nil, or_false, not_or] at hkind
    obtain ⟨last, -, hrest⟩ := boundary_plain hts hkind.2.1 us
    rw [List.cons_append, resynchronize_of_ne_end hkind.1, hrest, boundary,
      if_pos (by simp [hword]), if_neg (List.cons_ne_nil t ts)]

theorem delimits_of_startsStatement {word : Token} (h : startsStatement word) :
    word.kind.delimits ∧ word.kind ≠ .mark .semicolon := by
  unfold startsStatement at h
  cases hk : word.kind with
  | keyword k => cases k <;> simp [hk] at h <;> simp [Kind.delimits]
  | _ => simp [hk] at h

/-- Debris before a word that begins a statement is no statement: it fails, always at the same
token. -/
theorem expressionStatement_before_word {ts : List Token} (hts : ∀ t ∈ ts, t.IsPlain)
    {word : Token} (hword : startsStatement word) :
    ∃ kept e used noted, kept <:+ ts ∧ ∀ steps n es us,
      (expressionStatement steps ⟨ts ++ word :: us, n, es⟩).ComesTo
        (.fail e ⟨kept ++ word :: us, used + n, es ++ noted⟩) := by
  obtain ⟨hahead, hne⟩ := delimits_of_startsStatement hword
  have hfails {steps : Nat} (hsteps : 2 * (ts ++ [word]).length + 3 ≤ steps) (n : Nat) :
      ∃ kept e n' noted, kept <:+ ts ∧ ∀ es us,
        expressionStatement steps ⟨ts ++ word :: us, n, es⟩ =
          .fail e ⟨kept ++ word :: us, n', es ++ noted⟩ := by
    rcases expressionStatement_debris hts hahead steps n with
      hrun | ⟨_, _, _, hsemicolon, _⟩ | hfail
    · have hends := ends_expressionStatement hsteps ⟨ts ++ [word], n, []⟩ (Nat.le_refl _)
      rw [hrun [] []] at hends
      exact hends.elim
    · exact absurd hsemicolon hne
    · exact hfail
  obtain ⟨kept, e, used, noted, hkept, hfirst⟩ := hfails (Nat.le_refl _) 0
  refine ⟨kept, e, used, noted, hkept, fun steps n es us => ?_⟩
  -- With so many steps, debris fails wherever it stands.
  obtain ⟨enough, hle, hsuffice⟩ :
      ∃ m, steps ≤ m ∧ 2 * (ts ++ [word]).length + 3 ≤ m :=
    ⟨_, Nat.le_max_left _ _, Nat.le_max_right _ _⟩
  obtain ⟨kept', e', n', noted', -, hrun⟩ := hfails hsuffice n
  have hsame := outlasts_expressionStatement hsuffice ⟨ts ++ [word], 0, []⟩
  rw [hfirst [] []] at hsame
  rcases hsame with hsame | hsame
  · cases hsame
  have hmoved := (moves_expressionStatement (d := .on n) rfl enough).fail_on hsame.symm
  rw [Nat.zero_add, hrun [] []] at hmoved
  injection hmoved with he hc
  injection hc with hrest hn hnoted
  obtain rfl : kept' = kept := List.append_cancel_right hrest
  obtain rfl : noted' = noted := hnoted
  refine (outlasts_expressionStatement hle _).trans (.of_eq ?_)
  rw [hrun es us, he, hn]

/-- Declarations up to the end are read as they are by themselves, from whatever number on and
whatever faults there are before them. -/
theorem comesTo_ofTokens (tokens : List Token) :
    ∃ rest, ∀ steps k n es, (manyUntil Token.isEnd (declaration steps) k ⟨tokens, n, es⟩).ComesTo
      (.ok (Stmt.moveAll (.on n) (Parsed.ofTokens tokens 0).statements)
        ⟨rest, (Parsed.ofTokens tokens 0).nextId + n,
          es ++ (Parsed.ofTokens tokens 0).errors⟩) := by
  obtain ⟨statements, c, hrun⟩ := program_ends tokens 0
  rw [Parsed.ofTokens_of_comesTo (.of_eq hrun)]
  refine ⟨c.rest, fun steps k n es => ?_⟩
  obtain ⟨enough, hsteps, hk, hsuffice⟩ :
      ∃ m, steps ≤ m ∧ k ≤ m ∧ Parsed.steps tokens.length ≤ m :=
    ⟨max (max steps k) (Parsed.steps tokens.length), by omega, by omega, by omega⟩
  have hmoved := (moves_program (d := .on n) rfl enough).ok_on ((outlasts_program hsuffice).ok hrun)
  rw [Nat.zero_add, ← Stmt.moveAll_eq_map] at hmoved
  obtain ⟨more, hmore, hruns⟩ := (framesEnd_program enough).run_errors hmoved
  obtain rfl : c.errors = more := hmore
  exact ((Outlasts.manyUntil hk (outlasts_declaration hsteps)) _).trans (.of_eq (hruns es))

end Rule

namespace Parsed

/-- Debris without a semicolon, before a word that begins a statement: reading goes on at that word
if the debris fails before it. If it fails at the word, then that word is dropped, and reading goes
on at the next boundary behind it. -/
theorem resumes_at_word {before debris : List Token} {word : Token} {first : Nat}
    (hbefore : ∀ t ∈ before, t.kind ≠ .eof) (hbefore' : (ofTokens before first).errors = [])
    (h : Debris debris) (hword : Rule.startsStatement word) (rest : List Token) :
    ∃ kept e used noted, kept <:+ debris ∧
      Rule.expressionStatement (steps (debris ++ word :: rest).length)
          ⟨debris ++ word :: rest, first, []⟩ =
        .fail e ⟨kept ++ word :: rest, used + first, noted⟩ ∧
      let behind := ofTokens (if kept = [] then Rule.boundary word rest else word :: rest) first
      let whole := ofTokens (before ++ debris ++ word :: rest) first
      Stmt.unnumberedAll whole.statements =
          Stmt.unnumberedAll ((ofTokens before first).statements ++ behind.statements) ∧
        whole.errors = noted ++ e :: behind.errors := by
  obtain ⟨kept, e, used, noted, hkept, hfails⟩ :=
    Rule.expressionStatement_before_word h.plain hword
  have henough : 2 * (debris ++ word :: rest).length + 3 ≤
      steps (debris ++ word :: rest).length := by
    rw [steps]
    omega
  have hends := Rule.ends_expressionStatement henough ⟨debris ++ word :: rest, first, []⟩
    (Nat.le_refl _)
  have hfail : Rule.expressionStatement (steps (debris ++ word :: rest).length)
      ⟨debris ++ word :: rest, first, []⟩ =
        .fail e ⟨kept ++ word :: rest, used + first, noted⟩ := by
    rcases hfails (steps (debris ++ word :: rest).length) first [] rest with hrun | hrun
    · rw [hrun] at hends
      exact hends.elim
    · simpa using hrun
  refine ⟨kept, e, used, noted, hkept, hfail, ?_⟩
  intro behind whole
  obtain ⟨body, n₁, hbody, hbody'⟩ := declarations_from hbefore hbefore' first
  have hpassed (k : Nat) : (Rule.declaration k ⟨debris ++ word :: rest, n₁, []⟩).ComesTo
      (.ok none ⟨if kept = [] then Rule.boundary word rest else word :: rest, used + n₁,
        noted ++ [e]⟩) := by
    refine (Rule.outlasts_declaration (Nat.le_add_right k 2) _).trans ?_
    rw [Rule.declaration_of_plain (h.peek_isPlain _ _ _) k rfl]
    unfold Rule.recover
    rcases hfails k n₁ [] rest with hrun | hrun
    · exact .inl (by rw [hrun])
    · refine .of_eq ?_
      rw [hrun]
      simp only [Cursor.record, List.nil_append]
      rw [Rule.resynchronize_word (fun t ht => h.plain t (hkept.subset ht)) hword]
  obtain ⟨left, hbehind⟩ := Rule.comesTo_ofTokens
    (if kept = [] then Rule.boundary word rest else word :: rest)
  have hdebris (k : Nat) := Rule.comesTo_passed (h.peek_isPlain _ _ _).isEnd_eq (hpassed k)
    fun k' => hbehind k k' (used + n₁) (noted ++ [e])
  have hwhole (k : Nat) := Rule.comesTo_declarations Grammar.isStop_end hbody
    (h.headD_ne_else (word :: rest)) (hdebris k) k
  have hread :=
    ofTokens_on (if kept = [] then Rule.boundary word rest else word :: rest) 0 first
  rw [Nat.zero_add] at hread
  simp only [whole, behind, List.append_assoc]
  rw [ofTokens_of_comesTo (hwhole _), hread]
  simp [Stmt.unnumberedAll_append, Stmt.unnumberedAll_moveAll, hbody']

/-- Here the debris fails before the word, and the statement behind it is read. -/
theorem resumes_at_word_print :
    let name (text : String) : Token := ⟨.identifier, text, 1⟩
    let word : Token := ⟨.keyword .printWord, "print", 1⟩
    let semicolon : Token := ⟨.mark .semicolon, ";", 1⟩
    let before := [word, name "a", semicolon]
    let debris := [name "b", name "c"]
    let rest := [name "d", semicolon, ⟨.eof, "", 1⟩]
    ((∀ t ∈ before, t.kind ≠ .eof) ∧ (ofTokens before 0).errors = [] ∧ Debris debris ∧
      Rule.startsStatement word) ∧
    let whole := ofTokens (before ++ debris ++ word :: rest) 0
    Stmt.unnumberedAll whole.statements = Stmt.unnumberedAll
        ((ofTokens before 0).statements ++ (ofTokens (word :: rest) 0).statements) ∧
      whole.errors = [⟨⟨1, some "c"⟩, .missing .expressionEnd⟩] := by
  intro name word semicolon before debris rest
  have hbefore : (∀ t ∈ before, t.kind ≠ .eof) ∧ (ofTokens before 0).errors = [] := by decide
  have hdebris : Debris debris := ⟨by decide, by decide, by decide⟩
  obtain ⟨kept, e, used, noted, hkept, hfail, hsame, herrors⟩ :=
    resumes_at_word hbefore.1 hbefore.2 hdebris (show Rule.startsStatement word from rfl) rest
  have hrun : Rule.expressionStatement (steps (debris ++ word :: rest).length)
      ⟨debris ++ word :: rest, 0, []⟩ =
        .fail ⟨⟨1, some "c"⟩, .missing .expressionEnd⟩ ⟨[name "c"] ++ word :: rest, 1, []⟩ := rfl
  rw [hrun] at hfail
  injection hfail with he hc
  injection hc with hleft _ hnoted
  obtain rfl : [name "c"] = kept := List.append_cancel_right hleft
  subst he hnoted
  exact ⟨⟨hbefore.1, hbefore.2, hdebris, rfl⟩, hsame, herrors⟩

/-- Here the debris fails at the word, and the statement that begins with it is lost. -/
theorem word_dropped :
    let name (text : String) : Token := ⟨.identifier, text, 1⟩
    let debris := [name "x"]
    let behind : List Token :=
      [⟨.keyword .printWord, "print", 1⟩, name "y", ⟨.mark .semicolon, ";", 1⟩]
    ((∀ t ∈ behind, t.kind ≠ .eof) ∧ (ofTokens behind 0).errors = [] ∧ Debris debris ∧
      ∃ word ∈ behind.head?, Rule.startsStatement word) ∧
    Stmt.unnumberedAll (ofTokens ([] ++ debris ++ behind) 0).statements ≠
      Stmt.unnumberedAll ((ofTokens [] 0).statements ++ (ofTokens behind 0).statements) := by
  intro name debris behind
  have hdebris : Debris debris := ⟨by decide, by decide, by decide⟩
  refine ⟨⟨by decide, by decide, hdebris, _, rfl, rfl⟩, fun hsame => ?_⟩
  have hlength := congrArg List.length hsame
  exact absurd hlength (by decide)

end Parsed

end LoxLang
