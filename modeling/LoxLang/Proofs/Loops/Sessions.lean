import LoxLang.Proofs.Layout.Sessions
import LoxLang.Proofs.Loops.Around
import LoxLang.Proofs.Loops.Forms
import LoxLang.Proofs.Loops.Running

/-!
# Loops in sessions

Every `for` loop of a program may be written as the `while` loop that it stands for; nobody can
tell, but by the numbers of mentions. A text with a grammatical error is no program: it has no
verdict, and how much of it is skipped may depend on how a loop is written.

1. `Session.Reachable.run_of_unnumbered`: programs that are the same but for numbers, in the same
   layout or in another.
2. `Grammar.Loop.for_as_while`: both forms of a loop.
-/

namespace LoxLang

open Grammar

variable {ts us ending : List Token}

/-! ## Texts of programs -/

theorem Reading.ofSource_of_scan {source : String} {tokens : List Token}
    (h : scan source = (tokens, [])) (first : Nat) :
    ofSource source first = ofTokens [] tokens first := by
  simp only [ofSource, h, List.map_nil]

namespace Session

variable {s : Session} {tokens tokens' : List Token} {program program' : List Stmt} {next : Nat}

/-- Tokens that are read without an error may have lexical errors beside them. -/
theorem takes_ofTokens (hread : Parsed.ofTokens tokens s.nextId = ⟨program, [], next⟩)
    (hspelled : ∀ t ∈ tokens, t.Spelled) (before : List Diagnostic) :
    s.Takes (.ofTokens before tokens s.nextId) where
  le := Parsed.le_nextId tokens s.nextId
  formed := fun _ => by
    simp only [Reading.ofTokens, hread]
    refine Declarations.formed (Parsed.ofTokens_eq_iff.1 hread) fun t ht => ?_
    have ht := hspelled t ((List.takeWhile_sublist _).subset ht)
    exact ⟨ht.isName, fun _ => ht.lexeme_eq⟩

/-- Two programs that are the same but for the numbers of their mentions. Where the second stands in
another layout, only lines differ. -/
theorem Reachable.run_of_unnumbered (hs : s.Reachable)
    (hread : Parsed.ofTokens tokens s.nextId = ⟨program, [], next⟩)
    (hread' : Parsed.ofTokens tokens' s.nextId = ⟨program', [], next⟩)
    (hsame : Stmt.unnumberedAll program' = Stmt.unnumberedAll program)
    (hspelled : ∀ t ∈ tokens ++ tokens', t.Spelled) (budget : Nat) (before : List Diagnostic) :
    let run := s.runReading budget (.ofTokens before tokens s.nextId)
    let run' := s.runReading budget (.ofTokens before tokens' s.nextId)
    (run'.1 = run.1 ∧ run'.2.machine.sink = run.2.machine.sink ∧
        ∀ actions, run'.2.trace actions = run.2.trace actions) ∧
      ∀ before' moved, before.map (Diagnostic.move .flat) = before'.map (Diagnostic.move .flat) →
        List.Forall₂ Token.SameText tokens' moved →
          let run' := s.runReading budget (.ofTokens before' moved s.nextId)
          run'.1.move .flat = run.1.move .flat ∧ run'.2.machine.sink = run.2.machine.sink := by
  have htakes := takes_ofTokens hread (fun t ht => hspelled t (List.mem_append_left _ ht)) before
  have htakes' := takes_ofTokens hread' (fun t ht => hspelled t (List.mem_append_right _ ht)) before
  have hrun := hs.runReading_of_unnumbered htakes htakes'
    (by simp only [Reading.unnumbered, Reading.ofTokens, hread, hread', hsame]) budget
  refine ⟨hrun, fun before' moved hbefore hmoved => ?_⟩
  obtain ⟨t, ht, -⟩ := hs.sameHistory.level
  obtain ⟨hresult, u, hu, hu'⟩ :=
    ht.same_runs ht budget (Reading.ofTokens_flat hbefore hmoved s.nextId)
  refine ⟨?_, ?_⟩
  · rw [← hresult, hrun.1]
  · rw [hu'.machine.sink, ← hu.machine.sink, hrun.2.1]

end Session

namespace Grammar.Loop

variable {loop : Loop}

/-- Both forms of a loop, alone. -/
theorem Derives.read {d : Bool} {n n' : Nat} {s : Stmt} (h : loop.Derives d n s n')
    (hts : loop.ForText ts) (hus : loop.WhileText us) :
    Parsed.ofTokens ts n = ⟨[s], [], n'⟩ ∧
      ∃ s', Parsed.ofTokens us n = ⟨[s'], [], n'⟩ ∧ s'.unnumbered = s.unnumbered := by
  obtain ⟨d', s', -, hs', hsame⟩ := h.whileText hus
  exact ⟨(Declaration.statement (h.forText hts)).alone.read,
    s', (Declaration.statement hs').alone.read, hsame⟩

/-- Both forms of a loop, in their place in a program. -/
theorem read_around {first next : Nat} {pre post : List Token} {program : List Stmt}
    (h : DeclarationsAround loop.Derives first pre post program next) (hts : loop.ForText ts)
    (hus : loop.WhileText us) (hending : (ending.headD Cursor.standIn).isEnd) :
    Parsed.ofTokens (pre ++ ts ++ post ++ ending) first = ⟨program, [], next⟩ ∧ ∃ program',
      Parsed.ofTokens (pre ++ us ++ post ++ ending) first = ⟨program', [], next⟩ ∧
        Stmt.unnumberedAll program' = Stmt.unnumberedAll program := by
  have hfor := h.fill fun h => h.forText hts
  obtain ⟨program', hwhile, hsame⟩ := h.replace fun h => h.whileText hus
  exact ⟨(Declarations.read_before_iff hfor.kind_ne_eof hending).2 hfor,
    program', (Declarations.read_before_iff hwhile.kind_ne_eof hending).2 hwhile, hsame⟩

/-- A `for` loop is the `while` loop that it stands for. Whatever its clauses are, alone both forms
are read as the same tree but for the numbers of mentions. And in every program in which the loop
stands, read with these clauses, the `while` loop may stand in its place: that program is the same
tree but for numbers, it gets the same verdict, and wherever it is run it ends in the same way and
writes the same, and nothing that is done then can tell the two apart. If its tokens stand on other
lines then only the lines of messages differ. -/
theorem for_as_while (loop : Loop) {ts us : List Token} (hts : loop.ForText ts)
    (hus : loop.WhileText us) :
    (∀ {d : Bool} {n n' : Nat} {s : Stmt}, loop.Derives d n s n' →
      Parsed.ofTokens ts n = ⟨[s], [], n'⟩ ∧
        ∃ s', Parsed.ofTokens us n = ⟨[s'], [], n'⟩ ∧ s'.unnumbered = s.unnumbered) ∧
      ∀ {first next : Nat} {pre post ending : List Token} {program : List Stmt},
        DeclarationsAround loop.Derives first pre post program next →
        (ending.headD Cursor.standIn).isEnd →
          let tokens := pre ++ ts ++ post ++ ending
          let tokens' := pre ++ us ++ post ++ ending
          Parsed.ofTokens tokens first = ⟨program, [], next⟩ ∧ ∃ program',
            Parsed.ofTokens tokens' first = ⟨program', [], next⟩ ∧
            Stmt.unnumberedAll program' = Stmt.unnumberedAll program ∧
            SameResult (fun _ _ => True) (resolve program) (resolve program') ∧
            ((∀ t ∈ tokens ++ tokens', t.Spelled) →
              ∀ s : Session, s.Reachable → s.nextId = first →
                ∀ (budget : Nat) (before : List Diagnostic),
                  let run := s.runReading budget (.ofTokens before tokens first)
                  let run' := s.runReading budget (.ofTokens before tokens' first)
                  (run'.1 = run.1 ∧ run'.2.machine.sink = run.2.machine.sink ∧
                      ∀ actions, run'.2.trace actions = run.2.trace actions) ∧
                    ∀ before' moved,
                      before.map (Diagnostic.move .flat) = before'.map (Diagnostic.move .flat) →
                      List.Forall₂ Token.SameText tokens' moved →
                        let run' := s.runReading budget (.ofTokens before' moved first)
                        run'.1.move .flat = run.1.move .flat ∧
                          run'.2.machine.sink = run.2.machine.sink) := by
  refine ⟨fun h => h.read hts hus, fun h hending => ?_⟩
  obtain ⟨hread, program', hread', hsame⟩ := read_around h hts hus hending
  refine ⟨hread, program', hread', hsame, resolve_of_unnumbered hsame, ?_⟩
  rintro hspelled s hs rfl budget before
  exact hs.run_of_unnumbered hread hread' hsame hspelled budget before

/-- A loop in a function, with a loop for its body. -/
theorem for_as_while_nested :
    let s := Session.start .unlimited 0
    let source := "fun f(n) \x7b for (var i = n; i; i = nil) for (; i; i = nil) print i; \x7d " ++
      "f(\"x\");"
    let source' := "fun f(n) \x7b \x7b var i = n; while (i) \x7b for (; i; i = nil) print i; " ++
      "i = nil; \x7d \x7d \x7d f(\"x\");"
    (∃ program program' next, Reading.ofSource source 0 = ⟨program, [], next⟩ ∧
        Reading.ofSource source' 0 = ⟨program', [], next⟩ ∧
        Stmt.unnumberedAll program' = Stmt.unnumberedAll program) ∧
      (s.run 40 source).1 = .success ∧ (s.run 40 source').1 = .success ∧
      (s.run 40 source').2.machine.sink = (s.run 40 source).2.machine.sink := by
  intro s source source'
  let mark (m : Mark) : Token := ⟨.mark m, m.text, 1⟩
  let word (k : Keyword) : Token := ⟨.keyword k, k.text, 1⟩
  let name (x : String) : Token := ⟨.identifier, x, 1⟩
  let inner := [word .forWord, mark .leftParen, mark .semicolon, name "i", mark .semicolon,
    name "i", mark .equal, word .nilWord, mark .rightParen, word .printWord, name "i",
    mark .semicolon]
  let loop : Loop :=
    ⟨[word .varWord, name "i", mark .equal, name "n", mark .semicolon], [name "i"],
      [name "i", mark .equal, word .nilWord], inner⟩
  let call : List Token :=
    [name "f", mark .leftParen, ⟨.string "x", "\"x\"", 1⟩, mark .rightParen, mark .semicolon]
  let pre :=
    [word .funWord, name "f", mark .leftParen, name "n", mark .rightParen, mark .leftBrace]
  let ending : List Token := [⟨.eof, "", 1⟩]
  let ts := word .forWord :: mark .leftParen :: (loop.initializer ++ (loop.condition ++
    mark .semicolon :: (loop.increment ++ mark .rightParen :: inner)))
  let round := mark .leftBrace ::
    (inner ++ (loop.increment ++ [mark .semicolon]) ++ [mark .rightBrace])
  let us := mark .leftBrace :: (loop.initializer ++ (word .whileWord :: mark .leftParen ::
    (loop.condition ++ mark .rightParen :: round)) ++ [mark .rightBrace])
  have hname {n : Nat} (x : String) : Expression n [name x] _ (n + 1) :=
    expression_of_primary (.var rfl)
  have hclear {n : Nat} : Expression n [name "i", mark .equal, word .nilWord] _ (n + 2) :=
    .assign rfl rfl (expression_of_primary (.literal rfl))
  have hinner {n : Nat} : Statement false n inner _ (n + 4) :=
    .forLoop rfl rfl (.none rfl) (.some (hname "i")) rfl (.some hclear) rfl
      (.print rfl (hname "i") rfl) (.incremented .repeated)
  have hloop : loop.Derives false 0 _ 8 :=
    .mk (.declaration rfl (.initialized rfl rfl (hname "n") rfl)) (.some (hname "i"))
      (.some hclear) hinner (.initialized (.incremented .repeated))
  have hblock : BlockAround loop.Derives 0 [mark .leftBrace] [mark .rightBrace] _ 8 :=
    .braces rfl (.head (.statement (.here hloop)) .nil) rfl
  have hf : Call 8 [name "f"] _ 9 := .primary (.var rfl)
  have hcall :
      Call 8 [name "f", mark .leftParen, ⟨.string "x", "\"x\"", 1⟩, mark .rightParen] _ 9 :=
    .call hf rfl (.some (.one (expression_of_primary (.literal rfl)))) (by decide) rfl
  have hlast : Declarations 8 call _ 9 :=
    .cons (.statement (.expression (.operators (operators_of_unary (.call hcall) _)) rfl)) .nil
  have haround : DeclarationsAround loop.Derives 0 pre ([mark .rightBrace] ++ call) _ 9 :=
    .head (.funDecl rfl (.named rfl rfl (.some (.one rfl) (by decide)) rfl hblock)) hlast
  have hfor : loop.ForText ts := .mk rfl rfl rfl rfl
  have hround : loop.Round round := .braced nofun rfl rfl rfl
  have hwhile : loop.WhileText us :=
    .braced (by simp [loop]) rfl (.mk rfl rfl (.given nofun) rfl hround) rfl
  have hscan : scan source = (pre ++ ts ++ ([mark .rightBrace] ++ call) ++ ending, []) := by
    decide +kernel
  have hscan' : scan source' = (pre ++ us ++ ([mark .rightBrace] ++ call) ++ ending, []) := by
    decide +kernel
  have hspelled : ∀ t ∈ (scan source).1 ++ (scan source').1, t.Spelled := fun t ht =>
    (List.mem_append.1 ht).elim (spelled_of_scan source) (spelled_of_scan source')
  have hsuccess : (s.run 40 source).1 = .success := by decide +kernel
  have hreading := Reading.ofSource_of_scan hscan 0
  have hreading' := Reading.ofSource_of_scan hscan' 0
  have hrun : s.run 40 source = s.runReading 40 (.ofTokens [] _ 0) :=
    congrArg (s.runReading 40 ·) hreading
  have hrun' : s.run 40 source' = s.runReading 40 (.ofTokens [] _ 0) :=
    congrArg (s.runReading 40 ·) hreading'
  rw [hscan, hscan'] at hspelled
  rw [hrun] at hsuccess
  obtain ⟨hread, program', hread', hsame, -, hruns⟩ :=
    (for_as_while loop hfor hwhile).2 haround (show (ending.headD Cursor.standIn).isEnd from rfl)
  obtain ⟨⟨hresult, hsink, -⟩, -⟩ := hruns hspelled s (.start _ _) rfl 40 []
  rw [hreading, hreading', hrun, hrun']
  refine ⟨⟨_, program', 9, ?_, ?_, hsame⟩, hsuccess, hresult.trans hsuccess, hsink⟩
  · rw [Reading.ofTokens, hread]; rfl
  · rw [Reading.ofTokens, hread']; rfl

end Grammar.Loop

end LoxLang
