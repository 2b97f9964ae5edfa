import LoxLang.Proofs.Recovery.Insertion

/-!
# Rules around an insertion

Every rule of the grammar that stops before a body or comes behind it does so in the text where
more stands in that body, too.

1. `Insertion.swaps_statement_declaration`: rules of the grammar.
2. `Insertion.swaps_program`: whole texts.
-/

namespace LoxLang

/-! ## Lists -/

section

variable {body : List Stmt}

theorem Stmt.allAround_first {k : Nat} {s s' : Stmt} (rest : List Stmt)
    (h : Stmt.Around body s s') :
    Stmt.AllAround body (s :: rest) (s' :: rest.map (Stmt.move (.on k))) := by
  refine ⟨?_, List.mem_append_left _ h.2⟩
  rw [← Stmt.moveAll_eq_map, Stmt.unnumberedAll, Stmt.unnumberedAll_moveAll, h.1]
  rfl

theorem Stmt.allAround_later (o : Option Stmt) (rest rest' : List Stmt)
    (h : Stmt.AllAround body rest rest') :
    Stmt.AllAround body (o.toList ++ rest) (o.toList ++ rest') := by
  cases o with
  | none => exact h
  | some s => exact ⟨congrArg (s.unnumbered :: ·) h.1, List.mem_append_right _ h.2⟩

theorem FunctionDecl.allAround_first {k : Nat} {m m' : FunctionDecl} (rest : List FunctionDecl)
    (h : FunctionDecl.Around body m m') :
    FunctionDecl.AllAround body (m :: rest) (m' :: rest.map (FunctionDecl.move (.on k))) := by
  refine ⟨?_, List.mem_append_left _ h.2⟩
  rw [← FunctionDecl.moveAll_eq_map, FunctionDecl.unnumberedAll,
    FunctionDecl.unnumberedAll_moveAll, h.1]
  rfl

theorem FunctionDecl.allAround_later (o : Option FunctionDecl) (rest rest' : List FunctionDecl)
    (h : FunctionDecl.AllAround body rest rest') :
    FunctionDecl.AllAround body (o.toList ++ rest) (o.toList ++ rest') := by
  cases o with
  | none => exact h
  | some m => exact ⟨congrArg (m.unnumbered :: ·) h.1, List.mem_append_right _ h.2⟩

end

namespace Insertion

open Rule

variable {i : Insertion}

/-! ## Statements -/

section

variable {statement : Rule Stmt} (h : i.Swaps (Stmt.Around i.body) statement) (steps : Nat)
include h

theorem swaps_whileStatement : i.Swaps (Stmt.Around i.body) (whileStatement statement steps) := by
  refine .after (frames_awaited (by decide)) fun _ =>
    .after (frames_enclosed_expression steps) fun condition =>
    .after (frames_awaited (by decide)) fun _ => h.map fun s s' hs => ?_
  exact ⟨by simp only [Stmt.unnumbered, hs.1], hs.2⟩

theorem swaps_forStatement : i.Swaps (Stmt.Around i.body) (forStatement statement steps) := by
  refine .after (frames_awaited (by decide)) fun _ =>
    .after (frames_forInitializer steps) fun initializer =>
    .after (frames_clause steps _) fun condition =>
    .after (frames_awaited (by decide)) fun _ => .after (frames_clause steps _) fun increment =>
    .after (frames_awaited (by decide)) fun _ => h.map fun s s' hs => ?_
  refine ⟨by simp only [Stmt.unnumbered_forLoop, hs.1], ?_⟩
  rw [Stmt.unnumbered_forLoop]
  cases initializer <;> cases increment <;>
    simp [Stmt.forLoop, Stmt.bodies, Stmt.allBodies, hs.2]

theorem swaps_ifStatement
    (hmoves : Moves (.on i.ids) (Stmt.move (.on i.ids)) statement statement) :
    i.Swaps (Stmt.Around i.body) (ifStatement statement steps) := by
  refine .after (frames_awaited (by decide)) fun _ =>
    .after (frames_enclosed_expression steps) fun condition =>
    .after (frames_awaited (by decide)) fun _ => h.bind (fun thenBranch => ?_) fun s s' hs => ?_
  · refine .after (frames_take? (by simp [Kind.Encloses])) fun other => ?_
    cases other with
    | none => exact swaps_of_frames (frames_pure _)
    | some _ =>
      refine h.map fun s s' hs => ⟨by simp only [Stmt.unnumbered, hs.1], ?_⟩
      exact List.mem_append_right _ hs.2
  · have htake : FramesEnd (take? [.keyword .elseWord]) := frames_take? (by simp)
    refine (passes_take? htake).bind htake (fun other => ?_) ?_
    · cases other with
      | none => exact frames_pure _
      | some _ => exact h.frames.map _
    · rintro _ other rfl
      cases other with
      | none => exact passes_pure ⟨by simp only [Stmt.unnumbered, hs.1], hs.2⟩
      | some _ =>
        refine (passes_of_moves hmoves h.frames h.frames).map h.frames fun e e' he => ?_
        refine ⟨?_, List.mem_append_left _ hs.2⟩
        simp only [Stmt.unnumbered, hs.1, he, Stmt.unnumbered_move]

end

/-! ## Bodies -/

section

variable {declaration : Rule (Option Stmt)} (h : i.Swaps (Both (Stmt.Around i.body)) declaration)
  (hmoves : Moves (.on i.ids) (Option.map (Stmt.move (.on i.ids))) declaration declaration)
  {steps : Nat}
  (hopens : Opens i.without i.inserted i.ids i.noted (Stmt.BodyAround i.body)
    (block declaration steps))
include h hmoves

theorem swaps_block : i.Swaps (Stmt.BodyAround i.body) (block declaration steps) := by
  refine (swaps_manyUntil h hmoves (fun _ => rfl) (fun _ _ => Stmt.allAround_first)
    Stmt.allAround_later steps).bind (fun body => ?_) fun body body' hbody => ?_
  · exact swaps_of_frames ((frames_awaited (by decide)).map _)
  · exact (passes_expect _).map (framesEnd_expect _) fun _ _ _ =>
      ⟨hbody.1, List.mem_cons_of_mem _ hbody.2⟩

include hopens

theorem swaps_function (role : Role) :
    i.Swaps (FunctionDecl.Around i.body) (function role declaration steps) := by
  have hmake (name : Token) (params : List Token) (body body' : List Stmt)
      (hbody : Stmt.BodyAround i.body body body') :
      FunctionDecl.Around i.body ⟨name, params, body⟩ ⟨name, params, body'⟩ :=
    ⟨by simp only [FunctionDecl.unnumbered, hbody.1], hbody.2⟩
  exact .after (frames_awaited nofun) fun name => .after (frames_awaited nofun) fun _ =>
    .after (frames_params steps) fun params => .after (frames_awaited (by decide)) fun _ =>
    swaps_opening rfl (Opens.map hopens (hmake name params))
      ((swaps_block h hmoves).map (hmake name params))

end

theorem mem_getLast?_of_suffix {ts us : List Token} (h : ts <:+ us) {t : Token}
    (ht : t ∈ ts.getLast?) : t ∈ us.getLast? := by
  obtain ⟨vs, rfl⟩ := h
  simp [List.getLast?_append, Option.mem_def.1 ht]

/-- In front of a left brace, a superclass ends with its name. -/
theorem superclass_name {ts us : List Token} {opening : Token} {n : Nat} {es : List GrammarError}
    {parent : Option Occurrence} {c : Cursor} (hbrace : opening.kind = .mark .leftBrace)
    (hrun : superclass ⟨ts ++ opening :: us, n, es⟩ = .ok parent c)
    (hrest : c.rest = opening :: us) : ts = [] ∨ ∃ t ∈ ts.getLast?, t.kind = .identifier := by
  cases ts with
  | nil => exact .inl rfl
  | cons t ts =>
    right
    by_cases hless : t.kind = .mark .less
    · rw [superclass, List.cons_append, run_take (by simp) (by simp [hless])] at hrun
      dsimp only at hrun
      cases hname : expect .superclassName ⟨ts ++ opening :: us, n, es⟩ with
      | ok name c₁ =>
        have hkind := kind_of_expect hname
        cases ts with
        | nil => exact absurd (hbrace.symm.trans hkind) (by decide)
        | cons name ts =>
          rw [List.cons_append, run_expect (by exact hkind)] at hrun
          cases hrun
          have hlength := congrArg List.length hrest
          obtain rfl : ts = [] := List.eq_nil_of_length_eq_zero (by simpa using hlength)
          exact ⟨name, rfl, hkind⟩
      | fail e c₁ =>
        rw [bind_fail hname] at hrun
        cases hrun
      | exhausted =>
        rw [bind_exhausted hname] at hrun
        cases hrun
    · rw [superclass, List.cons_append, run_pass (by simpa [peek_cons] using hless)] at hrun
      cases hrun
      have hlength := congrArg List.length hrest
      simp only [List.length_cons, List.length_append] at hlength
      omega

section

variable {declaration : Rule (Option Stmt)} {steps : Nat}
  (h : i.Swaps (FunctionDecl.Around i.body) (function .method declaration steps))
  (hmoves : Moves (.on i.ids) (FunctionDecl.move (.on i.ids))
    (function .method declaration steps) (function .method declaration steps))
include h hmoves

/-- Behind the brace of a class, the body stands in one of the methods. -/
theorem swaps_methods (name : Token) (parent : Option Occurrence) :
    i.Swaps (Stmt.Around i.body)
      (manyUntil (fun t => t.isEnd || t.kind = .mark .rightBrace)
          (function .method declaration steps >>= fun m => Pure.pure (some m)) steps >>=
        fun methods => expect .classEnd >>= fun _ =>
          Pure.pure (Stmt.classDecl name parent methods)) := by
  have hmethod : i.Swaps (Both (FunctionDecl.Around i.body))
      (function .method declaration steps >>= fun m => Pure.pure (some m)) :=
    h.map fun m m' hm => ⟨m, m', rfl, rfl, hm⟩
  have hmoved : Moves (.on i.ids) (Option.map (FunctionDecl.move (.on i.ids)))
      (function .method declaration steps >>= fun m => Pure.pure (some m))
      (function .method declaration steps >>= fun m => Pure.pure (some m)) :=
    hmoves.map fun _ => rfl
  refine (swaps_manyUntil hmethod hmoved (fun _ => rfl)
    (fun _ _ => FunctionDecl.allAround_first) FunctionDecl.allAround_later steps).bind
    (fun _ => swaps_of_frames ((frames_awaited (by decide)).map _)) fun methods methods' hm => ?_
  exact (passes_expect _).map (framesEnd_expect _) fun _ _ _ =>
    ⟨by simp only [Stmt.unnumbered, hm.1], hm.2⟩

theorem swaps_classDeclaration :
    i.Swaps (Stmt.Around i.body) (classDeclaration declaration steps) := by
  have hbody := swaps_methods h hmoves
  have hframes (name : Token) : FramesEnd (superclass >>= fun parent =>
      expect .classBody >>= fun _ => _) :=
    (frames_superclass.mono fun _ => .inl).bind fun parent =>
      (framesEnd_expect .classBody).bind fun _ => (hbody name parent).frames
  refine ⟨(framesEnd_expect .className).bind hframes, ?_⟩
  intro s hs n es w c hrun herrors
  unfold classDeclaration at hrun ⊢
  obtain ⟨_, _, hname, -, -⟩ := clean_bind (framesEnd_expect _) hframes hrun herrors
  have hkind := kind_of_expect hname
  cases s with
  | nil => exact absurd (i.brace.symm.trans hkind) (by decide)
  | cons name s =>
    rw [List.cons_append, run_expect (by exact hkind)] at hrun ⊢
    have htail := List.suffix_cons name s
    obtain ⟨parent, c₁, hparent, hclean, hrest⟩ := clean_bind (frames_superclass.mono fun _ => .inl)
      (fun parent => (framesEnd_expect .classBody).bind fun _ => (hbody name parent).frames)
      hrun herrors
    have hclean : c₁.errors = es := hclean
    cases (swaps_of_frames (P := fun _ _ => False) frames_superclass).meets s (htail.trans hs) n es
      parent c₁ hparent hclean with
    | @before s₁ hs₁ hleft hmeets =>
      cases s₁ with
      | nil =>
        -- The brace would be that of the class.
        have hlast : ∃ t ∈ (name :: s).getLast?, t.kind = .identifier := by
          rcases superclass_name i.brace hparent hleft with rfl | ⟨t, ht, hk⟩
          · exact ⟨name, rfl, hkind⟩
          · exact ⟨t, mem_getLast?_of_suffix htail ht, hk⟩
        obtain ⟨t, ht, hk⟩ := hlast
        exact absurd hk (i.not_class t (mem_getLast?_of_suffix hs ht))
      | cons t s₁ =>
        obtain ⟨rest, n₁, es₁⟩ := c₁
        subst hleft hclean
        exact ((hbody name parent).meets_expect ((hs₁.trans htail).trans hs) hrest herrors).mono
          (hs₁.trans htail) (comesTo_bind hmeets)
    | behind hP => exact hP.elim

end

/-! ## Statements and declarations -/

theorem swaps_statement_declaration (steps : Nat) :
    i.Swaps (Stmt.Around i.body) (Rule.statement steps) ∧
      i.Swaps (Both (Stmt.Around i.body)) (Rule.declaration steps) := by
  induction steps with
  | zero => exact ⟨swaps_exhausted, swaps_exhausted⟩
  | succ steps ih =>
    have hmoves := moves_statement_declaration (d := .on i.ids) rfl steps
    have hblock : i.Swaps (Stmt.BodyAround i.body) (block (Rule.declaration steps) steps) :=
      swaps_block ih.2 hmoves.2
    have hfunction := swaps_function ih.2 hmoves.2 (i.opens steps steps)
    have hmake (body body' : List Stmt) (hbody : Stmt.BodyAround i.body body body') :
        Stmt.Around i.body (.block body) (.block body') :=
      ⟨by simp only [Stmt.unnumbered, hbody.1], hbody.2⟩
    constructor
    · refine swaps_peek_bind ?_ fun t => ?_
      · intro n es w c hrun herrors
        have hend : i.opening.kind ≠ .eof := by simp [i.brace]
        simp only [i.brace, run_advance hend] at hrun ⊢
        obtain ⟨w', hQ, hmeets⟩ := Opens.map (i.opens steps steps) hmake n es w c hrun herrors
        exact .behind hQ hmeets
      · split
        · next hk => exact .inr ⟨_, rfl, by simp [hk], swaps_forStatement ih.1 steps⟩
        · next hk => exact .inr ⟨_, rfl, by simp [hk], swaps_ifStatement ih.1 steps hmoves.1⟩
        · next hk =>
          exact .inr ⟨_, rfl, by simp [hk], swaps_of_frames (frames_printStatement steps)⟩
        · next hk =>
          exact .inr ⟨_, rfl, by simp [hk], swaps_of_frames (frames_returnStatement steps t)⟩
        · next hk => exact .inr ⟨_, rfl, by simp [hk], swaps_whileStatement ih.1 steps⟩
        · next hk => exact .inr ⟨_, rfl, by simp [hk], hblock.map hmake⟩
        · exact .inl (swaps_of_frames (frames_expressionStatement steps))
    · have hmethod := (moves_function (d := .on i.ids) rfl .method hmoves.2 steps)
      refine swaps_recover (swaps_peek_bind ?_ fun t => ?_)
      · intro n es w c hrun herrors
        simp only [i.brace] at hrun ⊢
        exact ih.1.meets [] List.nil_suffix n es w c hrun herrors
      · split
        · next hk =>
          exact .inr ⟨_, rfl, by simp [hk], swaps_classDeclaration (hfunction .method) hmethod⟩
        · next hk =>
          refine .inr ⟨_, rfl, by simp [hk], (hfunction .function).map fun m m' hm => ?_⟩
          exact ⟨by simp only [Stmt.unnumbered, hm.1], hm.2⟩
        · next hk =>
          exact .inr ⟨_, rfl, by simp [hk], swaps_of_frames (frames_variableDeclaration steps)⟩
        · exact .inl ih.1

theorem swaps_program (steps : Nat) : i.Swaps (Stmt.AllAround i.body) (program steps) :=
  swaps_manyUntil (swaps_statement_declaration steps).2
    (moves_statement_declaration rfl steps).2 (fun _ => rfl) (fun _ _ => Stmt.allAround_first)
    Stmt.allAround_later steps

end Insertion

end LoxLang
