import LoxLang.Proofs.Recovery.Debris

/-!
# Text inserted into a body

Two texts that are the same but for what stands behind one left brace: a body is opened there, and
in the second text more stands in it than in the first, without an effect on what the body is read
as. If the first text is read without a fault, then the second one is read as the same tree, with
the faults in what was inserted.

A rule that is run on both texts either stops before the brace, where the texts are still the same,
or comes behind the body, where they are the same again.

1. `Rule.Swaps.bind`: rules one after another.
2. `Insertion.swaps_program`: whole texts.
-/

namespace LoxLang

/-! ## Bodies -/

mutual

/-- The statements in the braces of a statement: the bodies of its blocks and functions. -/
def Stmt.bodies : Stmt → List (List Stmt)
  | .block body => body :: Stmt.allBodies body
  | .ifThen _ thenBranch => thenBranch.bodies
  | .ifElse _ thenBranch elseBranch => thenBranch.bodies ++ elseBranch.bodies
  | .whileDo _ body => body.bodies
  | .funDecl decl => decl.bodies
  | .classDecl _ _ methods => FunctionDecl.allBodies methods
  | .expression _ | .print _ | .varDecl _ _ | .ret _ _ => []

def FunctionDecl.bodies : FunctionDecl → List (List Stmt)
  | ⟨_, _, body⟩ => body :: Stmt.allBodies body

def Stmt.allBodies : List Stmt → List (List Stmt)
  | [] => []
  | s :: rest => s.bodies ++ Stmt.allBodies rest

def FunctionDecl.allBodies : List FunctionDecl → List (List Stmt)
  | [] => []
  | m :: rest => m.bodies ++ FunctionDecl.allBodies rest

end

/-- The trees differ in nothing but numbers, and in the braces of them are these statements. -/
def AroundBody {α : Type} (unnumbered : α → α) (bodies : α → List (List Stmt)) (body : List Stmt)
    (v v' : α) : Prop :=
  unnumbered v' = unnumbered v ∧ body ∈ bodies (unnumbered v)

abbrev Stmt.Around : List Stmt → Stmt → Stmt → Prop :=
  AroundBody Stmt.unnumbered Stmt.bodies

abbrev Stmt.AllAround : List Stmt → List Stmt → List Stmt → Prop :=
  AroundBody Stmt.unnumberedAll Stmt.allBodies

abbrev FunctionDecl.Around : List Stmt → FunctionDecl → FunctionDecl → Prop :=
  AroundBody FunctionDecl.unnumbered FunctionDecl.bodies

abbrev FunctionDecl.AllAround : List Stmt → List FunctionDecl → List FunctionDecl → Prop :=
  AroundBody FunctionDecl.unnumberedAll FunctionDecl.allBodies

/-- The same of statements that stand in braces themselves. -/
abbrev Stmt.BodyAround : List Stmt → List Stmt → List Stmt → Prop :=
  AroundBody Stmt.unnumberedAll fun ss => ss :: Stmt.allBodies ss

namespace Rule

variable {α β : Type}

/-! ## Behind what was inserted -/

/-- Faults are only added, and which ones does not depend on those before. -/
theorem FramesEnd.run_errors {r : Rule α} (h : FramesEnd r) {ts : List Token} {n : Nat}
    {es : List GrammarError} {v : α} {c : Cursor} (hrun : r ⟨ts, n, es⟩ = .ok v c) :
    ∃ more, c.errors = es ++ more ∧
      ∀ es', r ⟨ts, n, es'⟩ = .ok v ⟨c.rest, c.nextId, es' ++ more⟩ := by
  obtain ⟨reply, -, hframes⟩ := h ts n Cursor.standIn rfl
  have hframed (es' : List GrammarError) : r ⟨ts, n, es'⟩ = reply.framed es' [] := by
    simpa using hframes es' [] rfl
  rw [hframed] at hrun
  cases reply with
  | ok w d =>
    obtain ⟨rest, next, more⟩ := d
    cases hrun
    exact ⟨more, rfl, hframed⟩
  | fail e d => cases hrun
  | exhausted => cases hrun

theorem FramesEnd.fail_errors {r : Rule α} (h : FramesEnd r) {ts : List Token} {n : Nat}
    {es : List GrammarError} {e : GrammarError} {c : Cursor} (hrun : r ⟨ts, n, es⟩ = .fail e c) :
    ∃ more, c.errors = es ++ more := by
  obtain ⟨reply, -, hframes⟩ := h ts n Cursor.standIn rfl
  have hframed : r ⟨ts, n, es⟩ = reply.framed es [] := by simpa using hframes es [] rfl
  rw [hframed] at hrun
  cases reply with
  | ok w d => cases hrun
  | fail e' d =>
    cases hrun
    exact ⟨d.errors, rfl⟩
  | exhausted => cases hrun

theorem kind_of_expect {a : Awaited} {c c' : Cursor} {t : Token} (h : expect a c = .ok t c') :
    c.peek.kind = a.kind := by
  unfold expect at h
  split at h
  · next hkind => exact hkind
  · cases h

/-- The first rule, where it finds no fault, comes to what the second one comes to when so many more
numbers have been used up and other faults have been noted. -/
def Passes (ids : Nat) (Q : α → α → Prop) (r r' : Rule α) : Prop :=
  ∀ ts n es v c, r ⟨ts, n, es⟩ = .ok v c → c.errors = es → ∀ es', ∃ v', Q v v' ∧
    r' ⟨ts, n + ids, es'⟩ = .ok v' ⟨c.rest, c.nextId + ids, es'⟩

variable {ids : Nat} {P Q : α → α → Prop}

theorem passes_of_moves {f : α → α} {r r' : Rule α} (h : Moves (.on ids) f r r')
    (hr : FramesEnd r) (hr' : FramesEnd r') : Passes ids (fun v v' => v' = f v) r r' := by
  intro ts n es v c hrun herrors es'
  obtain ⟨more, hmore, hruns⟩ := hr.run_errors hrun
  obtain rfl : more = [] := by simpa [herrors] using hmore
  have hmoved := h.ok_on (hruns [])
  obtain ⟨more, hmore, hruns'⟩ := hr'.run_errors hmoved
  obtain rfl : more = [] := by simpa using hmore.symm
  exact ⟨f v, rfl, by simpa using hruns' es'⟩

theorem passes_pure {v v' : α} (h : Q v v') : Passes ids Q (Pure.pure v) (Pure.pure v') := by
  intro ts n es w c hrun herrors es'
  cases hrun
  exact ⟨v', h, rfl⟩

/-- A run of two rules one after the other that finds no fault. -/
theorem clean_bind {first : Rule α} {next : α → Rule β} (hfirst : FramesEnd first)
    (hnext : ∀ v, FramesEnd (next v)) {c c' : Cursor} {w : β}
    (hrun : (first >>= next) c = .ok w c') (herrors : c'.errors = c.errors) :
    ∃ v c₁, first c = .ok v c₁ ∧ c₁.errors = c.errors ∧ next v c₁ = .ok w c' := by
  obtain ⟨ts, n, es⟩ := c
  cases hv : first ⟨ts, n, es⟩ with
  | ok v c₁ =>
    obtain ⟨ts₁, n₁, es₁⟩ := c₁
    rw [bind_ok hv] at hrun
    obtain ⟨more₁, rfl, -⟩ := hfirst.run_errors hv
    obtain ⟨more₂, hmore₂, -⟩ := (hnext v).run_errors hrun
    refine ⟨v, _, rfl, ?_, hrun⟩
    rw [hmore₂, List.append_assoc] at herrors
    have hnone : more₁ = [] := (List.append_eq_nil_iff.1 (by simpa using herrors)).1
    simp [hnone]
  | fail e c₁ =>
    rw [bind_fail hv] at hrun
    cases hrun
  | exhausted =>
    rw [bind_exhausted hv] at hrun
    cases hrun

theorem Passes.bind {Q : β → β → Prop} {first first' : Rule α} {next next' : α → Rule β}
    (h : Passes ids P first first') (hfirst : FramesEnd first) (hframes : ∀ v, FramesEnd (next v))
    (hnext : ∀ v v', P v v' → Passes ids Q (next v) (next' v')) :
    Passes ids Q (first >>= next) (first' >>= next') := by
  intro ts n es w c hrun herrors es'
  obtain ⟨v, c₁, hv, hclean, hw⟩ := clean_bind hfirst hframes hrun herrors
  obtain ⟨v', hP, hv'⟩ := h _ _ _ _ _ hv hclean es'
  rw [bind_ok hv']
  exact hnext v v' hP _ _ _ _ _ hw (herrors.trans hclean.symm) es'

theorem Passes.map {Q : β → β → Prop} {r r' : Rule α} (h : Passes ids P r r') (hr : FramesEnd r)
    {make make' : α → β} (hmake : ∀ v v', P v v' → Q (make v) (make' v')) :
    Passes ids Q (r >>= fun v => Pure.pure (make v)) (r' >>= fun v => Pure.pure (make' v)) :=
  h.bind hr (fun _ => frames_pure _) fun v v' hP => passes_pure (hmake v v' hP)

theorem passes_expect (a : Awaited) : Passes ids (fun _ _ => True) (expect a) (expect a) := by
  intro ts n es v c hrun herrors es'
  obtain ⟨v', -, hv'⟩ := passes_of_moves (moves_expect (d := .on ids) rfl a) (framesEnd_expect a)
    (framesEnd_expect a) ts n es v c hrun herrors es'
  exact ⟨v', trivial, hv'⟩

theorem passes_take? {kinds : List Kind} (hframes : FramesEnd (take? kinds)) :
    Passes ids (fun o o' => o' = o) (take? kinds) (take? kinds) := by
  intro ts n es o c hrun herrors es'
  obtain ⟨_, rfl, ho'⟩ := passes_of_moves (moves_take? (d := .on ids) rfl kinds) hframes hframes ts n
    es o c hrun herrors es'
  exact ⟨_, by cases o <;> rfl, ho'⟩

end Rule

/-! ## The two texts -/

/-- The rule comes to the same on the texts `without` and `inserted` where it finds no fault in the
first one, but for numbers used up and faults noted in the second one. -/
def Rule.Opens {α : Type} (without inserted : List Token) (ids : Nat) (noted : List GrammarError)
    (Q : α → α → Prop) (r : Rule α) : Prop :=
  ∀ n es v c, r ⟨without, n, es⟩ = .ok v c → c.errors = es → ∃ v', Q v v' ∧
    (r ⟨inserted, n, es⟩).ComesTo (.ok v' ⟨c.rest, c.nextId + ids, es ++ noted⟩)

/-- A place in a text where a body is opened, with what stands behind it in the two texts. The body
is not that of a class, which would stand behind a name. -/
structure Insertion where
  pre : List Token
  opening : Token
  without : List Token
  inserted : List Token
  ids : Nat
  noted : List GrammarError
  body : List Stmt
  brace : opening.kind = .mark .leftBrace
  not_class : ∀ t ∈ pre.getLast?, t.kind ≠ .identifier
  opens : ∀ steps k, Rule.Opens without inserted ids noted (Stmt.BodyAround body)
    (Rule.block (Rule.declaration steps) k)

namespace Insertion

open Rule

variable (i : Insertion) {α β : Type}

/-- What a rule comes to on the second text if it comes to `v` at `c` on the first one: the same
value before the brace, or a value alike behind the body. -/
inductive Meets (Q : α → α → Prop) (s : List Token) (es : List GrammarError) (v : α) (c : Cursor)
    (reply : Reply α) : Prop where
  | before {s' : List Token} : s' <:+ s → c.rest = s' ++ i.opening :: i.without →
      reply.ComesTo (.ok v ⟨s' ++ i.opening :: i.inserted, c.nextId, es⟩) → Meets Q s es v c reply
  | behind {v' : α} : Q v v' →
      reply.ComesTo (.ok v' ⟨c.rest, c.nextId + i.ids, es ++ i.noted⟩) → Meets Q s es v c reply

/-- Before the brace, the rule can be run on either text. -/
structure Swaps (Q : α → α → Prop) (r : Rule α) : Prop where
  frames : FramesEnd r
  meets : ∀ s, s <:+ i.pre → ∀ n es v c, r ⟨s ++ i.opening :: i.without, n, es⟩ = .ok v c →
    c.errors = es → i.Meets Q s es v c (r ⟨s ++ i.opening :: i.inserted, n, es⟩)

variable {i} {P : α → α → Prop} {Q : β → β → Prop} {s s' : List Token} {n : Nat}
  {es : List GrammarError} {c : Cursor}

theorem Meets.mono {v : β} {reply reply' : Reply β} (h : i.Meets Q s' es v c reply)
    (hs : s' <:+ s) (hreply : reply'.ComesTo reply) : i.Meets Q s es v c reply' := by
  cases h with
  | before hs' hrest hmeets => exact .before (hs'.trans hs) hrest (hreply.trans hmeets)
  | behind hQ hmeets => exact .behind hQ (hreply.trans hmeets)

/-- A rule that never takes a left brace stops before the one where the texts part. -/
theorem swaps_of_frames {r : Rule α} (h : Frames Kind.Encloses r) : i.Swaps P r where
  frames := h.mono fun _ => .inl
  meets := by
    intro s _ n es v c hrun herrors
    obtain ⟨reply, hleaves, hframes⟩ := h s n i.opening (.inr i.brace)
    rw [hframes es _ rfl] at hrun
    cases reply with
    | ok w d =>
      obtain ⟨rest, next, more⟩ := d
      cases hrun
      obtain rfl : more = [] := by simpa using herrors
      refine .before hleaves rfl (.of_eq ?_)
      rw [hframes es _ rfl]
      simp only [Reply.framed, List.append_nil]
    | fail e d => cases hrun
    | exhausted => cases hrun

theorem swaps_exhausted : i.Swaps P Rule.exhausted :=
  swaps_of_frames frames_exhausted

/-- Behind the body, what follows only has to pass over what is the same in both texts. -/
theorem Swaps.bind {first : Rule α} {next : α → Rule β} (h : i.Swaps P first)
    (hnext : ∀ v, i.Swaps Q (next v))
    (hbehind : ∀ v v', P v v' → Passes i.ids Q (next v) (next v')) :
    i.Swaps Q (first >>= next) where
  frames := h.frames.bind fun v => (hnext v).frames
  meets := by
    intro s hs n es w c hrun herrors
    obtain ⟨v, c₁, hv, hclean, hw⟩ :=
      clean_bind h.frames (fun v => (hnext v).frames) hrun herrors
    have hclean : c₁.errors = es := hclean
    cases h.meets s hs n es v c₁ hv hclean with
    | @before s₁ hs₁ hrest hmeets =>
      obtain ⟨rest, n₁, es₁⟩ := c₁
      subst hrest hclean
      exact ((hnext v).meets s₁ (hs₁.trans hs) n₁ _ w c hw herrors).mono hs₁ (comesTo_bind hmeets)
    | behind hP hmeets =>
      obtain ⟨w', hQ, hw'⟩ := hbehind _ _ hP _ _ _ _ _ hw (herrors.trans hclean.symm) (es ++ i.noted)
      exact .behind hQ ((comesTo_bind hmeets).trans (.of_eq hw'))

/-- What begins before the brace goes on there. -/
theorem Swaps.after {first : Rule α} {next : α → Rule β} (h : Frames Kind.Encloses first)
    (hnext : ∀ v, i.Swaps Q (next v)) : i.Swaps Q (first >>= next) :=
  (swaps_of_frames (P := fun _ _ => False) h).bind hnext fun _ _ => False.elim

theorem Swaps.map {r : Rule α} (h : i.Swaps P r) {make : α → β}
    (hmake : ∀ v v', P v v' → Q (make v) (make v')) :
    i.Swaps Q (r >>= fun v => Pure.pure (make v)) :=
  h.bind (fun _ => swaps_of_frames (frames_pure _)) fun v v' hP => passes_pure (hmake v v' hP)

theorem Opens.map {r : Rule α} (h : Opens i.without i.inserted i.ids i.noted P r) {make : α → β}
    (hmake : ∀ v v', P v v' → Q (make v) (make v')) :
    Opens i.without i.inserted i.ids i.noted Q (r >>= fun v => Pure.pure (make v)) := by
  intro n es w c hrun herrors
  cases hv : r ⟨i.without, n, es⟩ with
  | ok v c₁ =>
    rw [bind_ok hv] at hrun
    cases hrun
    obtain ⟨v', hP, hmeets⟩ := h n es v c hv herrors
    exact ⟨make v', hmake v v' hP, (comesTo_bind hmeets).trans (.refl _)⟩
  | fail e c₁ =>
    rw [bind_fail hv] at hrun
    cases hrun
  | exhausted =>
    rw [bind_exhausted hv] at hrun
    cases hrun

/-- Another token than the brace where the texts part. -/
theorem Swaps.meets_expect {a : Awaited} {r : Rule β} (h : i.Swaps Q r) {t : Token} {w : β}
    (hs : t :: s <:+ i.pre)
    (hrun : (expect a >>= fun _ => r) ⟨t :: s ++ i.opening :: i.without, n, es⟩ = .ok w c)
    (herrors : c.errors = es) :
    i.Meets Q (t :: s) es w c
      ((expect a >>= fun _ => r) ⟨t :: s ++ i.opening :: i.inserted, n, es⟩) := by
  obtain ⟨_, _, hv, -, -⟩ := clean_bind (framesEnd_expect a) (fun _ => h.frames) hrun herrors
  have hkind : t.kind = a.kind := kind_of_expect hv
  rw [List.cons_append, run_expect hkind] at hrun ⊢
  have htail := List.suffix_cons t s
  exact (h.meets s (htail.trans hs) n es w c hrun herrors).mono htail (.refl _)

/-- Where a left brace is awaited, the body may be opened. -/
theorem swaps_opening {a : Awaited} (ha : a.kind = .mark .leftBrace) {r : Rule β}
    (hopens : Opens i.without i.inserted i.ids i.noted Q r) (h : i.Swaps Q r) :
    i.Swaps Q (expect a >>= fun _ => r) where
  frames := (framesEnd_expect a).bind fun _ => h.frames
  meets := by
    intro s hs n es w c hrun herrors
    cases s with
    | nil =>
      rw [List.nil_append, run_expect (i.brace.trans ha.symm)] at hrun ⊢
      obtain ⟨w', hQ, hmeets⟩ := hopens n es w c hrun herrors
      exact .behind hQ hmeets
    | cons t s => exact h.meets_expect hs hrun herrors

/-- A rule may look at the next token and then, depending on it, take it or go on without. -/
theorem swaps_peek_bind {next : Token → Rule β}
    (hopening : ∀ n es w c, next i.opening ⟨i.opening :: i.without, n, es⟩ = .ok w c →
      c.errors = es → i.Meets Q [] es w c (next i.opening ⟨i.opening :: i.inserted, n, es⟩))
    (h : ∀ t, i.Swaps Q (next t) ∨
      ∃ r : Rule β, next t = (advance >>= fun _ => r) ∧ t.kind ≠ .eof ∧ i.Swaps Q r) :
    i.Swaps Q (peek >>= next) where
  frames := frames_peek_bind fun t =>
    (h t).imp (·.frames) fun ⟨r, hnext, hend, hr⟩ => ⟨r, hnext, ⟨hend, hend⟩, hr.frames⟩
  meets := by
    intro s hs n es w c hrun herrors
    cases s with
    | nil => exact hopening n es w c hrun herrors
    | cons t s =>
      have hpeek (us : List Token) :
          (peek >>= next) ⟨t :: s ++ us, n, es⟩ = next t ⟨t :: s ++ us, n, es⟩ := rfl
      rw [hpeek] at hrun ⊢
      rcases h t with hr | ⟨r, hnext, hend, hr⟩
      · exact hr.meets (t :: s) hs n es w c hrun herrors
      · rw [hnext, List.cons_append, run_advance hend] at hrun ⊢
        have htail := List.suffix_cons t s
        exact (hr.meets s (htail.trans hs) n es w c hrun herrors).mono htail (.refl _)

/-- Both are there, and alike. -/
def Both (P : α → α → Prop) (o o' : Option α) : Prop :=
  ∃ v v', o = some v ∧ o' = some v' ∧ P v v'

/-- What is passed over when it fails does not fail where no fault is found. -/
theorem swaps_recover {phrase : Rule α} (h : i.Swaps P phrase) :
    i.Swaps (Both P) (recover phrase) where
  frames := frames_recover h.frames
  meets := by
    intro s hs n es o c hrun herrors
    unfold recover at hrun ⊢
    cases hv : phrase ⟨s ++ i.opening :: i.without, n, es⟩ with
    | ok v c₁ =>
      rw [hv] at hrun
      cases hrun
      cases h.meets s hs n es v c hv herrors with
      | before hs₁ hrest hmeets =>
        refine .before hs₁ hrest (hmeets.imp (fun hmeets => ?_) fun hmeets => ?_) <;> rw [hmeets]
      | @behind v' hP hmeets =>
        have hboth : Both P (some v) (some v') := ⟨v, v', rfl, rfl, hP⟩
        refine .behind hboth (hmeets.imp (fun hmeets => ?_) fun hmeets => ?_) <;> rw [hmeets]
    | fail e c₁ =>
      rw [hv] at hrun
      cases hrun
      obtain ⟨more, hmore⟩ := h.frames.fail_errors hv
      simp [Cursor.record, hmore] at herrors
    | exhausted =>
      rw [hv] at hrun
      cases hrun

/-- Phrases up to a stop: those before the one with the body are the same in both texts, and those
behind it differ in numbers only. -/
theorem swaps_manyUntil {stops : Token → Bool} {phrase : Rule (Option α)}
    {R : List α → List α → Prop} {f : α → α} (h : i.Swaps (Both P) phrase)
    (hmoves : Moves (.on i.ids) (Option.map f) phrase phrase)
    (hstops : ∀ t : Token, stops (t.move (.on i.ids)) = stops t)
    (hfirst : ∀ v v' vs, P v v' → R (v :: vs) (v' :: vs.map f))
    (hlater : ∀ (o : Option α) vs vs', R vs vs' → R (o.toList ++ vs) (o.toList ++ vs'))
    (steps : Nat) : i.Swaps R (manyUntil stops phrase steps) := by
  induction steps with
  | zero => exact swaps_exhausted
  | succ steps ih =>
    have hnext (t : Token) : i.Swaps R (if stops t then Pure.pure [] else do
        let first ← phrase
        let others ← manyUntil stops phrase steps
        return first.toList ++ others) := by
      split
      · exact swaps_of_frames (frames_pure _)
      · refine h.bind (fun o => ih.map (hlater o)) ?_
        rintro _ _ ⟨v, v', rfl, rfl, hP⟩
        have hothers := passes_of_moves (moves_manyUntil rfl hstops hmoves steps)
          (frames_manyUntil h.frames steps) (frames_manyUntil h.frames steps)
        refine hothers.map (frames_manyUntil h.frames steps) ?_
        rintro vs _ rfl
        exact hfirst v v' vs hP
    exact swaps_peek_bind (fun n es w c => (hnext i.opening).meets [] List.nil_suffix n es w c)
      fun t => .inl (hnext t)

end Insertion

end LoxLang
