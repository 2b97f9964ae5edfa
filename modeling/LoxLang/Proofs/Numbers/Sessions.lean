import LoxLang.Proofs.Copies.Sessions
import LoxLang.Proofs.Numbers.Rules
import LoxLang.Proofs.Splitting.Sessions

/-!
# Numbers in sessions

A number tells a mention from all others of its session. What is found out about it in the run of
its source stays as it is, however many sources are run later; so a function means the same by its
names whenever it is called.

1. `Session.Remembers.act`: what one action adds.
2. `Session.numbers_identify`: whole sessions, between runs and within them.
-/

namespace LoxLang

/-! ## Mentions -/

/-- The mentions in the functions that a machine holds. -/
def Machine.mentions (m : Machine) : List Occurrence :=
  FunctionDecl.allMentions m.functions

/-- The mentions in the code of a task, and in the functions among its values. -/
def Task.mentions : Task → List Occurrence
  | .expr _ e => e.mentions
  | .exprs _ es => Expr.allMentions es
  | .stmt s => s.mentions
  | .stmts body => Stmt.allMentions body
  | .loop condition body => (Stmt.whileDo condition body).mentions
  | .program statements => Stmt.allMentions statements
  | .read o => [o]
  | .write _ target value => target :: FunctionDecl.allMentions value.functions
  | .super keyword _ => [keyword]
  | .call callee _ arguments =>
    FunctionDecl.allMentions ((callee :: arguments).flatMap Value.functions)
  | .apply closure arguments =>
    FunctionDecl.allMentions (closure.decl :: arguments.flatMap Value.functions)
  | .construct c arguments =>
    FunctionDecl.allMentions (c.functions ++ arguments.flatMap Value.functions)
  | .makeClass _ parent methods =>
    FunctionDecl.allMentions ((parent.map Class.functions).getD [] ++ methods)

namespace Copy

variable {w : Copy}

/-- The mention is one in known code. -/
def Contains (w : Copy) (o : Occurrence) : Prop :=
  ∃ c, w.code c ∧ o ∈ c.mentions

theorem contains_of_uses {o : Occurrence} (h : ∃ c, w.code c ∧ o ∈ c.uses) : w.Contains o := by
  obtain ⟨c, hc, ho⟩ := h
  exact ⟨c, hc, Code.mem_mentions.2 (.inl ho)⟩

theorem contains_of_functions {decls : List FunctionDecl}
    (h : ∀ decl ∈ decls, w.code (.function decl)) :
    ∀ o ∈ FunctionDecl.allMentions decls, w.Contains o := by
  intro o ho
  obtain ⟨decl, hdecl, ho⟩ := Code.mem_allMentions_functions.1 ho
  exact ⟨_, h decl hdecl, ho⟩

theorem contains_of_stmts {body : List Stmt} (h : ∀ s ∈ body, w.code (.stmt s)) :
    ∀ o ∈ Stmt.allMentions body, w.Contains o := by
  intro o ho
  obtain ⟨s, hs, ho⟩ := Code.mem_allMentions_stmts.1 ho
  exact ⟨_, h s hs, ho⟩

theorem code_of_values {vs vs' : List Value} (h : List.Forall₂ w.Same vs vs') :
    ∀ decl ∈ vs.flatMap Value.functions, w.code (.function decl) := by
  intro decl hdecl
  obtain ⟨v, hv, hdecl⟩ := List.mem_flatMap.1 hdecl
  obtain ⟨v', -, hsame⟩ := exists_of_forall₂ h hv
  exact code_of_value hsame decl hdecl

end Copy

/-- The mentions in a task are mentions in known code. -/
theorem Task.Copied.mentions {w : Copy} {t : Task} (h : t.Copied w) :
    ∀ o ∈ t.mentions, w.Contains o := by
  cases t with
  | expr x e => exact fun o ho => ⟨_, h, ho⟩
  | exprs x es =>
    intro o ho
    obtain ⟨e, he, ho⟩ := Code.mem_allMentions_exprs.1 ho
    exact ⟨_, h e he, ho⟩
  | stmt s => exact fun o ho => ⟨_, h, ho⟩
  | stmts body => exact Copy.contains_of_stmts h
  | loop condition body => exact fun o ho => ⟨_, h, ho⟩
  | program statements => exact Copy.contains_of_stmts h
  | read o => exact List.forall_mem_singleton.2 (Copy.contains_of_uses h)
  | write x target value =>
    obtain ⟨htarget, -, value', hvalue⟩ := h
    exact List.forall_mem_cons.2 ⟨Copy.contains_of_uses htarget,
      Copy.contains_of_functions (Copy.code_of_value hvalue)⟩
  | super keyword method => exact List.forall_mem_singleton.2 (Copy.contains_of_uses h)
  | call callee line arguments =>
    obtain ⟨⟨callee', hcallee⟩, arguments', harguments⟩ := h
    exact Copy.contains_of_functions (Copy.code_of_values (.cons hcallee harguments))
  | apply closure arguments =>
    obtain ⟨⟨closure', hclosure⟩, arguments', harguments⟩ := h
    exact Copy.contains_of_functions
      (List.forall_mem_cons.2 ⟨hclosure.code, Copy.code_of_values harguments⟩)
  | construct c arguments =>
    obtain ⟨⟨c', hc⟩, arguments', harguments⟩ := h
    exact Copy.contains_of_functions
      (List.forall_mem_append.2 ⟨Copy.code_of_class hc, Copy.code_of_values harguments⟩)
  | makeClass name parent methods =>
    obtain ⟨-, ⟨parent', hparent⟩, hmethods⟩ := h
    refine Copy.contains_of_functions (List.forall_mem_append.2 ⟨?_, hmethods⟩)
    cases hparent with
    | none => exact nofun
    | some hc => exact Copy.code_of_class hc

/-! ## Runs -/

/-- A run of a source in a session. -/
structure Run where
  before : Session
  budget : Nat
  source : String

namespace Run

def after (r : Run) : Session :=
  (r.before.run r.budget r.source).2

def reading (r : Run) : Reading :=
  Reading.ofSource r.source r.before.nextId

/-- The mentions in the statements that were read, even if there were faults between them. -/
def mentions (r : Run) : List Occurrence :=
  Stmt.allMentions r.reading.statements

/-- The source is run, and so much was found out about its mentions. -/
def Resolves (r : Run) (distances : Distances) : Prop :=
  r.reading.errors = [] ∧ resolve r.reading.statements = .ok distances

/-- What the run comes to. -/
def Visits (r : Run) (v : Visit) : Prop :=
  r.before.Visits r.budget r.source v

/-- The mentions have numbers between those of the session before and after the run. -/
theorem numbered (r : Run) : Numbered r.before.nextId r.mentions r.after.nextId := by
  rw [show r.after.nextId = r.reading.nextId from Session.nextId_runReading _ _ _]
  exact Parsed.numbered _ _

variable {r : Run} {distances : Distances}

/-- Nothing was known about the mentions before. -/
theorem fresh (hr : r.before.Reachable) {o : Occurrence} (ho : o ∈ r.mentions) :
    r.before.machine.distances[o.id]? = none :=
  hr.steady.fresh o.id (r.numbered.within o ho).1

/-- Nothing is found out about earlier mentions. -/
theorem Resolves.eq_none (h : r.Resolves distances) {id : Nat} (hid : id < r.before.nextId) :
    distances[id]? = none :=
  distances_of_resolve h.2 fun hm => by
    obtain ⟨o, ho, rfl⟩ := List.mem_map.1 hm
    exact absurd hid (Nat.not_lt_of_le (r.numbered.within o ho).1)

/-- Nothing is found out about what something was known about. -/
theorem Resolves.eq_none_of_known (h : r.Resolves distances) (hr : r.before.Reachable)
    {id distance : Nat} (hid : r.before.machine.distances[id]? = some distance) :
    distances[id]? = none :=
  h.eq_none <| Nat.lt_of_not_le fun hle =>
    nomatch hid.symm.trans (hr.steady.fresh id hle)

/-- The visit that the run of an accepted source consists of. -/
def first (r : Run) (distances : Distances) : Visit :=
  ⟨r.budget, .program r.reading.statements, r.before.machine.learn distances⟩

theorem Resolves.visits (h : r.Resolves distances) : r.Visits (r.first distances) :=
  ⟨distances, h.1, h.2, .refl⟩

theorem Resolves.machine_after (h : r.Resolves distances) :
    r.after.machine = (r.first distances).after := by
  change (r.before.runReading r.budget r.reading).2.machine = _
  rw [Session.runReading_accepted r.before r.budget h.1 h.2, Session.ended_snd]
  rfl

/-- A source with errors is not run. -/
theorem machine_after_of_rejected (h : ¬∃ distances, r.Resolves distances) :
    r.after.machine = r.before.machine := by
  have hrun := Session.runReading_rejected r.before r.budget fun distances herrors hresolve =>
    h ⟨distances, herrors, hresolve⟩
  change (r.before.runReading r.budget r.reading).2.machine = _
  rw [hrun]

/-- What a run comes to holds the code that there was and that of its source, and knows as much as
when it began. -/
theorem Visits.holds {D : Discipline} (hr : r.before.machine.Holds D)
    (hsource : Session.Brings D.code r.source r.before.nextId) (h : r.Resolves distances)
    {v : Visit} (hv : r.Visits v) :
    (v.machine.Holds D ∧ v.machine.distances = (r.before.machine.learn distances).distances) ∧
      (v.after.Holds D ∧ v.after.distances = (r.before.machine.learn distances).distances) ∧
        v.task.Copied (.itself D (r.before.machine.learn distances).distances) := by
  obtain ⟨distances', hresolve, hcopied⟩ := Session.Visits.copied hr hsource hv
  obtain rfl : distances = distances' := Except.ok.inj (h.2.symm.trans hresolve)
  obtain ⟨m', hm⟩ := hcopied.machine
  obtain ⟨n', hn⟩ := hcopied.after rfl
  exact ⟨Machine.Holds.of_alike hm, Machine.Holds.of_alike hn, hcopied.task⟩

theorem Resolves.distances_after (h : r.Resolves distances) (hr : r.before.Reachable) :
    r.after.machine.distances = (r.before.machine.learn distances).distances := by
  have hholds : r.before.machine.Holds .any := hr.holds fun _ _ _ _ _ _ _ => trivial
  obtain ⟨-, ⟨-, hd⟩, -⟩ := Visits.holds hholds (fun _ _ _ _ _ => trivial) h h.visits
  rw [h.machine_after, hd]

/-- What was known before a run is known after it. -/
theorem known_after (hr : r.before.Reachable) {id distance : Nat}
    (hid : r.before.machine.distances[id]? = some distance) :
    r.after.machine.distances[id]? = some distance := by
  by_cases h : ∃ distances, r.Resolves distances
  · obtain ⟨distances, h⟩ := h
    rw [h.distances_after hr, Machine.learn, Std.TreeMap.getElem?_union,
      h.eq_none_of_known hr hid, Option.none_or, hid]
  · rw [machine_after_of_rejected h, hid]

end Run

/-! ## What runs leave behind -/

/-- About each mention in the sources that were run, so much is known as was found out then. -/
def Recalls (known : Distances) (runs : List Run) : Prop :=
  ∀ r ∈ runs, ∀ distances, r.Resolves distances →
    ∀ o ∈ r.mentions, known[o.id]? = distances[o.id]?

/-- The mention is one in a source that was run. -/
def Executed (runs : List Run) (o : Occurrence) : Prop :=
  ∃ r ∈ runs, (∃ distances, r.Resolves distances) ∧ o ∈ r.mentions

/-- A machine holds only code from these runs, and knows what was found out in them. -/
structure Machine.Grounded (m : Machine) (runs : List Run) : Prop where
  known : Recalls m.distances runs
  code : ∀ o ∈ m.mentions, Executed runs o

/-- All mentions in code are such as in the sources that were run. -/
def Discipline.executed (runs : List Run) : Discipline :=
  .ofCode (P := fun c => ∀ o ∈ c.mentions, Executed runs o) fun h c' hpart o ho =>
    h o (Code.mem_mentions.2 (.inr ⟨c', hpart, ho⟩))

theorem Executed.mono {runs runs' : List Run} (hsub : runs ⊆ runs') {o : Occurrence}
    (h : Executed runs o) : Executed runs' o := by
  obtain ⟨r, hr, h⟩ := h
  exact ⟨r, hsub hr, h⟩

theorem Discipline.executed_le {runs runs' : List Run} (hsub : runs ⊆ runs') :
    (executed runs).Le (executed runs') :=
  ⟨fun h o ho => (h o ho).mono hsub, id⟩

theorem executed_of_contains {runs : List Run} {known : Distances} {o : Occurrence}
    (h : (Copy.itself (.executed runs) known).Contains o) : Executed runs o := by
  obtain ⟨c, hc, ho⟩ := h
  exact hc o ho

theorem Machine.Holds.grounded {m : Machine} {runs : List Run} (h : m.Holds (.executed runs))
    (hknown : Recalls m.distances runs) : m.Grounded runs :=
  have hcode : ∀ o ∈ m.mentions, (Copy.itself (.executed runs) m.distances).Contains o :=
    Copy.contains_of_functions h.functions
  ⟨hknown, fun o ho => executed_of_contains (hcode o ho)⟩

namespace Session

/-- The run that an action is, if it is one. -/
def ran (s : Session) : Action → List Run
  | .run budget source => [⟨s, budget, source⟩]
  | .offer _ _ => []
  | .drain => []

/-- The runs among some actions, one after the other. -/
def runs : List Action → Session → List Run
  | [], _ => []
  | a :: rest, s => s.ran a ++ runs rest (s.act a).2

/-- The session after some actions. -/
def after (actions : List Action) (s : Session) : Session :=
  actions.foldl (fun s a => (s.act a).2) s

/-- So a session is after some runs. -/
structure Remembers (s : Session) (runs : List Run) : Prop where
  reachable : s.Reachable
  befores : ∀ r ∈ runs, r.before.Reachable
  numbered : Numbered 0 (runs.flatMap Run.mentions) s.nextId
  known : Recalls s.machine.distances runs
  holds : s.machine.Holds (.executed runs)

namespace Remembers

variable {s : Session} {past : List Run}

theorem start (sink : Sink) (clock : Clock) : (start sink clock).Remembers [] where
  reachable := .start sink clock
  befores := nofun
  numbered := .nil (Nat.zero_le _)
  known := nofun
  holds := .start _ sink clock

/-- What a run finds out is added to what was known, and changes nothing about it. -/
theorem learn (h : s.Remembers past) {r : Run} (hr : r.before = s) {distances : Distances}
    (hresolves : r.Resolves distances) :
    Recalls (s.machine.learn distances).distances (past ++ [r]) := by
  subst hr
  intro r' hr' distances' hresolves' o ho
  simp only [Machine.learn]
  rw [Std.TreeMap.getElem?_union]
  rcases List.mem_append.1 hr' with hr' | hr'
  · have hid : o.id < r.before.nextId :=
      (h.numbered.within o (List.mem_flatMap.2 ⟨r', hr', ho⟩)).2
    rw [hresolves.eq_none hid, Option.none_or]
    exact h.known r' hr' distances' hresolves' o ho
  · obtain rfl := List.mem_singleton.1 hr'
    obtain rfl : distances = distances' := Except.ok.inj (hresolves.2.symm.trans hresolves'.2)
    rw [Run.fresh h.reachable ho, Option.or_none]

theorem holds_append (h : s.Remembers past) (r : Run) :
    s.machine.Holds (.executed (past ++ [r])) :=
  h.holds.mono (Discipline.executed_le (List.subset_append_left _ _))

theorem brings (past : List Run) (r : Run) :
    Brings (Discipline.executed (past ++ [r])).code r.source r.before.nextId :=
  fun distances herrors hresolve _ hs _ ho =>
    ⟨r, by simp, ⟨distances, herrors, hresolve⟩, Code.mem_allMentions_stmts.2 ⟨_, hs, ho⟩⟩

/-- A run within a session. -/
theorem visits (h : s.Remembers past) {r : Run} (hr : r.before = s) {v : Visit}
    (hv : r.Visits v) :
    v.machine.Grounded (past ++ [r]) ∧ v.after.Grounded (past ++ [r]) ∧
      ∀ o ∈ v.task.mentions, Executed (past ++ [r]) o := by
  obtain ⟨distances, herrors, hresolve, -⟩ := id hv
  have hresolves : r.Resolves distances := ⟨herrors, hresolve⟩
  have hknown := h.learn hr hresolves
  subst hr
  obtain ⟨⟨hmachine, hd⟩, ⟨hafter, hd'⟩, htask⟩ :=
    hv.holds (h.holds_append r) (brings past r) hresolves
  refine ⟨hmachine.grounded ?_, hafter.grounded ?_, fun o ho =>
    executed_of_contains (htask.mentions o ho)⟩
  · rwa [hd]
  · rwa [hd']

theorem run (h : s.Remembers past) (budget : Nat) (source : String) :
    (s.run budget source).2.Remembers (past ++ [⟨s, budget, source⟩]) := by
  let r : Run := ⟨s, budget, source⟩
  have hbefores : ∀ r' ∈ past ++ [r], r'.before.Reachable :=
    List.forall_mem_append.2 ⟨h.befores, List.forall_mem_singleton.2 h.reachable⟩
  have hnumbered : Numbered 0 ((past ++ [r]).flatMap Run.mentions) r.after.nextId := by
    simpa using h.numbered.append r.numbered
  have hreachable : r.after.Reachable := h.reachable.act (.run budget source)
  by_cases hresolves : ∃ distances, r.Resolves distances
  · obtain ⟨distances, hresolves⟩ := hresolves
    have hholds := hresolves.visits.holds (h.holds_append r) (brings past r) hresolves
    refine ⟨hreachable, hbefores, hnumbered, ?_, ?_⟩
    · change Recalls r.after.machine.distances _
      rw [hresolves.distances_after h.reachable]
      exact h.learn rfl hresolves
    · change r.after.machine.Holds _
      rw [hresolves.machine_after]
      exact hholds.2.1.1
  · have hmachine := Run.machine_after_of_rejected hresolves
    refine ⟨hreachable, hbefores, hnumbered, ?_, ?_⟩
    · change Recalls r.after.machine.distances _
      rw [hmachine]
      intro r' hr' distances hresolves'
      rcases List.mem_append.1 hr' with hr' | hr'
      · exact h.known r' hr' distances hresolves'
      · obtain rfl := List.mem_singleton.1 hr'
        exact absurd ⟨distances, hresolves'⟩ hresolves
    · change r.after.machine.Holds _
      rw [hmachine]
      exact h.holds_append r

/-- Whatever a host does, only runs add to what is known. -/
theorem act (h : s.Remembers past) (a : Action) : (s.act a).2.Remembers (past ++ s.ran a) := by
  cases a with
  | run budget source => exact h.run budget source
  | offer name host =>
    rw [ran, List.append_nil]
    exact { h with
      reachable := h.reachable.act (.offer name host)
      holds := holds_defineNative h.holds name host }
  | drain =>
    rw [ran, List.append_nil]
    exact { h with
      reachable := h.reachable.act .drain
      holds := holds_drain h.holds }

theorem after (h : s.Remembers past) (actions : List Action) :
    (s.after actions).Remembers (past ++ s.runs actions) := by
  induction actions generalizing s past with
  | nil =>
    rw [runs, List.append_nil]
    exact h
  | cons a rest ih =>
    rw [runs, ← List.append_assoc]
    exact ih (h.act a)

end Remembers

/-- In a session, no two mentions have the same number, and those of each source have numbers
between the ones that the session was at before and after its run, whether or not the source was
accepted. So what a run finds out is about other mentions than what was known. After all runs, and
at every point of a further one, all code comes from sources that were run, and so much is known
about each mention in it as was found out in the run of its own source. -/
theorem numbers_identify (sink : Sink) (clock : Clock) (actions : List Action) :
    let s := start sink clock
    (((s.runs actions).flatMap Run.mentions).map Occurrence.id).Nodup ∧
      (∀ r ∈ s.runs actions,
        (∀ o ∈ r.mentions, r.before.nextId ≤ o.id ∧ o.id < r.after.nextId) ∧
          ∀ id distance : Nat, r.before.machine.distances[id]? = some distance →
            r.after.machine.distances[id]? = some distance ∧
              ∀ distances, r.Resolves distances → distances[id]? = none) ∧
      (s.after actions).machine.Grounded (s.runs actions) ∧
      ∀ r : Run, r.before = s.after actions → ∀ v, r.Visits v →
        v.machine.Grounded (s.runs actions ++ [r]) ∧ v.after.Grounded (s.runs actions ++ [r]) ∧
          ∀ o ∈ v.task.mentions, Executed (s.runs actions ++ [r]) o := by
  intro s
  have h := (Remembers.start sink clock).after actions
  rw [List.nil_append] at h
  refine ⟨h.numbered.nodup, fun r hr => ⟨r.numbered.within, fun id distance hid => ?_⟩,
    h.holds.grounded h.known, fun r hr v hv => h.visits hr hv⟩
  have hbefore := h.befores r hr
  exact ⟨Run.known_after hbefore hid, fun _ hresolves => hresolves.eq_none_of_known hbefore hid⟩

/-- A function of the first source reads `x` one scope out, whatever is run after it; the mentions
of a source that is rejected have numbers too. -/
theorem numbers_identify_start :
    let s := start .unlimited 0
    let actions : List Action :=
      [.run 20 "fun f() \x7b var x; fun g() \x7b return x; \x7d return g; \x7d var h = f();",
        .run 20 "\x7b var y = y; \x7d"]
    ((s.runs actions).flatMap Run.mentions).map (fun o => (o.id, o.name)) =
        [(0, "x"), (1, "g"), (2, "f"), (3, "y")] ∧
      (s.after actions).machine.distances[0]? = some 1 ∧
      ∀ o ∈ (s.after actions).machine.mentions, o.id ≠ 3 := by
  intro s actions
  obtain ⟨-, -, hafter, -⟩ := numbers_identify .unlimited 0 actions
  let r : Run := ⟨s, 20,
    "fun f() \x7b var x; fun g() \x7b return x; \x7d return g; \x7d var h = f();"⟩
  have hresolves : ∃ distances : Distances, r.Resolves distances ∧ distances[0]? = some 1 :=
    ⟨_, ⟨by decide +kernel, resolve_eq_ok.2 ⟨by decide +kernel, rfl⟩⟩, by decide +kernel⟩
  refine ⟨by decide +kernel, ?_, fun o ho => ?_⟩
  · obtain ⟨distances, hresolves, hx⟩ := hresolves
    have ho : ⟨0, ⟨.identifier, "x", 1⟩⟩ ∈ r.mentions := by decide +kernel
    exact (hafter.known r (.head _) distances hresolves _ ho).trans hx
  · obtain ⟨r', hr', ⟨distances, -, hresolve⟩, ho⟩ := hafter.code o ho
    rcases List.mem_cons.1 hr' with rfl | hr'
    · have hids : ∀ o ∈ r.mentions, o.id ≠ 3 := by decide +kernel
      exact hids o ho
    · -- The second source is not run, so that none of its code is there.
      obtain rfl := List.mem_singleton.1 hr'
      exact absurd (resolve_eq_ok.1 hresolve).1 (by decide +kernel)

end Session

end LoxLang
