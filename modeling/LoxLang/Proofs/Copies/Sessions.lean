import LoxLang.Proofs.Copies.Visits
import LoxLang.Proofs.Lookups.Sessions

/-!
# The code that a session holds

All code that a session holds comes from the sources it has run. So what is known of all these
sources is known of every function there is, and of all that later runs come to.

1. `Session.holds_act`: whatever a host does with a session.
2. `Session.Visits.copied`: the tasks of a run.
3. `Machine.Holds.functions`: the functions that a machine holds.
-/

namespace LoxLang

/-- Code beside itself, where all code keeps to a discipline. -/
def Copy.itself (D : Discipline) (known : Distances) : Copy where
  toDiscipline := D
  moves d := d = .down 0
  known := known
  known' := known
  agree := by
    rintro c - o - d rfl
    rfl

/-- All that a machine holds keeps to a discipline. -/
def Machine.Holds (m : Machine) (D : Discipline) : Prop :=
  ∃ m', (Copy.itself D m.distances).Alike m m'

variable {D D' : Discipline}

/-! ## Functions -/

/-- The functions that a class is made of. -/
def Class.functions (c : Class) : List FunctionDecl :=
  c.chain.flatMap fun body => body.methods.map Closure.decl

/-- The functions that a value is made of. -/
def Value.functions : Value → List FunctionDecl
  | .function _ closure => [closure.decl]
  | .classValue c => c.functions
  | .object _ c => c.functions
  | _ => []

/-- The functions in the scopes and the objects of a machine. -/
def Machine.functions (m : Machine) : List FunctionDecl :=
  (m.store.frames.toList ++ m.objects.toList).flatMap fun bindings =>
    bindings.flatMap fun binding => binding.2.functions

namespace Copy

variable {w : Copy}

/-- In related lists, each element of the first has its like. -/
theorem exists_of_forall₂ {α β : Type} {R : α → β → Prop} {as : List α} {bs : List β}
    (h : List.Forall₂ R as bs) {a : α} (ha : a ∈ as) : ∃ b ∈ bs, R a b := by
  induction h with
  | nil => exact nomatch ha
  | cons hab _ ih =>
    rcases List.mem_cons.1 ha with rfl | ha
    · exact ⟨_, .head _, hab⟩
    · obtain ⟨b, hb, hr⟩ := ih ha
      exact ⟨b, .tail _ hb, hr⟩

theorem code_of_class {c c' : Class} (h : c.Alike w.likeness c') :
    ∀ decl ∈ c.functions, w.code (.function decl) := by
  intro decl hdecl
  obtain ⟨body, hbody, hdecl⟩ := List.mem_flatMap.1 hdecl
  obtain ⟨method, hmethod, rfl⟩ := List.mem_map.1 hdecl
  obtain ⟨body', -, hbody⟩ := exists_of_forall₂ h.chain hbody
  obtain ⟨method', -, hsame⟩ := exists_of_forall₂ hbody.methods hmethod
  exact hsame.code

theorem code_of_value {v v' : Value} (h : w.Same v v') :
    ∀ decl ∈ v.functions, w.code (.function decl) := by
  cases h with
  | function id hf => simpa [Value.functions] using hf.code
  | classValue hc => exact code_of_class hc
  | object address hc => exact code_of_class hc
  | _ => exact nofun

/-- The functions that a machine holds are known code. -/
theorem Alike.functions {m m' : Machine} (h : w.Alike m m') :
    ∀ decl ∈ m.functions, w.code (.function decl) := by
  intro decl hdecl
  obtain ⟨bindings, hbindings, hdecl⟩ := List.mem_flatMap.1 hdecl
  obtain ⟨binding, hbinding, hdecl⟩ := List.mem_flatMap.1 hdecl
  obtain ⟨bindings', -, hsame⟩ :=
    exists_of_forall₂ (List.rel_append h.frames h.objects) hbindings
  obtain ⟨binding', -, -, hvalue⟩ := exists_of_forall₂ hsame hbinding
  exact code_of_value hvalue decl hdecl

/-! ## Machines -/

namespace Alike

variable {m m' : Machine}

/-- Nothing is held yet but the clock. -/
theorem start (hknown : w.known = ∅) (hknown' : w.known' = ∅) (sink : Sink) (clock : Clock) :
    w.Alike (Machine.start sink clock) (Machine.start sink clock) where
  frames := .cons (.cons ⟨rfl, .native 0⟩ .nil) .nil
  objects := .nil
  nextId := rfl
  natives := rfl
  hosts := by
    intro native h
    obtain rfl : native = ⟨0, .clock⟩ := by simpa [Machine.start] using h
    exact ⟨rfl, .clock⟩
  clock := rfl
  scope := rfl
  depth := rfl
  sink := rfl
  bound := by
    intro i x v hi hv
    obtain ⟨i, rfl⟩ := Nat.exists_eq_succ_of_ne_zero (Nat.ne_of_gt hi)
    exact absurd hv.symm (Option.some_ne_none v)
  known := hknown.symm
  known' := hknown'.symm

theorem defineNative (h : w.Alike m m') (name : String) (host : Host) :
    w.Alike (m.defineNative name host.native) (m'.defineNative name host.native) := by
  have hbound : 0 < 0 → w.binds name (.native m.natives.size) := fun hlt =>
    absurd hlt (Nat.lt_irrefl 0)
  have hput := h.put 0 (.native m.natives.size) hbound
  unfold Machine.defineNative
  rw [← h.natives]
  refine { hput with natives := rfl, hosts := fun native hnative => ?_ }
  rcases Array.mem_push.1 hnative with hnative | rfl
  · exact h.hosts native hnative
  · exact host.native_alike

theorem withSink (h : w.Alike m m') (sink : Sink) :
    w.Alike { m with sink := sink } { m' with sink := sink } :=
  { h with sink := rfl }

end Alike

end Copy

namespace Machine.Holds

variable {m : Machine}

theorem start (D : Discipline) (sink : Sink) (clock : Clock) : (Machine.start sink clock).Holds D :=
  ⟨_, Copy.Alike.start rfl rfl sink clock⟩

/-- Less may be known of all code, and more about its mentions. -/
theorem know (h : m.Holds D) (hle : D.Le D') (distances : Distances) :
    Machine.Holds { m with distances := distances } D' := by
  obtain ⟨m', hm⟩ := h
  have hle : (Copy.itself D m.distances).Le (Copy.itself D' distances) :=
    { hle with moves := id }
  exact ⟨_, hm.know hle⟩

theorem learn (h : m.Holds D) (distances : Distances) : (m.learn distances).Holds D :=
  h.know (.refl D) _

theorem mono (h : m.Holds D) (hle : D.Le D') : m.Holds D' :=
  h.know hle m.distances

/-- A machine that comes of known code on a machine that holds such code. -/
theorem of_alike {known : Distances} {m' : Machine} (h : (Copy.itself D known).Alike m m') :
    m.Holds D ∧ m.distances = known := by
  obtain rfl : m.distances = known := h.known
  exact ⟨⟨m', h⟩, rfl⟩

theorem functions (h : m.Holds D) : ∀ decl ∈ m.functions, D.code (.function decl) :=
  h.choose_spec.functions

end Machine.Holds

/-! ## Sessions -/

namespace Session

variable {s : Session} {budget : Nat} {source : String}

/-- If a source is accepted then something is known of its statements. -/
def Brings (P : Code → Prop) (source : String) (first : Nat) : Prop :=
  ∀ distances, (Reading.ofSource source first).errors = [] →
    resolve (Reading.ofSource source first).statements = .ok distances →
      ∀ s ∈ (Reading.ofSource source first).statements, P (.stmt s)

/-- What a run comes to is known code, on machines that hold such code. -/
theorem Visits.copied (hs : s.machine.Holds D) (hsource : Brings D.code source s.nextId) {v : Visit}
    (hv : s.Visits budget source v) :
    ∃ distances, resolve (Reading.ofSource source s.nextId).statements = .ok distances ∧
      v.Copied (.itself D (s.machine.learn distances).distances) := by
  obtain ⟨distances, herrors, hresolve, hv⟩ := hv
  have hu : Visit.Copied (.itself D (s.machine.learn distances).distances)
      ⟨budget, .program (Reading.ofSource source s.nextId).statements,
        s.machine.learn distances⟩ :=
    ⟨hs.learn distances, hsource distances herrors hresolve⟩
  exact ⟨distances, hresolve, hu.visits rfl hv⟩

/-- A run adds its source to the code that the session holds. -/
theorem holds_run (hs : s.machine.Holds D) (hsource : Brings D.code source s.nextId)
    (budget : Nat) : (s.run budget source).2.machine.Holds D := by
  rcases machine_run s budget source with h | ⟨u, hu, h⟩
  · exact h.symm ▸ hs
  · obtain ⟨distances, herrors, hresolve, rfl⟩ := hu
    have hvisits : s.Visits budget source _ := ⟨distances, herrors, hresolve, .refl⟩
    obtain ⟨_, -, hcopied⟩ := hvisits.copied hs hsource
    obtain ⟨m', hm⟩ := hcopied.after rfl
    rw [h]
    exact (Machine.Holds.of_alike hm).1

theorem holds_defineNative (hs : s.machine.Holds D) (name : String) (host : Host) :
    (s.defineNative name host.native).machine.Holds D := by
  obtain ⟨m', hm⟩ := hs
  exact ⟨_, hm.defineNative name host⟩

theorem holds_drain (hs : s.machine.Holds D) : s.drain.2.machine.Holds D := by
  obtain ⟨m', hm⟩ := hs
  exact ⟨_, hm.withSink s.drain.2.machine.sink⟩

/-- Whatever a host does, the code that a session holds comes from the sources it runs. -/
theorem holds_act (hs : s.machine.Holds D) (a : Action)
    (hsource : ∀ budget source, a = .run budget source → Brings D.code source s.nextId) :
    (s.act a).2.machine.Holds D := by
  cases a with
  | run budget source => exact holds_run hs (hsource budget source rfl) budget
  | offer name host => exact holds_defineNative hs name host
  | drain => exact holds_drain hs

/-- What is known of every source that is accepted is known of all code in every session. -/
theorem Reachable.holds (hs : s.Reachable) (hsource : ∀ source first, Brings D.code source first) :
    s.machine.Holds D := by
  induction hs with
  | start sink clock => exact .start D sink clock
  | act a _ ih => exact holds_act ih a fun _ source _ => hsource source _

end Session

end LoxLang
