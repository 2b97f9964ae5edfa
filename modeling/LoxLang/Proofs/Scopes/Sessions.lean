import LoxLang.Proofs.Locations.Steps
import LoxLang.Proofs.Scanning.Items
import LoxLang.Proofs.Scopes.Evaluation

/-!
# Scopes at all times

Frames hold functions that keep scopes with these very frames, and objects hold themselves, so a
walk along values may go in circles. A walk outward never does. Whatever a session comes to, and
however its runs end, each scope that evaluation uses, will go back to, or could still come to lies
inside older ones, and in the end in the globals; and what is around it is the same at all times. In
the same way each class inherits from older ones.

1. `Scope.Rooted.nests`: from a rooted scope all walks outward end.
2. `Registry.Covers.reaches`, `Registry.Covers.knows`: a registry lists all that can be come upon at
   an instant.
3. `Session.Reachable.course`, `Session.Course.covers`: what each session has passed through, for
   which one registry is enough.
4. `Session.chains_rooted`: scopes and classes at all times.
-/

namespace LoxLang

/-! ## Walks outward -/

/-- There are so many scopes around a scope, and the outermost of them is the globals. A read and a
write of a name walk from each scope to the one around it until the name is found, so they look at
the globals at the latest. -/
structure Machine.Nests (m : Machine) (s : Scope) (d : Nat) : Prop where
  ancestor : ∀ e, (Scope.ancestor? e s).isSome ↔ e ≤ d
  root : Scope.ancestor? d s = some Machine.globals
  get : ∀ x v, m.store.get? s x = some v ↔
    ∃ e ≤ d, m.store.getAt? s e x = some v ∧ ∀ e' < e, m.store.getAt? s e' x = none
  assign : ∀ x v after, m.store.assign? s x v = some after ↔
    ∃ e ≤ d, (m.store.getAt? s e x).isSome ∧ (∀ e' < e, m.store.getAt? s e' x = none) ∧
      m.store.assignAt? s e x v = some after

theorem Scope.isSome_ancestor?_iff (s : Scope) (e : Nat) :
    (ancestor? e s).isSome ↔ e < s.chain.length := by
  rw [← Option.isSome_map (f := frame), frame_ancestor?]
  simp

/-- The last step outward goes to what is around the scope before it. -/
theorem Scope.ancestor?_succ (d : Nat) (s : Scope) :
    ancestor? (d + 1) s = (ancestor? d s).bind enclosing? := by
  induction d generalizing s with
  | zero => cases h : s.enclosing? <;> simp [ancestor?, h]
  | succ d ih =>
    change s.enclosing?.bind (ancestor? (d + 1)) = (s.enclosing?.bind (ancestor? d)).bind enclosing?
    rw [Option.bind_assoc]
    exact congrArg s.enclosing?.bind (funext ih)

theorem Scope.Rooted.nests {s : Scope} (h : s.Rooted) (m : Machine) :
    ∃ d ≤ s.frame, m.Nests s d := by
  obtain ⟨d, hd⟩ := h.root
  have hlength : s.chain.length = d + 1 := by
    have hdrop : 1 = (s.chain.drop d).length := congrArg List.length (chain_of_ancestor? hd)
    rw [List.length_drop] at hdrop
    omega
  have hancestor (e : Nat) : (ancestor? e s).isSome ↔ e ≤ d := by
    rw [isSome_ancestor?_iff, hlength, Nat.lt_succ_iff]
  have hle {e : Nat} {o : Scope} (ho : ancestor? e s = some o) : e ≤ d :=
    (hancestor e).1 (Option.isSome_iff_exists.2 ⟨o, ho⟩)
  have hframe : d ≤ s.frame := Nat.le_of_succ_le_succ (hlength.symm.trans_le h.length_le)
  refine ⟨d, hframe, hancestor, hd, fun x v => ?_, fun x v after => ?_⟩
  · rw [Store.get?_eq_some_iff_getAt?]
    refine exists_congr fun e => ⟨fun ⟨he, hbefore⟩ => ⟨?_, he, hbefore⟩, And.right⟩
    obtain ⟨o, ho, -⟩ := Option.bind_eq_some_iff.1 he
    exact hle ho
  · rw [Store.assign?_eq_some_iff]
    constructor
    · rintro ⟨o, ⟨e, ho, hx, hbefore⟩, rfl⟩
      exact ⟨e, hle ho, hx, hbefore, by rw [Store.assignAt?, ho]; rfl⟩
    · rintro ⟨e, -, hx, hbefore, hafter⟩
      obtain ⟨o, ho, rfl⟩ := Option.map_eq_some_iff.1 hafter
      exact ⟨o, ⟨e, ho, hx, hbefore⟩, rfl⟩

/-- A mention has its variable in one scope alone. -/
structure Machine.LooksIn (m : Machine) (o : Occurrence) (root : Scope) : Prop where
  read : Eval.lookUp o m = Step.require o.token.line (.undefinedVariable o.name)
    (m.store.getLocal? root o.name) m
  write : ∀ v, Eval.assign o v m =
    if (m.store.getLocal? root o.name).isSome then
      .done () { m with store := m.store.define root o.name v }
    else .failed (.runtime ⟨o.token.line, .undefinedVariable o.name⟩) m

/-- A mention of which nothing is known means a global. -/
theorem Machine.looksIn_globals {m : Machine} {o : Occurrence} (h : m.distances[o.id]? = none) :
    m.LooksIn o Machine.globals :=
  ⟨lookUp_of_global h, assign_of_global h⟩

/-! ## Instants -/

/-- A machine at some time, and the visits that are under way on it. -/
structure Instant where
  machine : Machine
  underway : Visit → Prop

namespace Instant

variable {k : Instant}

/-- Between two actions nothing is under way. -/
def atRest (m : Machine) : Instant :=
  ⟨m, fun _ => False⟩

/-- A variable or a field has the value, or a visit that is under way has been given it. -/
def Holds (k : Instant) (value : Value) : Prop :=
  k.machine.Stores value ∨ ∃ v, k.underway v ∧ value ∈ v.task.values

/-- The scopes from which evaluation goes on, now or at any later time. -/
inductive Uses (k : Instant) : Scope → Prop
  /-- Names are now bound there. -/
  | here : Uses k k.machine.scope
  /-- Evaluation goes back there when a block or a call is over. -/
  | back {v : Visit} : k.underway v → Uses k v.machine.scope
  /-- The function is one whose body is being run. -/
  | body {v : Visit} {f : Closure} : k.underway v → v.task.function? = some f → Uses k f.scope
  /-- A function keeps the scope, or a method of an object or of a class does. -/
  | kept {value : Value} {s : Scope} : k.Holds value → s ∈ value.scopes → Uses k s

/-- A walk outward comes to the scope. -/
def Reaches (k : Instant) (o : Scope) : Prop :=
  ∃ s d, k.Uses s ∧ Scope.ancestor? d s = some o

/-- The classes of the values that are there, and those they inherit from, however far up. -/
inductive Knows (k : Instant) : Class → Prop
  | held {value : Value} {c : Class} : k.Holds value → value.class? = some c → Knows k c
  | inherited {c d : Class} : Knows k c → c.superclass? = some d → Knows k d

theorem Reaches.around {s o : Scope} (h : k.Reaches s) (ho : s.enclosing? = some o) :
    k.Reaches o := by
  obtain ⟨t, d, ht, hs⟩ := h
  refine ⟨t, d + 1, ht, ?_⟩
  rw [Scope.ancestor?_succ, hs]
  exact ho

end Instant

/-- What a visit passes through: the beginnings and the ends of all that it comes to. Under way are
then the visits through which it has come there. -/
inductive Visit.Passes (u : Visit) : Instant → Prop
  | sees {v : Visit} {m : Machine} : Visits u v → v.Sees m →
      Passes u ⟨m, fun t => Visits u t ∧ Visits t v⟩

namespace Registry

variable {w w' : Registry} {k : Instant}

/-- The machine of an instant is recorded by a part of the registry. For each visit under way there
is a part that also lists what the visit began with. -/
structure Covers (w : Registry) (k : Instant) : Prop where
  machine : ∃ w₀ : Registry, w₀.Le w ∧ w₀.Records k.machine
  underway : ∀ v, k.underway v → ∃ w₁ w₀ : Registry, w₁.Ready v ∧ w₁.Le w₀ ∧ w₀.Le w ∧
    w₀.Records k.machine

namespace Covers

theorem mono (h : w.Covers k) (hw : w.Le w') : w'.Covers k where
  machine := by
    obtain ⟨w₀, hle, hm⟩ := h.machine
    exact ⟨w₀, hle.trans hw, hm⟩
  underway v hv := by
    obtain ⟨w₁, w₀, hready, hle, hle', hm⟩ := h.underway v hv
    exact ⟨w₁, w₀, hready, hle, hle'.trans hw, hm⟩

theorem atRest {m : Machine} (hm : w.Records m) : w.Covers (.atRest m) where
  machine := ⟨w, .refl w, hm⟩
  underway _ hv := hv.elim

theorem of_spans {u : Visit} (h : w.Spans w' u) (hk : u.Passes k) : w'.Covers k := by
  obtain ⟨hv, hm⟩ := hk
  constructor
  · obtain ⟨w₁, -, -, hseen⟩ := h _ hv
    obtain ⟨w₀, -, hle, hrecords⟩ := hseen _ .refl _ hm
    exact ⟨w₀, hle, hrecords⟩
  · rintro t ⟨hut, htv⟩
    obtain ⟨w₁, -, hready, hseen⟩ := h t hut
    obtain ⟨w₀, hle, hle', hrecords⟩ := hseen _ htv _ hm
    exact ⟨w₁, w₀, hready, hle, hle', hrecords⟩

theorem holds (h : w.Covers k) {value : Value} (hv : k.Holds value) :
    ∃ w₀ : Registry, w₀.Le w ∧ w₀.Records k.machine ∧ w₀.Good value := by
  rcases hv with hv | ⟨v, hv, hvalue⟩
  · obtain ⟨w₀, hle, hm⟩ := h.machine
    exact ⟨w₀, hle, hm, hm.values hv⟩
  · obtain ⟨w₁, w₀, hready, hle, hle', hm⟩ := h.underway v hv
    exact ⟨w₀, hle', hm, (hready.values value hvalue).mono hle⟩

theorem uses (h : w.Covers k) {s : Scope} (hs : k.Uses s) :
    ∃ w₀ : Registry, w₀.Le w ∧ w₀.Records k.machine ∧ s ∈ w₀.scopes := by
  cases hs with
  | here =>
    obtain ⟨w₀, hle, hm⟩ := h.machine
    exact ⟨w₀, hle, hm, hm.scope⟩
  | back hv =>
    obtain ⟨w₁, w₀, hready, hle, hle', hm⟩ := h.underway _ hv
    exact ⟨w₀, hle', hm, hle.scopes _ hready.machine.scope⟩
  | body hv hf =>
    obtain ⟨w₁, w₀, hready, hle, hle', hm⟩ := h.underway _ hv
    exact ⟨w₀, hle', hm, hle.scopes _ (hready.function _ hf)⟩
  | kept hv hs =>
    obtain ⟨w₀, hle, hm, hgood⟩ := h.holds hv
    exact ⟨w₀, hle, hm, hgood.scopes s hs⟩

theorem reaches (h : w.Covers k) {o : Scope} (ho : k.Reaches o) :
    ∃ w₀ : Registry, w₀.Le w ∧ w₀.Records k.machine ∧ o ∈ w₀.scopes := by
  obtain ⟨s, d, hs, ho⟩ := ho
  obtain ⟨w₀, hle, hm, hs⟩ := h.uses hs
  exact ⟨w₀, hle, hm, hm.formed.ancestor hs ho⟩

theorem knows (h : w.Covers k) (honest : w.Honest) {c : Class} (hc : k.Knows c) :
    ∃ w₀ : Registry, w₀.Le w ∧ w₀.Records k.machine ∧ c ∈ w₀.classes := by
  induction hc with
  | held hv hc =>
    obtain ⟨w₀, hle, hm, hgood⟩ := h.holds hv
    exact ⟨w₀, hle, hm, hgood.classes (hle.honest honest) _ hc⟩
  | inherited _ hd ih =>
    obtain ⟨w₀, hle, hm, hc⟩ := ih
    exact ⟨w₀, hle, hm, (hm.inherits (hle.honest honest) _ hc _ hd).1⟩

end Covers

/-! ## Actions -/

variable {m : Machine}

/-- At the start there are the globals alone. -/
theorem Records.start (sink : Sink) (clock : Clock) :
    Records ⟨[Machine.globals], [], #[⟨0, .clock⟩]⟩ (Machine.start sink clock) := by
  refine
    { formed := ?_
      rooted := List.forall_mem_singleton.2 .globals
      scope := List.mem_singleton_self _
      values := fun hv => ?_
      hosts := fun native hn => ?_
      natives := rfl
      numbered := fun c hc => nomatch hc
      own := fun c hc => nomatch hc
      inherits := fun _ c hc => nomatch hc }
  · exact Forest.Formed.empty.newRoot _
  · rcases hv with ⟨i, x, hv⟩ | ⟨i, x, hv⟩
    · rcases Store.get?_of_push hv with hv | hv
      · rw [Bindings.get?_cons] at hv
        split at hv
        · exact Option.some.inj hv ▸ .native 0
        · exact nomatch hv
      · exact nomatch hv
    · exact nomatch hv
  · obtain rfl : native = ⟨0, .clock⟩ := by simpa [Machine.start] using hn
    exact ⟨rfl, .clock⟩

/-- Whatever is evaluated adds to the registry, which then covers all that it passes through. -/
theorem Leaves.covers {α : Type} {R : Registry → α → Prop} {ending : Outcome α} {u : Visit}
    (h : w.Leaves (· = u) R ending) (hend : ending.machine = u.after) :
    ∃ w', w.Le w' ∧ w'.Records u.after ∧ ∀ k, u.Passes k → w'.Covers k := by
  obtain ⟨w', hw, hm, -, hspans⟩ := h
  rw [hend] at hm
  exact ⟨w', hw, hm, fun k hk => .of_spans (hspans u rfl) hk⟩

/-- A function of the host is one more value in the globals. -/
theorem Records.offer (hm : w.Records m) (name : String) (host : Host) :
    ∃ w', w.Le w' ∧ w'.Records (m.defineNative name host.native) := by
  have hw : w.Le { w with natives := w.natives.push host.native } :=
    { Le.refl w with natives := fun native hn => Array.mem_push.2 (.inl hn) }
  have hput := hm.put (Good.native m.natives.size) 0 name
  refine ⟨_, hw, { hput with
    values := fun hu => (hput.values hu).mono hw
    hosts := fun native hn => ?_
    natives := congrArg (·.push host.native) hm.natives
    inherits := fun honest => hput.inherits (hw.honest honest) }⟩
  rcases Array.mem_push.1 hn with hn | rfl
  · exact hm.hosts native hn
  · exact host.native_alike

end Registry

namespace Session

variable {s : Session} {a : Action} {budget : Nat} {source : String}

/-- What a session passes through in an action: all that a program does which is run, and the end of
the action itself. -/
inductive Passes (s : Session) : Action → Instant → Prop
  | during {budget : Nat} {source : String} {u : Visit} {k : Instant} :
      s.Begins budget source u → u.Passes k → Passes s (.run budget source) k
  | after (a : Action) : Passes s a (.atRest (s.act a).2.machine)

/-- A session, and all that it has passed through.

* `start`: a new session is at rest.
* `act`: an action passes through all that its run comes to, and ends at rest.
* `evaluate`: between two actions the host may have any expression evaluated. That passes through
  the visits of the expression, and ends at rest. -/
inductive Course : Session → (Instant → Prop) → Prop
  | start (sink : Sink) (clock : Clock) :
      Course (start sink clock) (· = .atRest (start sink clock).machine)
  | act (a : Action) {s : Session} {past : Instant → Prop} : Course s past →
      Course (s.act a).2 fun k => past k ∨ s.Passes a k
  | evaluate (budget : Nat) (e : Expr) {s : Session} {past : Instant → Prop} : Course s past →
      Course { s with machine := (s.evaluate budget e).machine } fun k =>
        past k ∨ (⟨budget, .expr none e, s.machine⟩ : Visit).Passes k ∨
          k = .atRest (s.evaluate budget e).machine

/-- Each session that can be reached has a course, which ends with the session as it is. -/
theorem Reachable.course (hs : s.Reachable) :
    ∃ past, s.Course past ∧ past (.atRest s.machine) := by
  induction hs with
  | start sink clock => exact ⟨_, .start sink clock, rfl⟩
  | act a _ ih =>
    obtain ⟨past, h, -⟩ := ih
    exact ⟨_, h.act a, .inr (.after a)⟩

theorem Begins.unique {u u' : Visit} (h : s.Begins budget source u)
    (h' : s.Begins budget source u') : u = u' := by
  obtain ⟨distances, -, hresolve, rfl⟩ := h
  obtain ⟨distances', -, hresolve', rfl⟩ := h'
  cases hresolve.symm.trans hresolve'
  rfl

/-- An accepted source is run on the machine of the session, to which only more is known about the
mentions in it. -/
theorem Begins.covers {w : Registry} (hm : w.Records s.machine) {u : Visit}
    (hu : s.Begins budget source u) :
    ∃ w', w.Le w' ∧ w'.Records u.after ∧ ∀ k, u.Passes k → w'.Covers k := by
  obtain ⟨distances, -, -, rfl⟩ := hu
  have hlearn : w.Records (s.machine.learn distances) := { hm with }
  exact (Registry.leaves_program budget _ hlearn).covers rfl

/-- An action adds to the registry of a session, which then covers all of the action. -/
theorem covers_act {w : Registry} (hm : w.Records s.machine) (a : Action) :
    ∃ w', w.Le w' ∧ w'.Records (s.act a).2.machine ∧ ∀ k, s.Passes a k → w'.Covers k := by
  cases a with
  | run budget source =>
    by_cases hbegins : ∃ u, s.Begins budget source u
    · obtain ⟨u, hu⟩ := hbegins
      obtain ⟨w', hw, hafter, hpasses⟩ := hu.covers hm
      have hend : w'.Records (s.act (.run budget source)).2.machine := hu.machine_run ▸ hafter
      refine ⟨w', hw, hend, fun k hk => ?_⟩
      cases hk with
      | during hu' hk => exact hpasses k (hu'.unique hu ▸ hk)
      | after => exact .atRest hend
    · have hsame : (s.act (.run budget source)).2.machine = s.machine :=
        (machine_run s budget source).resolve_right fun ⟨u, hu, _⟩ => hbegins ⟨u, hu⟩
      have hend : w.Records (s.act (.run budget source)).2.machine := hsame ▸ hm
      refine ⟨w, .refl w, hend, fun k hk => ?_⟩
      cases hk with
      | during hu _ => exact absurd ⟨_, hu⟩ hbegins
      | after => exact .atRest hend
  | offer name host =>
    obtain ⟨w', hw, hend⟩ := hm.offer name host
    refine ⟨w', hw, hend, fun k hk => ?_⟩
    cases hk
    exact .atRest hend
  | drain =>
    have hend : w.Records (s.act .drain).2.machine := { hm with }
    refine ⟨w, .refl w, hend, fun k hk => ?_⟩
    cases hk
    exact .atRest hend

/-- One registry is enough for all that a session has passed through. -/
theorem Course.covers {past : Instant → Prop} (h : s.Course past) :
    ∃ w : Registry, w.Records s.machine ∧ ∀ k, past k → w.Covers k := by
  induction h with
  | start sink clock =>
    have hm := Registry.Records.start sink clock
    refine ⟨_, hm, ?_⟩
    rintro _ rfl
    exact .atRest hm
  | act a _ ih =>
    obtain ⟨w, hm, hpast⟩ := ih
    obtain ⟨w', hw, hend, hpasses⟩ := covers_act hm a
    refine ⟨w', hend, ?_⟩
    rintro k (hk | hk)
    · exact (hpast k hk).mono hw
    · exact hpasses k hk
  | evaluate budget e _ ih =>
    obtain ⟨w, hm, hpast⟩ := ih
    have hruns := (Registry.recording budget).expr none e hm
    obtain ⟨w', hw, hend, hpasses⟩ := hruns.covers rfl
    refine ⟨w', hend, ?_⟩
    rintro k (hk | hk | rfl)
    · exact (hpast k hk).mono hw
    · exact hpasses k hk
    · exact .atRest hend

/-- At all times in the course of a session, each scope that can be come upon has a frame, and lies
inside older scopes and in the end in the globals, where every walk outward ends. Two scopes with
the same frame have the same scopes around them, whenever they are come upon. A mention of which
nothing is known is looked up in the one scope that is around all others. The search for a method
goes from each class to the one it inherits from, and so it ends; and unless the host makes up
classes, these are older ones, and always the same. -/
theorem chains_rooted {past : Instant → Prop} (h : s.Course past) :
    (∀ {k t}, past k → k.Reaches t →
      t.frame < k.machine.store.frames.size ∧
      (∀ {o}, t.enclosing? = some o → k.Reaches o ∧ o.frame < t.frame) ∧
      ∃ d ≤ t.frame, k.machine.Nests t d) ∧
    (∀ {k k' t t'}, past k → past k' → k.Reaches t → k'.Reaches t' → t.frame = t'.frame →
      t = t') ∧
    (∀ {k t o}, past k → k.Reaches t → k.machine.distances[o.id]? = none →
      ∃ d root, Scope.ancestor? d t = some root ∧ root.enclosing? = none ∧
        k.machine.LooksIn o root) ∧
    (∀ {k c}, past k → k.Knows c →
      (∀ {p}, c.superclass? = some p → k.Knows p ∧ p.chain.length < c.chain.length) ∧
      ∀ name, c.method? name =
        (c.body.method? name).or (c.superclass?.bind (Class.method? · name))) ∧
    ((∀ native ∈ s.machine.natives, native.Honest) →
      (∀ {k c}, past k → k.Knows c → c.chain.length ≤ c.body.id + 1 ∧
        ∀ {p}, c.superclass? = some p → p.body.id < c.body.id) ∧
      ∀ {k k' c c'}, past k → past k' → k.Knows c → k'.Knows c' → c.body.id = c'.body.id →
        c = c') := by
  obtain ⟨w, hm, hpast⟩ := h.covers
  refine ⟨fun {k t} hk ht => ?_, fun {k k' t t'} hk hk' ht ht' heq => ?_,
    fun {k t o} hk ht ho => ?_, fun {k c} hk hc => ⟨fun {p} hp => ?_, c.method?_eq⟩,
    fun honest => ?_⟩
  · obtain ⟨w₀, -, hrecords, hmem⟩ := (hpast k hk).reaches ht
    have hrooted := hrecords.rooted t hmem
    exact ⟨hrecords.frame_lt hmem, fun ho => ⟨ht.around ho, hrooted.frame_lt ho⟩,
      hrooted.nests k.machine⟩
  · obtain ⟨w₀, hle, -, hmem⟩ := (hpast k hk).reaches ht
    obtain ⟨w₁, hle', -, hmem'⟩ := (hpast k' hk').reaches ht'
    exact hm.formed.own (hle.scopes t hmem) (hle'.scopes t' hmem') heq
  · obtain ⟨w₀, -, hrecords, hmem⟩ := (hpast k hk).reaches ht
    obtain ⟨d, hd⟩ := (hrecords.rooted t hmem).root
    exact ⟨d, Machine.globals, hd, rfl, Machine.looksIn_globals ho⟩
  · rw [Class.chain_of_superclass? hp]
    exact ⟨hc.inherited hp, Nat.lt_succ_self _⟩
  · have honest : w.Honest := fun native hn => honest native (hm.natives ▸ hn)
    refine ⟨fun {k c} hk hc => ?_, fun {k k' c c'} hk hk' hc hc' heq => ?_⟩
    · obtain ⟨w₀, hle, hrecords, hmem⟩ := (hpast k hk).knows honest hc
      have honest := hle.honest honest
      exact ⟨hrecords.length_le honest hmem, fun hp => (hrecords.inherits honest c hmem _ hp).2⟩
    · obtain ⟨w₀, hle, -, hmem⟩ := (hpast k hk).knows honest hc
      obtain ⟨w₁, hle', -, hmem'⟩ := (hpast k' hk').knows honest hc'
      exact hm.own c (hle.classes c hmem) c' (hle'.classes c' hmem') heq

/-- The body of the method is run inside the scope that binds `this`, which is inside the one that
binds `super`. This one has been there since the class was declared. -/
theorem chains_rooted_inherited :
    let s := start .unlimited 0
    let source := "class A{}class B<A{m(){}}B().m();"
    let past k := k = .atRest s.machine ∨ s.Passes (.run 9 source) k
    (s.act (.run 9 source)).2.Course past ∧
      (∀ native ∈ (s.act (.run 9 source)).2.machine.natives, native.Honest) ∧
      ∃ (k k' : Instant) (o : Occurrence) (a b : Class),
        (past k ∧ k.Reaches ⟨3, [2, 1, 0]⟩ ∧ 3 < k.machine.store.frames.size ∧
          ∃ d ≤ 3, k.machine.Nests ⟨3, [2, 1, 0]⟩ d) ∧
        (k.Reaches ⟨2, [1, 0]⟩ ∧ 2 < 3) ∧
        (past k' ∧ k.Reaches ⟨1, [0]⟩ ∧ ∃ t, k'.Reaches t ∧ t.frame = 1 ∧ t = ⟨1, [0]⟩) ∧
        (k.machine.distances[o.id]? = none ∧ ∃ d root,
          Scope.ancestor? d ⟨3, [2, 1, 0]⟩ = some root ∧ root.enclosing? = none ∧
            k.machine.LooksIn o root) ∧
        (k.Knows b ∧ b.superclass? = some a ∧ k.Knows a ∧ a.chain.length < b.chain.length ∧
          a.body.id < b.body.id) ∧
        ∃ c, k'.Knows c ∧ c.body.id = b.body.id ∧ c = b := by
  intro s source past
  let name : Token := ⟨.identifier, "m", 1⟩
  let o : Occurrence := ⟨1, ⟨.identifier, "B", 1⟩⟩
  let g : FunctionDecl := ⟨name, [], []⟩
  let close : Token := ⟨.mark .rightParen, ")", 1⟩
  let first : Stmt := .classDecl ⟨.identifier, "A", 1⟩ none []
  let second : Stmt := .classDecl ⟨.identifier, "B", 1⟩ (some ⟨0, ⟨.identifier, "A", 1⟩⟩) [g]
  let e : Expr := .call (.var o) close []
  let third : Stmt := .expression (.call (.get e name) close [])
  have hstatements : (Reading.ofSource source 0).statements = [first, second, third] := by
    rw [Reading.ofSource, scan_eq]
    cbv
  let m := s.machine.learn ∅
  let a : Class := ⟨⟨0, "A", []⟩, []⟩
  let b : Class := ⟨⟨1, "B", [⟨g, ⟨1, [0]⟩, false⟩]⟩, [a.body]⟩
  let globals : Bindings Value := [("clock", .native 0), ("A", .classValue a)]
  let m₁ : Machine := { m with store := ⟨#[globals]⟩, nextId := 1 }
  let m₂ : Machine :=
    { m with
      store := ⟨#[globals ++ [("B", .classValue b)], [("super", .classValue a)]]⟩, nextId := 2 }
  let m₃ : Machine :=
    { m₂ with
      store := ⟨m₂.store.frames.push [("this", .object 0 b)]⟩, objects := #[[]], nextId := 3 }
  let n : Machine :=
    { m₃ with store := ⟨m₃.store.frames.push []⟩, scope := ⟨3, [2, 1, 0]⟩, depth := 1 }
  have hfirst : Eval.stmt 9 first m = .done .normal m₁ := rfl
  have hsecond : Eval.stmt 9 second m₁ = .done .normal m₂ := rfl
  have hmethod : Eval.expr 7 (.get e name) m₂ =
    .done (.function 2 ⟨g, ⟨2, [1, 0]⟩, false⟩) m₃ := rfl
  let u : Visit := ⟨9, .program [first, second, third], m⟩
  have hu : s.Begins 9 source u := by
    refine ⟨∅, by decide +kernel, ?_, ?_⟩
    · change resolve (Reading.ofSource source 0).statements = _
      rw [hstatements]
      rfl
    · change _ = (⟨9, .program (Reading.ofSource source 0).statements, m⟩ : Visit)
      rw [hstatements]
  have hdeclared : LoxLang.Visits u ⟨9, .stmt second, m₁⟩ :=
    .head (.programTail hfirst) (.head .programHead .refl)
  have hbody : LoxLang.Visits u ⟨7, .stmts [], n⟩ :=
    .head (.programTail hfirst) (.head (.programTail hsecond) (.head .programHead
      (.head .expression (.head (.call hmethod rfl) (.head (.callFunction rfl (by decide))
        (.head (.apply rfl) .refl))))))
  have hcourse : (s.act (.run 9 source)).2.Course past := .act _ (.start _ _)
  have honest : ∀ native ∈ (s.act (.run 9 source)).2.machine.natives, native.Honest := by
    change ∀ native ∈ (s.run 9 source).2.machine.natives, native.Honest
    rw [(History.start .unlimited 0).natives_run 9 source]
    exact start_honest .unlimited 0
  let k : Instant := ⟨n, fun t => LoxLang.Visits u t ∧ LoxLang.Visits t ⟨7, .stmts [], n⟩⟩
  let k' : Instant :=
    ⟨m₂, fun t => LoxLang.Visits u t ∧ LoxLang.Visits t ⟨9, .stmt second, m₁⟩⟩
  have hk : past k := .inr (.during hu (.sees hbody (.inl rfl)))
  have hk' : past k' := .inr (.during hu (.sees hdeclared (.inr rfl)))
  have hactive : k.Reaches ⟨3, [2, 1, 0]⟩ := ⟨_, 0, .here, rfl⟩
  have hsuper : k.Reaches ⟨1, [0]⟩ := ⟨_, 2, .here, rfl⟩
  have hkept : k'.Reaches ⟨1, [0]⟩ := ⟨_, 0, .kept (.inl (.inl ⟨0, "B", rfl⟩)) (.head _), rfl⟩
  have hb : k.Knows b := .held (.inl (.inl ⟨2, "this", rfl⟩)) rfl
  have hb' : k'.Knows b := .held (.inl (.inl ⟨0, "B", rfl⟩)) rfl
  have ho : k.machine.distances[o.id]? = none := rfl
  obtain ⟨hrooted, hsame, hlooks, hsearch, hclasses⟩ := chains_rooted hcourse
  obtain ⟨hframe, haround, hnests⟩ := hrooted hk hactive
  obtain ⟨holder, hidentity⟩ := hclasses honest
  obtain ⟨hparent, -⟩ := hsearch hk hb
  exact ⟨hcourse, honest, k, k', o, a, b, ⟨hk, hactive, hframe, hnests⟩, haround rfl,
    ⟨hk', hsuper, _, hkept, rfl, hsame hk' hk hkept hsuper rfl⟩, ⟨ho, hlooks hk hactive ho⟩,
    ⟨hb, rfl, (hparent rfl).1, (hparent rfl).2, (holder hk hb).2 rfl⟩,
    _, hb', rfl, hidentity hk' hk hb' hb rfl⟩

end Session

end LoxLang
