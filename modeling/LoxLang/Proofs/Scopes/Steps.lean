import LoxLang.Proofs.Scopes.Registries

/-!
# Steps and their registries

Each step of evaluation leaves a machine that a registry records, and this registry lists all that
was listed before. Evaluation comes to many parts of a program before it ends, and goes back from
each to the part that has started it. What is recorded at the end is one registry for all of them:
the registries at all moments in between are parts of it.

1. `Registry.Spans.of_starts`: a visit is recorded from its beginning to its end if what it starts
   is.
2. `Registry.Leaves.bind`, `Registry.Leaves.visit`: steps one after another, and a visit as a whole.
3. `Registry.leaves_bindThis`, `Registry.leaves_makeClass`, `Registry.leaves_native`: operations of
   the machine.
-/

namespace LoxLang

/-- The values that a task has been given. -/
def Task.values : Task → List Value
  | .write _ _ value => [value]
  | .call callee _ arguments => callee :: arguments
  | .apply _ arguments => arguments
  | .construct c arguments => .classValue c :: arguments
  | .makeClass _ parent _ => parent.toList.map .classValue
  | _ => []

/-- The function whose body a task runs. -/
def Task.function? : Task → Option Closure
  | .apply closure _ => some closure
  | _ => none

namespace Registry

variable {w w' w₁ w₂ : Registry}

/-- The registry records the machine at the beginning of a visit, and lists what the task has been
given. -/
structure Ready (w : Registry) (u : Visit) : Prop where
  machine : w.Records u.machine
  values : ∀ v ∈ u.task.values, w.Good v
  function : ∀ f ∈ u.task.function?, f.scope ∈ w.scopes

/-- The course of a visit is recorded between two registries: so is, from its own beginning on, the
course of all that it comes to. -/
def Spans (w w' : Registry) (u : Visit) : Prop :=
  ∀ p, Visits u p → ∃ w₁, w.Le w₁ ∧ w₁.Ready p ∧
    ∀ v, Visits p v → ∀ m, v.Sees m → ∃ w₂, w₁.Le w₂ ∧ w₂.Le w' ∧ w₂.Records m

namespace Spans

variable {u : Visit}

theorem mono (h : w₁.Spans w₂ u) (hw : w.Le w₁) (hw' : w₂.Le w') : w.Spans w' u := by
  intro p hp
  obtain ⟨w₃, hw₃, hready, hseen⟩ := h p hp
  refine ⟨w₃, hw.trans hw₃, hready, fun v hv m hm => ?_⟩
  obtain ⟨w₄, hw₄, hle, hrecords⟩ := hseen v hv m hm
  exact ⟨w₄, hw₄, hle.trans hw', hrecords⟩

theorem of_starts (hu : w.Ready u) (hafter : w'.Records u.after) (hw : w.Le w')
    (h : ∀ v, Starts u v → w.Spans w' v) : w.Spans w' u := by
  have hseen : ∀ v, Visits u v → ∀ m, v.Sees m →
      ∃ w₂, w.Le w₂ ∧ w₂.Le w' ∧ w₂.Records m := by
    intro v hv m hm
    rcases Relation.ReflTransGen.cases_head hv with rfl | ⟨t, ht, hv⟩
    · rcases hm with rfl | rfl
      · exact ⟨w, .refl w, hw, hu.machine⟩
      · exact ⟨w', hw, .refl w', hafter⟩
    · obtain ⟨w₁, hw₁, -, hseen⟩ := h t ht t .refl
      obtain ⟨w₂, hw₂, hle, hrecords⟩ := hseen v hv m hm
      exact ⟨w₂, hw₁.trans hw₂, hle, hrecords⟩
  intro p hp
  rcases Relation.ReflTransGen.cases_head hp with rfl | ⟨t, ht, hp⟩
  · exact ⟨w, .refl w, hu, hseen⟩
  · exact h t ht p hp

end Spans

open Step

variable {m : Machine} {α β : Type}

/-! ## Steps one after another -/

/-- However a step has ended, a registry that lists all that this one does records the machine, and
the course of the visits that the step has started; it lists the value if there is one. -/
def Leaves (w : Registry) (S : Visit → Prop) (R : Registry → α → Prop) (ending : Outcome α) :
    Prop :=
  ∃ w', w.Le w' ∧ w'.Records ending.machine ∧ (∀ a m, ending = .done a m → R w' a) ∧
    ∀ v, S v → w.Spans w' v

/-- A step that starts no visit. -/
def nothing : Visit → Prop :=
  fun _ => False

namespace Leaves

variable {S T : Visit → Prop} {R Q : Registry → α → Prop}

theorem done {a : α} (hm : w.Records m) (h : R w a) : w.Leaves nothing R (.done a m) := by
  refine ⟨w, .refl w, hm, fun b n hb => ?_, fun _ => False.elim⟩
  injection hb with hb
  exact hb ▸ h

theorem pure {a : α} (hm : w.Records m) (h : R w a) :
    w.Leaves nothing R ((Pure.pure a : Eval α) m) :=
  done hm h

theorem failed (hm : w.Records m) (failure : Failure) :
    w.Leaves nothing R (.failed failure m) :=
  ⟨w, .refl w, hm, nofun, fun _ => False.elim⟩

theorem exhausted (hm : w.Records m) : w.Leaves nothing R (.exhausted m) :=
  ⟨w, .refl w, hm, nofun, fun _ => False.elim⟩

theorem fail (hm : w.Records m) (line : Nat) (fault : RuntimeFault) :
    w.Leaves nothing R ((Step.fail line fault : Eval α) m) :=
  failed hm _

theorem lift (hm : w.Records m) (line : Nat) {result : Except RuntimeFault α}
    (h : ∀ a, result = .ok a → R w a) :
    w.Leaves nothing R ((Step.lift line result : Eval α) m) := by
  cases result with
  | ok a => exact pure hm (h a rfl)
  | error fault => exact fail hm line fault

theorem require (hm : w.Records m) (line : Nat) (fault : RuntimeFault) {found : Option α}
    (h : ∀ a, found = some a → R w a) :
    w.Leaves nothing R ((Step.require line fault found : Eval α) m) := by
  cases found with
  | some a => exact pure hm (h a rfl)
  | none => exact fail hm line fault

/-- The visits that are started may be told in other words. -/
theorem starts {ending : Outcome α} (h : w.Leaves S R ending) (hT : ∀ v, T v → S v) :
    w.Leaves T R ending := by
  obtain ⟨w', hw, hm, hR, hS⟩ := h
  exact ⟨w', hw, hm, hR, fun v hv => hS v (hT v hv)⟩

/-- What comes of a later registry comes of this one. -/
theorem before {ending : Outcome α} (hw : w.Le w') (h : w'.Leaves S R ending) :
    w.Leaves S R ending := by
  obtain ⟨w'', hw', hm, hR, hS⟩ := h
  exact ⟨w'', hw.trans hw', hm, hR, fun v hv => (hS v hv).mono hw (.refl w'')⟩

/-- One step after another. The second starts what it does only if the first has a value. -/
theorem bind {first : Eval β} {next : β → Eval α} {Q : Registry → β → Prop}
    {N : β → Machine → Visit → Prop} (h : w.Leaves S Q (first m))
    (hnext : ∀ {b n w'}, first m = .done b n → w.Le w' → w'.Records n → Q w' b →
      w'.Leaves (N b n) R (next b n)) :
    w.Leaves (fun v => S v ∨ ∃ b n, first m = .done b n ∧ N b n v) R ((first >>= next) m) := by
  obtain ⟨w', hw, hm, hQ, hS⟩ := h
  cases hrun : first m with
  | done b n =>
    rw [hrun] at hm
    obtain ⟨w'', hw', hn, hR, hN⟩ := hnext hrun hw hm (hQ b n hrun)
    rw [bind_of_done hrun]
    refine ⟨w'', hw.trans hw', hn, hR, ?_⟩
    rintro v (hv | ⟨b', n', hrun', hv⟩)
    · exact (hS v hv).mono (.refl w) hw'
    · cases hrun'
      exact (hN v hv).mono hw (.refl w'')
  | failed failure n =>
    rw [hrun] at hm
    rw [bind_of_failed hrun]
    refine ⟨w', hw, hm, nofun, ?_⟩
    rintro v (hv | ⟨b', n', hrun', -⟩)
    · exact hS v hv
    · exact nomatch hrun'
  | exhausted n =>
    rw [hrun] at hm
    rw [bind_of_exhausted hrun]
    refine ⟨w', hw, hm, nofun, ?_⟩
    rintro v (hv | ⟨b', n', hrun', -⟩)
    · exact hS v hv
    · exact nomatch hrun'

/-- One step after another, of which the second starts nothing. -/
theorem seq {first : Eval β} {next : β → Eval α} {Q : Registry → β → Prop}
    (h : w.Leaves S Q (first m))
    (hnext : ∀ {b n w'}, first m = .done b n → w.Le w' → w'.Records n → Q w' b →
      w'.Leaves nothing R (next b n)) : w.Leaves S R ((first >>= next) m) :=
  (h.bind hnext).starts fun _ => .inl

/-- To look at the machine changes nothing. -/
theorem look {view : Machine → β} {next : β → Eval α} (h : w.Leaves S R (next (view m) m)) :
    w.Leaves S R ((Step.look view >>= next) m) :=
  h

theorem mapMachine {ending : Outcome α} {change : Machine → Machine} (h : w.Leaves S R ending)
    (hchange : ∀ {w' : Registry} {n : Machine}, w.Le w' → w'.Records n → w'.Records (change n)) :
    w.Leaves S R (ending.mapMachine change) := by
  obtain ⟨w', hw, hm, hR, hS⟩ := h
  cases ending with
  | done a n => exact ⟨w', hw, hchange hw hm, fun b _ hb => hR b n (by cases hb; rfl), hS⟩
  | failed failure n => exact ⟨w', hw, hchange hw hm, nofun, hS⟩
  | exhausted n => exact ⟨w', hw, hchange hw hm, nofun, hS⟩

/-- Evaluation goes back to the scope that it has left. -/
theorem within {scope : Scope} {step : Eval α} (hs : m.scope ∈ w.scopes)
    (h : w.Leaves S R (step { m with scope := scope })) :
    w.Leaves S R (Eval.within scope step m) :=
  mapMachine h fun hw hn => hn.enter (hw.scopes _ hs)

theorem counted {step : Eval α} (h : w.Leaves S R (step { m with depth := m.depth + 1 })) :
    w.Leaves S R (Eval.counted step m) :=
  mapMachine h fun _ hn => { hn with }

/-- A visit as a whole, from what it is made of. -/
theorem visit {u : Visit} {ending : Outcome α} (hu : w.Ready u) (h : w.Leaves S R ending)
    (hend : ending.machine = u.after) (hS : ∀ v, Starts u v → S v) :
    w.Leaves (· = u) R ending := by
  obtain ⟨w', hw, hm, hR, hspans⟩ := h
  refine ⟨w', hw, hm, hR, ?_⟩
  rintro _ rfl
  exact .of_starts hu (hend ▸ hm) hw fun v hv => hspans v (hS v hv)

end Leaves

/-! ## Variables -/

variable {v : Value} {f : Closure} {c : Class}

theorem leaves_target (hm : w.Records m) (o : Occurrence) :
    w.Leaves nothing (fun _ _ => True) (Eval.target o m) :=
  Leaves.require hm _ _ fun _ _ => trivial

theorem leaves_lookUp (hm : w.Records m) (o : Occurrence) :
    w.Leaves nothing Good (Eval.lookUp o m) := by
  refine (leaves_target hm o).seq ?_
  intro address n w' _ _ hn _
  exact Leaves.require hn _ _ fun v hv => hn.values (.inl ⟨address, _, hv⟩)

theorem leaves_put (hm : w.Records m) (hv : w.Good v) (i : Nat) (name : String) :
    w.Leaves nothing (fun _ _ => True) (Eval.put i name v m) :=
  .done (hm.put hv i name) trivial

theorem leaves_define (hm : w.Records m) (hv : w.Good v) (name : String) :
    w.Leaves nothing (fun _ _ => True) (Eval.define name v m) :=
  leaves_put hm hv m.scope.frame name

theorem leaves_assign (hm : w.Records m) (hv : w.Good v) (o : Occurrence) :
    w.Leaves nothing (fun _ _ => True) (Eval.assign o v m) := by
  refine (leaves_target hm o).seq ?_
  intro address n w' _ hw hn _
  exact leaves_put hn (hv.mono hw) address o.name

theorem leaves_assignClass (hm : w.Records m) (hv : w.Good v) (name : Token) :
    w.Leaves nothing (fun _ _ => True) (Eval.assignClass name v m) := by
  have howner : w.Leaves nothing (fun _ _ => True) ((Step.require name.line
      (.unboundClass name.lexeme) (m.store.owner? m.scope.chain name.lexeme) : Eval Nat) m) :=
    Leaves.require hm _ _ fun _ _ => trivial
  refine Leaves.look (howner.seq ?_)
  intro address n w' _ hw hn _
  exact leaves_put hn (hv.mono hw) address name.lexeme

theorem leaves_implicit (hm : w.Records m) (distance : Nat) (name : String) (line : Nat) :
    w.Leaves nothing Good (Eval.implicit distance name line m) := by
  refine Leaves.require hm _ _ fun v hv => ?_
  obtain ⟨around, -, hv⟩ := Option.bind_eq_some_iff.1 hv
  exact hm.values (.inl ⟨around.frame, name, hv⟩)

/-! ## Functions and objects -/

/-- A scope is made inside one that is listed, and is listed from then on. -/
theorem leaves_openScope (hm : w.Records m) {around : Scope} (ha : around ∈ w.scopes)
    {contents : Bindings Value} (hc : ∀ {x v}, Bindings.get? contents x = some v → w.Good v) :
    w.Leaves nothing (fun w' s => s ∈ w'.scopes) (Eval.openScope around contents m) :=
  .before (w.le_addScope _) (.done (hm.openScope ha hc) List.mem_cons_self)

theorem leaves_function (hm : w.Records m) (hf : f.scope ∈ w.scopes) :
    w.Leaves nothing Good (Eval.function f m) :=
  .done { hm with numbered := fun c hc => Nat.lt_succ_of_lt (hm.numbered c hc) } (.function hf)

/-- A method is bound to an object in a scope of its own. -/
theorem leaves_bindThis (hm : w.Records m) (hf : f.scope ∈ w.scopes) (hv : w.Good v) :
    w.Leaves nothing (fun w' g => g.scope ∈ w'.scopes) (Eval.bindThis f v m) := by
  refine (leaves_openScope hm hf fun {x u} hu => ?_).seq ?_
  · rw [Bindings.get?_cons] at hu
    split at hu
    · exact Option.some.inj hu ▸ hv
    · exact nomatch hu
  · intro s n w' _ _ hn hs
    exact .pure hn hs

theorem leaves_method (hm : w.Records m) (hf : f.scope ∈ w.scopes) (hv : w.Good v) :
    w.Leaves nothing Good ((do Eval.function (← Eval.bindThis f v)) m) := by
  refine (leaves_bindThis hm hf hv).seq ?_
  intro g n w' _ _ hn hg
  exact leaves_function hn hg

theorem leaves_property (hm : w.Records m) {address : Nat} (hobject : w.Good (.object address c))
    (name : Token) : w.Leaves nothing Good (Eval.property address c name m) := by
  refine Leaves.seq (Q := fun w' v? => ∀ v ∈ v?, w'.Good v) (.done hm ?_) ?_
  · exact fun v hv => hm.values (.inr ⟨address, _, Option.mem_def.1 hv⟩)
  · intro v? n w' _ hw hn hv
    cases v? with
    | some v => exact .pure hn (hv v rfl)
    | none =>
      have hobject := hobject.mono hw
      refine Leaves.seq (Q := fun w' f => f.scope ∈ w'.scopes)
        (.require hn _ _ fun f hf => hobject.classValue.method hf) ?_
      intro f k w'' _ hw' hk hf
      exact leaves_method hk hf (hobject.mono hw')

theorem leaves_inherited (hm : w.Records m) (line : Nat) (method : Token) {parent this : Value}
    (hparent : w.Good parent) (hthis : w.Good this) :
    w.Leaves nothing Good (Eval.inherited line method parent this m) := by
  unfold Eval.inherited
  split
  · next c address d =>
    refine Leaves.seq (Q := fun w' f => f.scope ∈ w'.scopes)
      (.require hm _ _ fun f hf => hparent.method hf) ?_
    intro f n w' _ hw hn hf
    exact leaves_method hn hf (hthis.mono hw)
  · exact .fail hm line _

theorem leaves_superMethod (hm : w.Records m) (o : Occurrence) (method : Token) :
    w.Leaves nothing Good (Eval.superMethod o method m) := by
  have hdistance : w.Leaves nothing (fun _ _ => True)
      ((Step.require o.token.line .superOutsideClass m.distances[o.id]? : Eval Nat) m) :=
    Leaves.require hm _ _ fun _ _ => trivial
  refine Leaves.look (hdistance.seq ?_)
  intro distance n w' _ _ hn _
  refine (leaves_implicit hn _ _ _).seq ?_
  intro parent k w'' _ _ hk hparent
  refine (leaves_implicit hk _ _ _).seq ?_
  intro this j w₃ _ hw hj hthis
  exact leaves_inherited hj _ _ (hparent.mono hw) hthis

theorem leaves_newObject (hm : w.Records m) (hc : w.Good (.classValue c)) :
    w.Leaves nothing Good (Eval.newObject c m) :=
  .done { hm with values := fun hu => hm.values (Machine.stores_of_newObject hu) }
    (hc.object m.objects.size)

theorem leaves_setField (hm : w.Records m) (hv : w.Good v) (address : Nat) (name : String) :
    w.Leaves nothing (fun _ _ => True) (Eval.setField address name v m) :=
  .done { hm with
    values := fun hu => (Machine.stores_of_setField hu).elim (fun h => h ▸ hv) hm.values } trivial

/-! ## Classes -/

/-- With a superclass, the methods of a class are declared in a scope of their own. -/
theorem leaves_methodScope (hm : w.Records m) {parent : Option Class}
    (hparent : ∀ c ∈ parent, w.Good (.classValue c)) :
    w.Leaves nothing (fun w' s => s ∈ w'.scopes) (Eval.methodScope parent m) := by
  cases parent with
  | none => exact .done hm hm.scope
  | some c =>
    refine leaves_openScope hm hm.scope fun {x u} hu => ?_
    rw [Bindings.get?_cons] at hu
    split at hu
    · exact Option.some.inj hu ▸ hparent c rfl
    · exact nomatch hu

/-- A class is listed with its methods and its superclass. -/
theorem leaves_makeClass (hm : w.Records m) (name : Token) {parent : Option Class}
    (hparent : ∀ c ∈ parent, w.Good (.classValue c)) (methods : List FunctionDecl) :
    w.Leaves nothing (fun _ _ => True) (Eval.makeClass name parent methods m) := by
  refine (leaves_define hm .nil name.lexeme).seq ?_
  intro _ n w₁ _ hw₁ hn _
  have hparent {c : Class} (hc : c ∈ parent) : w₁.Good (.classValue c) := (hparent c hc).mono hw₁
  refine (leaves_methodScope hn fun c => hparent).seq ?_
  intro scope k w₂ _ hw₂ hk hscope
  have hparent {c : Class} (hc : c ∈ parent) : w₂.Good (.classValue c) := (hparent hc).mono hw₂
  rw [bind_of_done (show Eval.freshId k = .done k.nextId _ from rfl)]
  let closures : List Closure := methods.map fun decl => ⟨decl, scope, decl.isInitializer⟩
  let c : Class := ⟨⟨k.nextId, name.lexeme, closures⟩, (parent.map Class.chain).getD []⟩
  have hsuperclass : c.superclass? = parent := Class.superclass?_made _ parent
  have hw := w₂.le_addClass c
  have hgood : (w₂.addClass c).Good (.classValue c) := by
    refine ⟨fun s hs => ?_, fun _ d hd => Option.some.inj hd ▸ List.mem_cons_self⟩
    obtain ⟨body, hbody, f, hf, rfl⟩ := Class.mem_scopes.1 hs
    rcases List.mem_cons.1 hbody with rfl | hbody
    · obtain ⟨decl, -, rfl⟩ := List.mem_map.1 hf
      exact hscope
    · cases parent with
      | none => contradiction
      | some d => exact (hparent rfl).scopes _ (Class.mem_scopes.2 ⟨body, hbody, f, hf, rfl⟩)
  have hk' := hk.makeClass (c := c) rfl fun honest p hp =>
    (hparent (hsuperclass ▸ hp)).classes honest p rfl
  exact .before hw (leaves_assignClass hk' hgood name)

/-! ## The host -/

theorem leaves_printLine (hm : w.Records m) (text : String) :
    w.Leaves nothing (fun _ _ => True) (Eval.printLine text m) := by
  unfold Eval.printLine
  split
  · exact .done { hm with } trivial
  · next fault sink _ =>
    have hm : w.Records { m with sink := sink } := { hm with }
    exact .failed hm _

theorem leaves_flush (hm : w.Records m) : w.Leaves nothing (fun _ _ => True) (Eval.flush m) := by
  unfold Eval.flush
  split
  · exact .done hm trivial
  · exact .failed hm _

/-- What a function of the host gives back keeps no scopes but those that its arguments keep. -/
theorem leaves_native (hm : w.Records m) (index line : Nat) {arguments : List Value}
    (harguments : ∀ v ∈ arguments, w.Good v) :
    w.Leaves nothing Good (Eval.native index line arguments m) := by
  refine Leaves.look ?_
  cases hnative : m.natives[index]? with
  | none => exact .fail hm line _
  | some native =>
    have hmem : native ∈ m.natives := Array.mem_of_getElem? hnative
    have hsame := (hm.hosts native hmem).body
    have hhonest : w.Honest → native.Honest := fun h => h native (hm.natives ▸ hmem)
    unfold Native.Honest at hhonest
    simp only [Option.map_some]
    generalize native.body = body at hsame hhonest
    cases hsame with
    | clock => exact .done { hm with } (Good.number _)
    | @host run _ hrun =>
      refine Leaves.lift hm line fun v hv => ?_
      have halike := hrun (.within (· ∈ w.scopes)) arguments arguments
        (List.forall₂_same.2 fun v hv => Value.alike_within_iff.2 (harguments v hv).scopes)
      cases hresult : run arguments with
      | error message =>
        rw [hresult] at hv
        exact nomatch hv
      | ok v' =>
        rw [hresult] at hv halike
        obtain rfl := Except.ok.inj hv
        refine ⟨Value.alike_within_iff.1 halike, fun honest c hc => ?_⟩
        have hclass : v'.class?.isSome := Option.isSome_iff_exists.2 ⟨c, hc⟩
        have hmem := hhonest honest run rfl arguments v' hresult hclass
        exact (harguments v' hmem).classes honest c hc

end Registry

end LoxLang
