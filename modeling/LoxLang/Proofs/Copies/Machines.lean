import LoxLang.Proofs.Copies.Code
import LoxLang.Proofs.Splitting.Moved
import LoxLang.Proofs.Values.Bindings
import LoxLang.Proofs.Values.Endings

/-!
# Machines that run copies

Two machines run the same code, but the pieces of it that the second one runs are copies, which
stand elsewhere. They hold the same in all places, but for where their functions stand. Every piece
of code is known to have some property; so this is also said of the functions that a machine holds.

1. `Copy.Simulates.bind`: operations one after another.
2. `Copy.simulates_openScope`, `Copy.simulates_printLine`: operations of the machine.
-/

namespace LoxLang

/-- What is known of every piece of code, and of what the names in it may mean. -/
structure Discipline where
  code : Code → Prop
  parts : ∀ {c}, code c → ∀ c' ∈ c.parts, code c'
  /-- A local variable of the name may have the value. -/
  binds : String → Value → Prop
  named : ∀ {c}, code c → ∀ x ∈ c.names, ∀ v, binds x v
  this : ∀ address c, binds "this" (.object address c)
  super : ∀ c, binds "super" (.classValue c)

namespace Discipline

/-- All code is such, and names may mean anything. -/
def ofCode {P : Code → Prop} (hP : Code.Hereditary P) : Discipline where
  code := P
  parts := hP
  binds _ _ := True
  named _ _ _ _ := trivial
  this _ _ := trivial
  super _ := trivial

/-- Nothing need be known. -/
def any : Discipline :=
  .ofCode (P := fun _ => True) fun _ _ _ => trivial

/-- What keeps to the one keeps to the other. -/
structure Le (D D' : Discipline) : Prop where
  code : ∀ {c}, D.code c → D'.code c
  binds : ∀ {x v}, D.binds x v → D'.binds x v

theorem Le.refl (D : Discipline) : D.Le D :=
  ⟨id, id⟩

end Discipline

/-- Code on one machine, and copies of it on another. Both machines know the same about the mentions
in it. -/
structure Copy extends Discipline where
  /-- How a piece of code may have been moved. -/
  moves : Move → Prop
  known : Distances
  known' : Distances
  agree : ∀ {c}, code c → ∀ o ∈ c.uses, ∀ {d}, moves d → known[o.id]? = known'[(o.move d).id]?

/-- The same failure at the line to which its own is moved, if it has one. -/
def Failure.move (d : Move) : Failure → Failure
  | .runtime e => .runtime { e with line := d.line e.line }
  | .output fault => .output fault

theorem Sink.write_fault {sink : Sink} {bytes : Array UInt8} (fault : SinkFault)
    (h : (sink.write bytes).1 = some fault) : fault = .full := by
  unfold Sink.write at h
  split at h
  · exact nomatch h
  · split at h
    · exact nomatch h
    · exact (Option.some.inj h).symm

namespace Store

variable {α : Type} {store : Store α} {i j : Nat} {x name : String} {u v : α}

/-- What a frame has after a name is bound in one, it has had before, but for that name. -/
theorem get?_of_put (h : Bindings.get? ((store.put i name v).frame j) x = some u) :
    (j = i ∧ x = name ∧ u = v) ∨ Bindings.get? (store.frame j) x = some u := by
  unfold Store.frame Store.put at h
  unfold Store.frame
  rw [Array.getElem?_modify] at h
  split at h
  · next hi =>
    cases hframe : store.frames[j]? with
    | none =>
      rw [hframe] at h
      exact nomatch h
    | some bindings =>
      rw [hframe, Option.map_some, Option.getD_some, Bindings.get?_put] at h
      split at h
      · next hx => exact .inl ⟨hi.symm, hx, (Option.some.inj h).symm⟩
      · exact .inr h
  · exact .inr h

/-- What a frame has after a new one is made, it has had before, or it is the new one. -/
theorem get?_of_push {contents : Bindings α}
    (h : Bindings.get? ((⟨store.frames.push contents⟩ : Store α).frame j) x = some u) :
    Bindings.get? contents x = some u ∨ Bindings.get? (store.frame j) x = some u := by
  unfold Store.frame at h ⊢
  rw [Array.getElem?_push] at h
  split at h
  · exact .inl h
  · exact .inr h

end Store

namespace Copy

/-- Two functions of which the second is a copy, in the same scope. -/
structure SameClosure (w : Copy) (c c' : Closure) : Prop where
  decl : ∃ d, w.moves d ∧ c'.decl = c.decl.move d
  code : w.code (.function c.decl)
  scope : c.scope = c'.scope
  isInitializer : c.isInitializer = c'.isInitializer

theorem SameClosure.name_eq {w : Copy} {c c' : Closure} (h : w.SameClosure c c') :
    c.name = c'.name := by
  obtain ⟨d, -, hdecl⟩ := h.decl
  obtain ⟨⟨name, params, body⟩, scope, isInitializer⟩ := c
  simp [Closure.name, hdecl, FunctionDecl.move]

theorem SameClosure.arity_eq {w : Copy} {c c' : Closure} (h : w.SameClosure c c') :
    c.arity = c'.arity := by
  obtain ⟨d, -, hdecl⟩ := h.decl
  obtain ⟨⟨name, params, body⟩, scope, isInitializer⟩ := c
  simp [Closure.arity, hdecl, FunctionDecl.move]

/-- Functions are alike if the second is a copy, in the same scope. -/
def likeness (w : Copy) : Likeness Scope Scope where
  function := w.SameClosure
  method := w.SameClosure
  function_name := SameClosure.name_eq
  function_arity := SameClosure.arity_eq
  method_name := SameClosure.name_eq
  method_arity := SameClosure.arity_eq

abbrev Same (w : Copy) : Value → Value → Prop :=
  Value.Alike w.likeness

/-- The same names in the same order, bound to values that are the same. -/
abbrev SameBindings (w : Copy) : Bindings Value → Bindings Value → Prop :=
  Bindings.Alike w.Same

/-- Two machines that hold the same in all places. -/
structure Alike (w : Copy) (m m' : Machine) : Prop where
  frames : List.Forall₂ w.SameBindings m.store.frames.toList m'.store.frames.toList
  objects : List.Forall₂ w.SameBindings m.objects.toList m'.objects.toList
  nextId : m.nextId = m'.nextId
  natives : m.natives = m'.natives
  hosts : ∀ native ∈ m.natives, native.Alike native
  clock : m.clock = m'.clock
  scope : m.scope = m'.scope
  depth : m.depth = m'.depth
  sink : m.sink = m'.sink
  bound : ∀ {i x v}, 0 < i → Bindings.get? (m.store.frame i) x = some v → w.binds x v
  known : m.distances = w.known
  known' : m'.distances = w.known'

/-- The same failure, at the line of the copy. Only at the end of a program is output flushed. -/
structure SameFailure (w : Copy) (f f' : Failure) : Prop where
  flushed : f ≠ .output .notFlushed
  moved : ∃ d, w.moves d ∧ f' = f.move d

/-- What is a copy by one is a copy by the other: of later ones, more is known. -/
structure Le (w w' : Copy) : Prop extends w.toDiscipline.Le w'.toDiscipline where
  moves : ∀ {d}, w.moves d → w'.moves d

theorem Le.likeness {w w' : Copy} (h : w.Le w') : w.likeness.Le w'.likeness :=
  have hmono : ∀ {c c'}, w.SameClosure c c' → w'.SameClosure c c' :=
    fun ⟨⟨d, hd, hdecl⟩, hcode, hscope, hi⟩ => ⟨⟨d, h.moves hd, hdecl⟩, h.code hcode, hscope, hi⟩
  ⟨hmono, hmono⟩

variable {w : Copy}

/-! ## Stores -/

namespace Alike

variable {m m' : Machine}

theorem frame (h : w.Alike m m') (i : Nat) : w.SameBindings (m.store.frame i) (m'.store.frame i) :=
  .getD h.frames i

theorem fields (h : w.Alike m m') (i : Nat) :
    w.SameBindings (m.objects[i]?.getD []) (m'.objects[i]?.getD []) :=
  .getD h.objects i

theorem size_frames (h : w.Alike m m') : m.store.frames.size = m'.store.frames.size :=
  h.frames.length_eq

theorem size_objects (h : w.Alike m m') : m.objects.size = m'.objects.size :=
  h.objects.length_eq

theorem owner? (h : w.Alike m m') (chain : List Nat) (name : String) :
    m.store.owner? chain name = m'.store.owner? chain name := by
  unfold Store.owner?
  congr 1
  funext i
  exact (h.frame i).has_eq name

theorem getAt? (h : w.Alike m m') (scope : Scope) (distance : Nat) (name : String) :
    Option.Rel w.Same (m.store.getAt? scope distance name)
      (m'.store.getAt? scope distance name) := by
  unfold Store.getAt?
  cases Scope.ancestor? distance scope with
  | none => exact .none
  | some around => exact (h.frame around.frame).get? name

/-- Both machines bind a name in the same frame. -/
theorem put (h : w.Alike m m') (i : Nat) {name : String} {v v' : Value} (hv : w.Same v v')
    (hb : 0 < i → w.binds name v) :
    w.Alike { m with store := m.store.put i name v }
      { m' with store := m'.store.put i name v' } :=
  { h with
    bound := by
      intro j x u hj hu
      rcases Store.get?_of_put hu with ⟨rfl, rfl, rfl⟩ | hu
      · exact hb hj
      · exact h.bound hj hu
    frames := by
      simp only [Store.put, Array.toList_modify]
      exact h.frames.modify_rel (fun hb => hb.put name hv) i }

/-- Both machines come to know about more mentions, and of more code. -/
theorem know (h : w.Alike m m') {w' : Copy} (hw : w.Le w') :
    w'.Alike { m with distances := w'.known } { m' with distances := w'.known' } :=
  { h with
    frames := h.frames.imp fun _ _ hb => hb.mono fun hv => hv.mono hw.likeness
    objects := h.objects.imp fun _ _ hb => hb.mono fun hv => hv.mono hw.likeness
    bound := fun hi hv => hw.binds (h.bound hi hv)
    known := rfl
    known' := rfl }

end Alike

/-! ## Steps -/

/-- Both steps end in the same way, on machines that hold the same. -/
def Simulates {α β : Type} (w : Copy) (R : α → β → Prop) (step : Eval α) (step' : Eval β) : Prop :=
  ∀ m m', w.Alike m m' →
    Ending.Alike (fun a n b n' => w.Alike n n' ∧ R a b) w.SameFailure w.Alike (step m) (step' m')

section

variable {α β γ δ : Type} {R : α → β → Prop} {d : Move}

theorem Simulates.pure {a : α} {b : β} (h : R a b) : w.Simulates R (Step.pure a) (Step.pure b) :=
  fun _ _ hm => .done ⟨hm, h⟩

theorem Simulates.bind {R' : γ → δ → Prop} {step : Eval α} {step' : Eval β} {next : α → Eval γ}
    {next' : β → Eval δ} (h : w.Simulates R step step')
    (hnext : ∀ a b, R a b → w.Simulates R' (next a) (next' b)) :
    w.Simulates R' (step >>= next) (step' >>= next') :=
  fun m m' hm => (h m m' hm).bind fun ⟨hn, hr⟩ => hnext _ _ hr _ _ hn

theorem simulates_exhausted : w.Simulates R Step.exhausted Step.exhausted :=
  fun _ _ hm => .exhausted hm

theorem simulates_fail (hd : w.moves d) (line : Nat) (fault : RuntimeFault) :
    w.Simulates R (Step.fail line fault) (Step.fail (d.line line) fault) :=
  fun _ _ hm => .failed ⟨nofun, d, hd, rfl⟩ hm

theorem simulates_lift (hd : w.moves d) (line : Nat) {r : Except RuntimeFault α}
    {r' : Except RuntimeFault β} (h : SameResult R r r') :
    w.Simulates R (Step.lift line r) (Step.lift (d.line line) r') := by
  cases r <;> cases r'
  · obtain rfl : _ = _ := h
    exact simulates_fail hd line _
  · exact h.elim
  · exact h.elim
  · exact .pure h

theorem simulates_require (hd : w.moves d) (line : Nat) (fault : RuntimeFault) {o : Option α}
    {o' : Option β} (h : Option.Rel R o o') :
    w.Simulates R (Step.require line fault o) (Step.require (d.line line) fault o') := by
  cases h with
  | none => exact simulates_fail hd line fault
  | some h => exact .pure h

theorem simulates_look {view : Machine → α} {view' : Machine → β}
    (h : ∀ m m', w.Alike m m' → R (view m) (view' m')) :
    w.Simulates R (Step.look view) (Step.look view') :=
  fun m m' hm => .done ⟨hm, h m m' hm⟩

theorem simulates_change {change change' : Machine → Machine}
    (h : ∀ m m', w.Alike m m' → w.Alike (change m) (change' m')) :
    w.Simulates Eq (Step.change change) (Step.change change') :=
  fun m m' hm => .done ⟨h m m' hm, rfl⟩

theorem simulates_within {scope scope' : Scope} (hscope : scope = scope') {step : Eval α}
    {step' : Eval β} (h : w.Simulates R step step') :
    w.Simulates R (Eval.within scope step) (Eval.within scope' step') := by
  intro m m' hm
  have hin : w.Alike { m with scope := scope } { m' with scope := scope' } :=
    { hm with scope := hscope }
  exact (h _ _ hin).mapMachine (fun ⟨hn, hr⟩ => ⟨{ hn with scope := hm.scope }, hr⟩)
    fun hn => { hn with scope := hm.scope }

theorem simulates_counted {step : Eval α} {step' : Eval β} (h : w.Simulates R step step') :
    w.Simulates R (Eval.counted step) (Eval.counted step') := by
  intro m m' hm
  have hin : w.Alike { m with depth := m.depth + 1 } { m' with depth := m'.depth + 1 } :=
    { hm with depth := congrArg Nat.succ hm.depth }
  exact (h _ _ hin).mapMachine
    (fun ⟨hn, hr⟩ => ⟨{ hn with depth := congrArg (· - 1) hn.depth }, hr⟩)
    fun hn => { hn with depth := congrArg (· - 1) hn.depth }

end

/-! ## Operations of the machine -/

theorem simulates_freshId : w.Simulates Eq Eval.freshId Eval.freshId :=
  fun _ _ hm => .done ⟨{ hm with nextId := congrArg Nat.succ hm.nextId }, hm.nextId⟩

theorem simulates_put (i : Nat) {name : String} {v v' : Value} (hv : w.Same v v')
    (hb : w.binds name v) : w.Simulates Eq (Eval.put i name v) (Eval.put i name v') :=
  simulates_change fun _ _ hm => hm.put i hv fun _ => hb

theorem simulates_define {name : String} {v v' : Value} (hv : w.Same v v')
    (hb : w.binds name v) : w.Simulates Eq (Eval.define name v) (Eval.define name v') :=
  simulates_change fun m m' hm => by
    have hput := hm.put m.scope.frame hv fun _ => hb
    rwa [hm.scope] at hput ⊢

theorem simulates_openScope {around around' : Scope} (hscope : around = around')
    {contents contents' : Bindings Value} (hcontents : w.SameBindings contents contents')
    (hb : ∀ {x v}, Bindings.get? contents x = some v → w.binds x v) :
    w.Simulates Eq (Eval.openScope around contents) (Eval.openScope around' contents') := by
  subst hscope
  intro m m' hm
  refine .done ⟨{ hm with frames := ?_, bound := fun hi hv => ?_ }, by simp [hm.size_frames]⟩
  · simp only [Array.toList_push]
    exact List.rel_append hm.frames (.cons hcontents .nil)
  · exact (Store.get?_of_push hv).elim hb (hm.bound hi)

theorem simulates_newObject {c c' : Class} (h : c.Alike w.likeness c') :
    w.Simulates (fun v v' => w.Same v v' ∧ w.binds "this" v) (Eval.newObject c)
      (Eval.newObject c') := by
  intro m m' hm
  refine .done ⟨{ hm with objects := ?_ }, hm.size_objects ▸ .object _ h, w.this _ c⟩
  simp only [Array.toList_push]
  exact List.rel_append hm.objects (.cons .nil .nil)

theorem simulates_field? (address : Nat) (name : String) :
    w.Simulates (Option.Rel w.Same) (Eval.field? address name) (Eval.field? address name) :=
  simulates_look fun _ _ hm => (hm.fields address).get? name

theorem simulates_setField (address : Nat) (name : String) {v v' : Value} (hv : w.Same v v') :
    w.Simulates Eq (Eval.setField address name v) (Eval.setField address name v') :=
  simulates_change fun m m' hm => by
    refine { hm with objects := ?_ }
    simp only [Array.toList_modify]
    exact hm.objects.modify_rel (fun hb => hb.put name hv) address

/-- A failure to write has no line, so that it does not matter which code it arises in. -/
theorem simulates_printLine {d : Move} (hd : w.moves d) (text : String) :
    w.Simulates Eq (Eval.printLine text) (Eval.printLine text) := by
  intro m m' hm
  simp only [Eval.printLine, ← hm.sink]
  have hfull : ∀ fault, (m.sink.write (text ++ "\n").toUTF8.data).1 = some fault → fault = .full :=
    Sink.write_fault
  generalize m.sink.write (text ++ "\n").toUTF8.data = written at hfull ⊢
  obtain ⟨_ | fault, sink⟩ := written
  · exact .done ⟨{ hm with sink := rfl }, trivial⟩
  · obtain rfl := hfull fault rfl
    exact .failed ⟨nofun, d, hd, rfl⟩ { hm with sink := rfl }

theorem simulates_tell : w.Simulates w.Same Eval.tell Eval.tell := by
  intro m m' hm
  refine .done ⟨{ hm with clock := congrArg Clock.later hm.clock }, ?_⟩
  rw [hm.clock]
  exact .number _

end Copy

end LoxLang
