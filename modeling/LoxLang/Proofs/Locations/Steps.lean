import LoxLang.Proofs.Locations.World
import LoxLang.Proofs.Values.Endings

/-!
# Steps in step

The operations on which the two evaluations are built, side by side. Where a program is, the frames
that are visible and the locations that are known hold the same variables; each pair of operations
keeps it so, and has results that are alike.

1. `Simulates.bind`: operations one after another.
2. `simulates_lookUp`, `simulates_assign`: variables are found by distance where they are found by
  location.
3. `simulates_define`: what is declared is known from then on.
-/

namespace LoxLang

open Located (Places)

/-- In a world two machines hold the same in all places. -/
structure Corresponds (w : World) (m : Machine) (m' : Located.Machine) : Prop where
  memory : w.Memory m.store m'.cells m'.globals
  objects : m.objects.size = m'.objects.size
  fields : ∀ i : Nat, w.SameBindings (m.objects[i]?.getD []) (m'.objects[i]?.getD [])
  nextId : m.nextId = m'.nextId
  nativeCount : m.natives.size = m'.natives.size
  natives : ∀ i : Nat, Option.Rel Native.Alike m.natives[i]? m'.natives[i]?
  clock : m.clock = m'.clock
  depth : m.depth = m'.depth
  sink : m.sink = m'.sink
  distances : m.distances = w.knowledge.distances

/-- Where a program is: the scope, what is declared around, and which variable is pending. -/
structure Spot where
  scope : Scope
  around : Surroundings
  pending : Option String

/-- The frames of the scope and what is known hold the same variables, and those are the variables
declared around. In the scope's own frame there are no others. What is pending is in this scope,
under a name that is not reserved. -/
inductive Present (w : World) : Spot → Option Places → Prop
  | outside : Present w ⟨Machine.globals, [], none⟩ none
  | inside {scope : Scope} {names : List String} {around : Surroundings} {pending : Option String}
      {places : Places} : w.Holds (names :: around) pending scope places →
      0 < scope.frame ∧ scope.frame < w.frames →
      (∀ {l x}, w.At l scope.frame x → x ∈ names) → (∀ x, pending = some x → IsName x ∧ x ∈ names) →
      Present w ⟨scope, names :: around, pending⟩ (some places)

/-- Two machines correspond, and the program is at a spot in both. -/
structure Related (w : World) (p : Spot) (m : Machine) (m' : Located.Machine) : Prop where
  corresponds : Corresponds w m m'
  scope : m.scope = p.scope
  present : Present w p m'.places

/-- Two machines correspond after a part of a program was broken off in a scope. -/
structure Broken (k : Knowledge) (here : Scope) (m : Machine) (m' : Located.Machine) : Prop where
  corresponds : ∃ w : World, w.knowledge = k ∧ Corresponds w m m'
  scope : m.scope = here
  outside : here.frame = 0 → m'.places = none

namespace Present

variable {w w' : World} {p : Spot} {places : Option Places}

theorem holds (h : Present w p places) : w.Holds p.around p.pending p.scope (places.getD []) := by
  cases h with
  | outside => exact .outside w _
  | inside h _ _ _ => exact h

theorem eq_none (h : Present w p places) (hp : p.scope.frame = 0) : places = none := by
  cases h with
  | outside => rfl
  | inside _ hframe _ _ => exact absurd hp (Nat.ne_of_gt hframe.1)

theorem isName (h : Present w p places) {x : String} (hx : p.pending = some x) : IsName x := by
  cases h with
  | outside => exact nomatch hx
  | inside _ _ _ hpending => exact (hpending x hx).1

theorem locate?_pending (h : Present w p places) {x : String} (hx : p.pending = some x) :
    p.around.locate? x = some 0 := by
  cases h with
  | outside => exact nomatch hx
  | inside _ _ _ hpending => rw [Surroundings.locate?_cons, if_pos (hpending x hx).2]

/-- A spot stays as it is if its frame gets no new variables. -/
theorem mono (h : Present w p places) (hw : w.Le w') (hframes : w.frames ≤ w'.frames)
    (hat : ∀ {l x}, w'.At l p.scope.frame x → p.scope.frame < w.frames → w.At l p.scope.frame x) :
    Present w' p places := by
  cases h with
  | outside => exact .outside
  | inside h hf hnames hpending =>
    exact .inside (h.mono hw) ⟨hf.1, Nat.lt_of_lt_of_le hf.2 hframes⟩
      (fun ha => hnames (hat ha hf.2)) hpending

/-- What happens in new frames leaves the spot as it is. -/
theorem grow {frame : Nat} (h : Present w p places) (hw : w.Grows frame w')
    (hframe : w.frames ≤ frame) : Present w' p places := by
  refine h.mono hw.le hw.frames fun ha hlt => ?_
  rcases hw.fresh ha with ha | he | hle
  · exact ha
  · exact absurd hlt (Nat.not_lt_of_le (he ▸ hframe))
  · exact absurd hlt (Nat.not_lt_of_le hle)

end Present

theorem Corresponds.grow {w w' : World} {m : Machine} {m' : Located.Machine}
    (h : Corresponds w m m') {frame : Nat} (hw : w.Grows frame w') {store : Store Value}
    {cells : Array (Value Places)} {globals : Bindings (Value Places)}
    (hmemory : w'.Memory store cells globals) :
    Corresponds w' { m with store := store } { m' with cells := cells, globals := globals } where
  memory := hmemory
  objects := h.objects
  fields := fun i => (h.fields i).mono hw.le
  nextId := h.nextId
  nativeCount := h.nativeCount
  natives := h.natives
  clock := h.clock
  depth := h.depth
  sink := h.sink
  distances := hw.knowledge ▸ h.distances

theorem Related.broken {w : World} {p : Spot} {m : Machine} {m' : Located.Machine}
    (h : Related w p m m') : Broken w.knowledge p.scope m m' :=
  ⟨⟨w, rfl, h.corresponds⟩, h.scope, h.present.eq_none⟩

/-- Both steps end in the same way at related machines; of their results, and of the world and the
spot at the end, the postcondition holds. -/
def Simulates {α β : Type} (w : World) (p : Spot) (Q : World → Spot → α → β → Prop) (step : Eval α)
    (step' : Located.Eval β) : Prop :=
  ∀ m m', Related w p m m' →
    Ending.Alike
      (fun a n b n' => ∃ w' p', w.Grows p.scope.frame w' ∧ p'.scope = p.scope ∧
        Related w' p' n n' ∧ Q w' p' a b)
      Eq (Broken w.knowledge p.scope) (step m) (step' m')

/-- The postcondition of a step that leaves the spot as it is. -/
def Stays {α β : Type} (p : Spot) (R : World → α → β → Prop) : World → Spot → α → β → Prop :=
  fun w' p' a b => p' = p ∧ R w' a b

/-- The postcondition of a step that leaves the world as it is, too. -/
def Keeps {α β : Type} (w : World) (p : Spot) (R : α → β → Prop) : World → Spot → α → β → Prop :=
  fun w' p' a b => w' = w ∧ p' = p ∧ R a b

section

variable {α β γ δ : Type} {w : World} {p : Spot} {Q : World → Spot → α → β → Prop}
  {R : α → β → Prop}

theorem Simulates.pure {a : α} {b : β} (h : Q w p a b) :
    Simulates w p Q (Step.pure a) (Step.pure b) :=
  fun _ _ hm => .done ⟨w, p, .refl w _, rfl, hm, h⟩

theorem Simulates.bind {Q' : World → Spot → γ → δ → Prop} {step : Eval α} {step' : Located.Eval β}
    {next : α → Eval γ} {next' : β → Located.Eval δ} (h : Simulates w p Q step step')
    (hnext : ∀ w' p' a b, w.Grows p.scope.frame w' → p'.scope = p.scope → Q w' p' a b →
      Simulates w' p' Q' (next a) (next' b)) :
    Simulates w p Q' (step >>= next) (step' >>= next') := by
  intro m m' hm
  refine (h m m' hm).bind ?_
  rintro a n b n' ⟨w', p', hw, hp, hn, hq⟩
  refine (hnext w' p' a b hw hp hq n n' hn).mono ?_ ?_
  · rintro c k d k' ⟨w'', p'', hw', hp', hk, hq'⟩
    exact ⟨w'', p'', hw.trans (hp ▸ hw'), hp'.trans hp, hk, hq'⟩
  · intro k k' hk
    rwa [hw.knowledge, hp] at hk

theorem Simulates.mono {Q' : World → Spot → α → β → Prop} {step : Eval α} {step' : Located.Eval β}
    (h : Simulates w p Q step step') (hq : ∀ {w' p' a b}, Q w' p' a b → Q' w' p' a b) :
    Simulates w p Q' step step' := by
  intro m m' hm
  refine (h m m' hm).mono ?_ id
  rintro a n b n' ⟨w', p', hw, hp, hn, h⟩
  exact ⟨w', p', hw, hp, hn, hq h⟩

/-- Where the first of two steps leads. -/
theorem Simulates.of_done {step : Eval α} {step' : Located.Eval β} {m n : Machine}
    {m' : Located.Machine} {a : α} (h : Simulates w p Q step step') (hm : Related w p m m')
    (hrun : step m = .done a n) :
    ∃ w' p' b n', w.Grows p.scope.frame w' ∧ p'.scope = p.scope ∧ Related w' p' n n' ∧
      Q w' p' a b := by
  have hend := h m m' hm
  rw [hrun] at hend
  obtain ⟨b, n', -, w', p', hw, hp, hn, hq⟩ := hend.of_done
  exact ⟨w', p', b, n', hw, hp, hn, hq⟩

theorem simulates_exhausted : Simulates w p Q Step.exhausted Step.exhausted :=
  fun _ _ hm => .exhausted hm.broken

theorem simulates_fail (line : Nat) (fault : RuntimeFault) :
    Simulates w p Q (Step.fail line fault) (Step.fail line fault) :=
  fun _ _ hm => .failed rfl hm.broken

theorem simulates_lift (line : Nat) {r : Except RuntimeFault α} {r' : Except RuntimeFault β}
    (h : SameResult R r r') :
    Simulates w p (Keeps w p R) (Step.lift line r) (Step.lift line r') := by
  cases r <;> cases r'
  · obtain rfl : _ = _ := h
    exact simulates_fail line _
  · exact h.elim
  · exact h.elim
  · exact .pure ⟨rfl, rfl, h⟩

theorem simulates_require (line : Nat) (fault : RuntimeFault) {o : Option α} {o' : Option β}
    (h : Option.Rel R o o') :
    Simulates w p (Keeps w p R) (Step.require line fault o) (Step.require line fault o') := by
  cases h with
  | none => exact simulates_fail line fault
  | some h => exact .pure ⟨rfl, rfl, h⟩

theorem simulates_look {view : Machine → α} {view' : Located.Machine → β}
    (h : ∀ m m', Related w p m m' → R (view m) (view' m')) :
    Simulates w p (Keeps w p R) (Step.look view) (Step.look view') :=
  fun m m' hm => .done ⟨w, p, .refl w _, rfl, hm, rfl, rfl, h m m' hm⟩

theorem Simulates.of_keeps {step : Eval α} {step' : Located.Eval β}
    (h : ∀ m m', Related w p m m' → ∃ a n b n', step m = .done a n ∧ step' m' = .done b n' ∧
      Related w p n n' ∧ R a b) :
    Simulates w p (Keeps w p R) step step' := by
  intro m m' hm
  obtain ⟨a, n, b, n', ha, hb, hn, hr⟩ := h m m' hm
  rw [ha, hb]
  exact .done ⟨w, p, .refl w _, rfl, hn, rfl, rfl, hr⟩

end

/-! ## Variables -/

variable {w : World} {p : Spot} {o : Occurrence}

namespace Related

variable {m : Machine} {m' : Located.Machine}

/-- A mention with a distance has its variable in the frame that the distance leads to. -/
theorem found (hm : Related w p m m') (h : w.knowledge.Traces p.around o) {d : Nat}
    (hd : m.distances[o.id]? = some d) :
    ∃ l g, Bindings.get? (m'.places.getD []) o.name = some l ∧ m.scope.chain[d]? = some g ∧
      w.At l g o.name ∧ (w.bound l ∨ p.pending = some o.name) := by
  rw [hm.corresponds.distances, h.2] at hd
  rw [hm.scope]
  exact hm.present.holds.found hd

/-- A mention without a distance is not known at its place. -/
theorem missing (hm : Related w p m m') (h : w.knowledge.Traces p.around o)
    (hd : m.distances[o.id]? = none) : Bindings.get? (m'.places.getD []) o.name = none := by
  rw [hm.corresponds.distances, h.2] at hd
  exact hm.present.holds.missing hd

end Related

theorem target_of_distance {m : Machine} {d g : Nat} (hd : m.distances[o.id]? = some d)
    (hg : m.scope.chain[d]? = some g) : Eval.target o m = .done g m := by
  simp only [Eval.target, bind, Step.bind, Step.look, hd, Scope.frame_ancestor?, hg]
  rfl

theorem target_of_global {m : Machine} (hd : m.distances[o.id]? = none) :
    Eval.target o m =
      if Bindings.has (m.store.frame 0) o.name then .done 0 m
      else .failed (.runtime ⟨o.token.line, .undefinedVariable o.name⟩) m := by
  simp only [Eval.target, bind, Step.bind, Step.look, hd, Store.owner?, Machine.globals,
    Scope.chain, List.find?_cons, List.find?_nil]
  cases Bindings.has (m.store.frame 0) o.name <;> rfl

theorem lookUp_of_distance {m : Machine} {d g : Nat} {v : Value}
    (hd : m.distances[o.id]? = some d) (hg : m.scope.chain[d]? = some g)
    (hv : Bindings.get? (m.store.frame g) o.name = some v) : Eval.lookUp o m = .done v m := by
  unfold Eval.lookUp
  rw [Step.bind_of_done (target_of_distance hd hg)]
  change Step.require _ _ (Bindings.get? (m.store.frame g) o.name) m = _
  rw [hv]
  rfl

theorem lookUp_of_global {m : Machine} (hd : m.distances[o.id]? = none) :
    Eval.lookUp o m = Step.require o.token.line (.undefinedVariable o.name)
      (Bindings.get? (m.store.frame 0) o.name) m := by
  cases hv : Bindings.get? (m.store.frame 0) o.name with
  | none =>
    simp [Eval.lookUp, bind, Step.bind, target_of_global hd, Bindings.has, hv, Step.require,
      Step.fail]
  | some v =>
    simp [Eval.lookUp, bind, Step.bind, target_of_global hd, Bindings.has, hv, Step.look,
      Step.require, Step.pure]

/-- The value of a variable that is not pending. -/
theorem simulates_lookUp (h : w.knowledge.Traces p.around o) (hp : p.pending ≠ some o.name) :
    Simulates w p (Stays p World.Same) (Eval.lookUp o) (Located.Eval.lookUp o) := by
  intro m m' hm
  cases hd : m.distances[o.id]? with
  | some d =>
    obtain ⟨l, g, hl, hg, ha, hb⟩ := hm.found h hd
    obtain ⟨v, v', hv, hv', hsame⟩ := hm.corresponds.memory.values ha (hb.resolve_right hp)
    have hlook' : Located.Eval.lookUp o m' = .done v' m' := by
      simp only [Located.Eval.lookUp, Located.Eval.known, bind, Step.bind, Step.look, Step.pure,
        pure, hl, Located.Eval.read, hv', Option.getD_some]
    rw [lookUp_of_distance hd hg hv, hlook']
    exact .done ⟨w, p, .refl w _, rfl, hm, rfl, hsame⟩
  | none =>
    have hlook' : Located.Eval.lookUp o m' = Step.require o.token.line (.undefinedVariable o.name)
        (Bindings.get? m'.globals o.name) m' := by
      simp only [Located.Eval.lookUp, Located.Eval.known, bind, Step.bind, Step.look, Step.pure,
        pure, hm.missing h hd]
    rw [lookUp_of_global hd, hlook']
    refine (simulates_require _ _ (hm.corresponds.memory.globals o.name)).mono ?_ m m' hm
    rintro _ _ _ _ ⟨rfl, rfl, hsame⟩
    exact ⟨rfl, hsame⟩

/-- A write to a local variable is one to its location. -/
theorem Related.write {m : Machine} {m' : Located.Machine} (hm : Related w p m m') {l g : Nat}
    {x : String} (ha : w.At l g x) {v : Value} {v' : Value Places} (hv : (w.bind l).Same v v') :
    Related (w.bind l) p { m with store := m.store.put g x v }
      { m' with cells := m'.cells.setIfInBounds l v' } where
  corresponds := hm.corresponds.grow (w.grows_bind 0 l) (hm.corresponds.memory.write ha hv)
  scope := hm.scope
  present := hm.present.mono (w.grows_bind 0 l).le (Nat.le_refl _) fun ha _ => ha

/-- A global gets a value. -/
theorem Related.define {m : Machine} {m' : Located.Machine} (hm : Related w p m m') (x : String)
    {v : Value} {v' : Value Places} (hv : w.Same v v') :
    Related w p { m with store := m.store.put 0 x v }
      { m' with globals := Bindings.put x v' m'.globals } where
  corresponds := hm.corresponds.grow (.refl w 0) (hm.corresponds.memory.define x hv)
  scope := hm.scope
  present := hm.present

theorem assign_of_distance {m : Machine} {d g : Nat} (hd : m.distances[o.id]? = some d)
    (hg : m.scope.chain[d]? = some g) (v : Value) :
    Eval.assign o v m = .done () { m with store := m.store.put g o.name v } := by
  unfold Eval.assign
  rw [Step.bind_of_done (target_of_distance hd hg)]
  rfl

theorem assign_of_global {m : Machine} (hd : m.distances[o.id]? = none) (v : Value) :
    Eval.assign o v m =
      if Bindings.has (m.store.frame 0) o.name then
        .done () { m with store := m.store.put 0 o.name v }
      else .failed (.runtime ⟨o.token.line, .undefinedVariable o.name⟩) m := by
  simp only [Eval.assign, bind, Step.bind, target_of_global hd]
  cases Bindings.has (m.store.frame 0) o.name <;> rfl

theorem simulates_assign (h : w.knowledge.Traces p.around o) {v : Value} {v' : Value Places}
    (hv : w.Same v v') :
    Simulates w p (Stays p fun _ _ _ => True) (Eval.assign o v) (Located.Eval.assign o v') := by
  intro m m' hm
  cases hd : m.distances[o.id]? with
  | some d =>
    obtain ⟨l, g, hl, hg, ha, -⟩ := hm.found h hd
    have hassign' : Located.Eval.assign o v' m' =
        .done () { m' with cells := m'.cells.setIfInBounds l v' } := by
      simp only [Located.Eval.assign, Located.Eval.known, bind, Step.bind, Step.look, Step.pure,
        pure, hl, Located.Eval.write, Step.change]
    rw [assign_of_distance hd hg, hassign']
    have hw := w.grows_bind p.scope.frame l
    exact .done ⟨w.bind l, p, hw, rfl, hm.write ha (hv.mono hw.le.likeness), rfl, trivial⟩
  | none =>
    have hassign' : Located.Eval.assign o v' m' =
        if Bindings.has m'.globals o.name then
          .done () { m' with globals := Bindings.put o.name v' m'.globals }
        else .failed (.runtime ⟨o.token.line, .undefinedVariable o.name⟩) m' := by
      simp only [Located.Eval.assign, Located.Eval.known, bind, Step.bind, Step.look, Step.pure,
        pure, hm.missing h hd, Located.Eval.define]
      split <;> rfl
    have hhas : Bindings.has m'.globals o.name = Bindings.has (m.store.frame 0) o.name := by
      rcases rel_cases (hm.corresponds.memory.globals o.name) with
        ⟨hx, hx'⟩ | ⟨_, _, hx, hx', -⟩ <;>
        simp [Bindings.has, hx, hx']
    rw [assign_of_global hd, hassign', hhas]
    split
    · exact .done ⟨w, p, .refl w _, rfl, hm.define o.name hv, rfl, trivial⟩
    · exact .failed rfl hm.broken

/-! ## Declarations -/

/-- The spot behind the name of a declaration, whose variable has no value yet. -/
def Spot.declare (p : Spot) (name : String) : Spot :=
  { p with around := p.around.declare name, pending := p.around.pending name }

/-- The spot behind a whole declaration. -/
def Spot.define (p : Spot) : Spot :=
  { p with pending := none }

/-- What has been declared is a global or has this location. -/
inductive Declared (w : World) (p : Spot) (name : String) : Option Nat → Prop
  | outside : p.around = [] → Declared w p name none
  | inside {l : Nat} : p.around ≠ [] → w.At l p.scope.frame name → Declared w p name (some l)

theorem Declared.mono {w' : World} {name : String} {l? : Option Nat} (h : Declared w p name l?)
    (hw : w.Le w') : Declared w' p name l? := by
  cases h with
  | outside hp => exact .outside hp
  | inside hp ha => exact .inside hp (hw.places ha)

/-- A declaration begins: a local variable has a location from here on. -/
theorem Related.declare {m : Machine} {m' : Located.Machine} (hm : Related w p m m')
    (hp : p.pending = none) {x : String} (hname : IsName x) (hfresh : p.around.Fresh x) :
    ∃ w' l? n', Located.Eval.declare x m' = .done l? n' ∧ w.Grows p.scope.frame w' ∧
      Related w' (p.declare x) m n' ∧ Declared w' (p.declare x) x l? := by
  obtain ⟨hc, hscope, hpresent⟩ := hm
  generalize hplaces : m'.places = places at hpresent
  cases hpresent with
  | outside =>
    refine ⟨w, none, m', ?_, .refl w _, ⟨hc, hscope, hplaces ▸ .outside⟩, .outside rfl⟩
    simp [Located.Eval.declare, bind, Step.bind, Step.look, hplaces, pure, Step.pure]
  | @inside scope names around pending places h hframe hnames _ =>
    obtain rfl : pending = none := hp
    have hnew : ∀ l, ¬w.At l scope.frame x := fun l ha => hfresh (hnames ha)
    have hw := w.grows_allocate scope.frame x
    have ha : (w.allocate scope.frame x).At w.places.length scope.frame x :=
      (w.at_allocate _ _).2 (.inr ⟨rfl, rfl, rfl⟩)
    have hmemory := hc.memory.allocate hframe hnew .nil
    refine ⟨w.allocate scope.frame x, some m'.cells.size,
      { m' with cells := m'.cells.push .nil, places := some ((x, m'.cells.size) :: places) },
      ?_, hw, ⟨?_, hscope, ?_⟩, ?_⟩
    · simp [Located.Eval.declare, bind, Step.bind, Step.look, hplaces, pure, Step.pure,
        Located.Eval.allocate, Step.change]
    · exact { hc.grow hw hmemory with }
    · rw [hc.memory.size]
      refine .inside ((h.mono hw.le).declare ha) hframe (fun ha' => ?_) fun y hy => ?_
      · rcases (w.at_allocate _ _).1 ha' with ha' | ⟨-, -, rfl⟩
        · exact List.mem_append_left _ (hnames ha')
        · simp
      · obtain rfl := Option.some.inj hy
        exact ⟨hname, by simp⟩
    · rw [hc.memory.size]
      exact .inside (by simp [Spot.declare, Surroundings.declare]) ha

section

variable {α β : Type} {Q : World → Spot → α → β → Prop}

/-- A declaration that begins on one side only. -/
theorem Simulates.declare (hp : p.pending = none) {x : String} (hname : IsName x)
    (hfresh : p.around.Fresh x) {step : Eval α} {next' : Option Nat → Located.Eval β}
    (h : ∀ w' l?, w.Grows p.scope.frame w' → Declared w' (p.declare x) x l? →
      Simulates w' (p.declare x) Q step (next' l?)) :
    Simulates w p Q step (Located.Eval.declare x >>= next') := by
  intro m m' hm
  obtain ⟨w', l?, n', hdeclare, hw, hn, hl⟩ := hm.declare hp hname hfresh
  rw [Step.bind_of_done hdeclare]
  refine (h w' l? hw hl m n' hn).mono ?_ ?_
  · rintro a k b k' ⟨w'', p'', hw', hp', hk, hq⟩
    exact ⟨w'', p'', hw.trans hw', hp', hk, hq⟩
  · intro k k' hk
    rwa [hw.knowledge] at hk

end

/-- What has been declared is known by the location that was made for it. -/
theorem Related.eq_of_declared {m : Machine} {m' : Located.Machine} {x : String} {l? : Option Nat}
    (hm : Related w (p.declare x) m m') (hl : Declared w (p.declare x) x l?) {l : Nat}
    (hx : Bindings.get? (m'.places.getD []) x = some l) : l? = some l := by
  obtain ⟨scope, around, pending⟩ := p
  have hholds := hm.present.holds
  cases hl with
  | outside hp =>
    cases around with
    | cons _ _ => exact nomatch hp
    | nil => exact nomatch (hholds.missing (x := x) rfl).symm.trans hx
  | inside hp ha =>
    cases around with
    | nil => exact absurd rfl hp
    | cons names around =>
      obtain ⟨k, g, hk, hg, hat, -⟩ := hholds.found (x := x) (d := 0)
        (by simp [Spot.declare, Surroundings.declare, Surroundings.locate?_cons])
      obtain rfl : k = l := Option.some.inj (hk.symm.trans hx)
      obtain rfl : scope.frame = g := Option.some.inj hg
      exact congrArg some (hm.corresponds.memory.nodup ha hat)

theorem pending_eq_of_declare {x y : String} (h : (p.declare x).pending = some y) : y = x := by
  obtain ⟨scope, around, pending⟩ := p
  cases around with
  | nil => exact nomatch h
  | cons _ _ => exact (Option.some.inj h).symm

/-- What has been declared gets its value; of a function that means that it knows itself. -/
theorem simulates_define {x : String} {l? : Option Nat} (hl : Declared w (p.declare x) x l?)
    {v : Value} {v' : Value Places}
    (hv : ∀ w', w.Grows p.scope.frame w' → (∀ l ∈ l?, w'.bound l) → w'.Same v v') :
    Simulates w (p.declare x) (Stays (p.declare x).define fun _ _ _ => True) (Eval.define x v)
      (Located.Eval.define x l? v') := by
  intro m m' hm
  have hknown := fun l => hm.eq_of_declared hl (l := l)
  obtain ⟨scope, around, pending⟩ := p
  cases hl with
  | outside hp =>
    obtain ⟨hc, hscope, hpresent⟩ := hm
    cases around with
    | cons _ _ => exact nomatch hp
    | nil =>
      have hglobals : scope = Machine.globals := by
        generalize m'.places = places at hpresent
        cases hpresent
        rfl
      have hdefine : Eval.define x v m = .done () { m with store := m.store.put 0 x v } := by
        simp [Eval.define, Step.change, Store.define, hscope, Spot.declare, hglobals,
          Machine.globals]
      rw [hdefine]
      exact .done ⟨w, Spot.declare ⟨scope, [], pending⟩ x, .refl w _, rfl,
        Related.define ⟨hc, hscope, hpresent⟩ x (hv w (.refl w _) nofun), rfl, trivial⟩
  | @inside l hp ha =>
    have hdefine :
        Eval.define x v m = .done () { m with store := m.store.put scope.frame x v } := by
      simp [Eval.define, Step.change, Store.define, hm.scope, Spot.declare]
    rw [hdefine]
    have hw := w.grows_bind scope.frame l
    have hv' := hv _ hw fun l' hl' => .inr (Option.some.inj hl').symm
    refine .done ⟨w.bind l, (Spot.declare ⟨scope, around, pending⟩ x).define, hw, rfl, ?_, rfl,
      trivial⟩
    obtain ⟨hc, hscope, hpresent⟩ := hm.write ha hv'
    refine ⟨hc, hscope, ?_⟩
    cases around with
    | nil => exact absurd rfl hp
    | cons names around =>
      change Present (w.bind l) ⟨scope, (names ++ [x]) :: around, some x⟩ m'.places at hpresent
      change Present (w.bind l) ⟨scope, (names ++ [x]) :: around, none⟩ m'.places
      generalize m'.places = places at hpresent hknown ⊢
      cases hpresent with
      | @inside _ _ _ _ places h hframe hnames _ =>
        -- What was pending is bound now, at the location that was made for it.
        refine .inside (h.define fun y l' hy hl' => .inr ?_) hframe hnames nofun
        obtain rfl := Option.some.inj hy
        exact (Option.some.inj (hknown l' hl')).symm

/-- A scope and what is known at a declaration hold the same variables, the declared one included
once it has a value. -/
theorem simulates_known {x : String} {l? : Option Nat} (hl : Declared w (p.declare x) x l?) :
    Simulates w (p.declare x)
      (Keeps w (p.declare x) fun scope places => ∀ w', w.Grows p.scope.frame w' →
        (∀ l ∈ l?, w'.bound l) → w'.Holds (p.around.declare x) none scope places)
      (Step.look Machine.scope) Located.Eval.known :=
  simulates_look fun m m' hm w' hw hb => by
    have hholds := hm.present.holds.mono hw.le
    rw [← hm.scope] at hholds
    refine hholds.define fun y l hy hy' => ?_
    obtain rfl := pending_eq_of_declare hy
    exact hb l (hm.eq_of_declared hl hy')

/-! ## Functions and objects -/

/-- An identity that nothing had before. -/
theorem simulates_freshId : Simulates w p (Keeps w p Eq) Eval.freshId Located.Eval.freshId :=
  .of_keeps fun m m' hm => by
    obtain ⟨hc, hscope, hpresent⟩ := hm
    exact ⟨_, _, _, _, rfl, rfl,
      ⟨{ hc with nextId := congrArg Nat.succ hc.nextId }, hscope, hpresent⟩, hc.nextId⟩

theorem simulates_function (c : Closure) (c' : Closure Places) :
    Simulates w p (Keeps w p fun v v' => ∃ id, v = .function id c ∧ v' = .function id c')
      (Eval.function c) (Located.Eval.function c') := by
  refine simulates_freshId.bind ?_
  rintro w' p' id id' - - ⟨rfl, rfl, rfl⟩
  exact .pure ⟨rfl, rfl, id, rfl, rfl⟩

theorem simulates_newObject {c : Class} {c' : Class Places} (h : c.Alike w.likeness c') :
    Simulates w p (Keeps w p w.Same) (Eval.newObject c) (Located.Eval.newObject c') :=
  .of_keeps fun m m' hm => by
    obtain ⟨hc, hscope, hpresent⟩ := hm
    refine ⟨_, _, _, _, rfl, rfl, ⟨?_, hscope, hpresent⟩, hc.objects ▸ .object _ h⟩
    refine { hc with objects := by simp [hc.objects], fields := fun i => ?_ }
    simp only [Array.getElem?_push, hc.objects]
    split
    · exact fun _ => .none
    · exact hc.fields i

theorem simulates_field? (address : Nat) (x : String) :
    Simulates w p (Keeps w p (Option.Rel w.Same)) (Eval.field? address x)
      (Located.Eval.field? address x) :=
  simulates_look fun _ _ hm => hm.corresponds.fields address x

theorem simulates_setField (address : Nat) (x : String) {v : Value} {v' : Value Places}
    (hv : w.Same v v') :
    Simulates w p (Keeps w p Eq) (Eval.setField address x v)
      (Located.Eval.setField address x v') :=
  .of_keeps fun m m' hm => by
    obtain ⟨hc, hscope, hpresent⟩ := hm
    refine ⟨_, _, _, _, rfl, rfl, ⟨?_, hscope, hpresent⟩, rfl⟩
    refine { hc with objects := by simp [hc.objects], fields := fun i => ?_ }
    have hi := hc.fields i
    simp only [Array.getElem?_modify]
    split
    · next he =>
      subst he
      by_cases hlt : address < m.objects.size
      · have hlt' : address < m'.objects.size := hc.objects ▸ hlt
        simp only [Array.getElem?_eq_getElem hlt, Array.getElem?_eq_getElem hlt', Option.map_some,
          Option.getD_some] at hi ⊢
        exact hi.put x hv
      · have hge : ¬address < m'.objects.size := hc.objects ▸ hlt
        simp only [Array.getElem?_eq_none (Nat.le_of_not_lt hlt),
          Array.getElem?_eq_none (Nat.le_of_not_lt hge), Option.map_none, Option.getD_none]
        exact fun _ => .none
    · exact hi

/-! ## The outside -/

theorem simulates_printLine (text : String) :
    Simulates w p (Keeps w p Eq) (Eval.printLine text) (Located.Eval.printLine text) := by
  intro m m' hm
  obtain ⟨hc, hscope, hpresent⟩ := hm
  simp only [Eval.printLine, Located.Eval.printLine, ← hc.sink]
  rcases m.sink.write (text ++ "\n").toUTF8.data with ⟨_ | fault, sink⟩
  · exact .done ⟨w, p, .refl w _, rfl, ⟨{ hc with sink := rfl }, hscope, hpresent⟩, rfl, rfl, rfl⟩
  · exact .failed rfl (Related.broken ⟨{ hc with sink := rfl }, hscope, hpresent⟩)

theorem simulates_flush : Simulates w p (Keeps w p Eq) Eval.flush Located.Eval.flush := by
  intro m m' hm
  simp only [Eval.flush, Located.Eval.flush, ← hm.corresponds.sink]
  rcases m.sink.flush with _ | fault
  · exact .done ⟨w, p, .refl w _, rfl, hm, rfl, rfl, rfl⟩
  · exact .failed rfl hm.broken

theorem simulates_tell : Simulates w p (Keeps w p w.Same) Eval.tell Located.Eval.tell :=
  .of_keeps fun m m' hm => by
    obtain ⟨hc, hscope, hpresent⟩ := hm
    exact ⟨_, _, _, _, rfl, rfl,
      ⟨{ hc with clock := congrArg Clock.later hc.clock }, hscope, hpresent⟩, hc.clock ▸ .number _⟩

end LoxLang
