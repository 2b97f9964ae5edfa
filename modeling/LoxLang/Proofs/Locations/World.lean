import LoxLang.Proofs.Locations.Evaluation
import LoxLang.Proofs.Scoping.Soundness
import LoxLang.Proofs.Values.Alike

/-!
# Locations in frames

A location of the evaluation with locations is a name in a frame of the other. A world says which
name in which frame every location is; it grows while a program runs. In a world two machines
correspond if they hold the same in all places.

1. `World.Holds.declare`, `World.Holds.enter`: what frames hold and what a place knows stay in step.
2. `Corresponds.allocate`, `Corresponds.write`: so do what frames hold and what locations hold.
-/

namespace LoxLang

open Located (Places)

/-- Where the locations are in the frames. -/
structure World where
  /-- The frame and the name of each location. -/
  places : List (Nat × String)
  /-- The locations that have got a value. -/
  bound : Nat → Prop
  /-- How many frames there are. -/
  frames : Nat
  knowledge : Knowledge

namespace World

/-- The location is that name in that frame. -/
def At (w : World) (location frame : Nat) (name : String) : Prop :=
  w.places[location]? = some (frame, name)

/-- What one world says of locations and mentions is true in the other. -/
structure Le (w w' : World) : Prop where
  places : ∀ {l g x}, w.At l g x → w'.At l g x
  bound : ∀ {l}, w.bound l → w'.bound l
  knowledge : w'.knowledge.Extends w.knowledge

/-- A world grows while a part of a program runs in a frame: new locations are in that frame or in
new ones. -/
structure Grows (w : World) (frame : Nat) (w' : World) : Prop where
  places : ∀ {l g x}, w.At l g x → w'.At l g x
  bound : ∀ {l}, w.bound l → w'.bound l
  frames : w.frames ≤ w'.frames
  fresh : ∀ {l g x}, w'.At l g x → w.At l g x ∨ g = frame ∨ w.frames ≤ g
  knowledge : w'.knowledge = w.knowledge

variable {w w' w'' : World}

theorem Grows.le {frame : Nat} (h : w.Grows frame w') : w.Le w' :=
  ⟨h.places, h.bound, h.knowledge ▸ .refl _⟩

theorem Grows.refl (w : World) (frame : Nat) : w.Grows frame w :=
  ⟨id, id, Nat.le_refl _, Or.inl, rfl⟩

theorem Grows.trans {frame : Nat} (h : w.Grows frame w') (h' : w'.Grows frame w'') :
    w.Grows frame w'' where
  places := fun ha => h'.places (h.places ha)
  bound := fun hb => h'.bound (h.bound hb)
  frames := Nat.le_trans h.frames h'.frames
  fresh := by
    intro l g x ha
    rcases h'.fresh ha with ha | hg | hg
    · exact h.fresh ha
    · exact .inr (.inl hg)
    · exact .inr (.inr (Nat.le_trans h.frames hg))
  knowledge := h'.knowledge.trans h.knowledge

/-- What happens in a new frame happens in no frame that was there before. -/
theorem Grows.outside {frame new : Nat} (h : w.Grows new w') (hnew : w.frames ≤ new) :
    w.Grows frame w' where
  places := h.places
  bound := h.bound
  frames := h.frames
  fresh := by
    intro l g x ha
    rcases h.fresh ha with ha | rfl | hg
    · exact .inl ha
    · exact .inr (.inr hnew)
    · exact .inr (.inr hg)
  knowledge := h.knowledge

/-! ## Scopes and places -/

/-- A scope and a place hold the variables of the same surroundings; the pending one need not have a
value yet. -/
structure Holds (w : World) (around : Surroundings) (pending : Option String) (scope : Scope)
    (places : Places) : Prop where
  found : ∀ {x d}, around.locate? x = some d →
    ∃ l g, Bindings.get? places x = some l ∧ scope.chain[d]? = some g ∧ w.At l g x ∧
      (w.bound l ∨ pending = some x)
  missing : ∀ {x}, around.locate? x = none → Bindings.get? places x = none

namespace Holds

variable {around : Surroundings} {pending : Option String} {scope : Scope} {places : Places}

theorem mono (h : w.Holds around pending scope places) (hw : w.Le w') :
    w'.Holds around pending scope places where
  found := by
    intro x d hd
    obtain ⟨l, g, hl, hg, ha, hb⟩ := h.found hd
    exact ⟨l, g, hl, hg, hw.places ha, hb.imp_left hw.bound⟩
  missing := h.missing

theorem outside (w : World) (scope : Scope) : w.Holds [] none scope [] where
  found := fun hd => nomatch hd
  missing := fun _ => rfl

/-- Into a scope in which nothing is declared yet. -/
theorem enter (h : w.Holds around none scope places) (frame : Nat) :
    w.Holds ([] :: around) none ⟨frame, scope.chain⟩ places where
  found := by
    intro x d hd
    simp only [Surroundings.locate?_cons, List.not_mem_nil, if_false, Option.map_eq_some_iff] at hd
    obtain ⟨e, he, rfl⟩ := hd
    exact h.found he
  missing := by
    intro x hx
    simp only [Surroundings.locate?_cons, List.not_mem_nil, if_false, Option.map_eq_none_iff] at hx
    exact h.missing hx

/-- Behind a declaration whose variable has no value yet. -/
theorem declare {names : List String} (h : w.Holds (names :: around) none scope places)
    {l : Nat} {x : String} (ha : w.At l scope.frame x) :
    w.Holds ((names ++ [x]) :: around) (some x) scope ((x, l) :: places) where
  found := by
    intro y d hd
    rw [Bindings.get?_cons]
    by_cases hy : y = x
    · subst hy
      obtain rfl : 0 = d := by simpa [Surroundings.locate?_cons] using hd
      exact ⟨l, scope.frame, by simp, rfl, ha, .inr rfl⟩
    · obtain ⟨l', g, hl, hg, ha', hb⟩ := h.found (x := y) (d := d)
        (by simpa [Surroundings.locate?_cons, hy] using hd)
      exact ⟨l', g, by simpa [hy] using hl, hg, ha', .inl (hb.resolve_right nofun)⟩
  missing := by
    intro y hd
    have hy : y ≠ x := fun hy => by simp [Surroundings.locate?_cons, hy] at hd
    rw [Bindings.get?_cons, if_neg hy]
    exact h.missing (by simpa [Surroundings.locate?_cons, hy] using hd)

/-- The pending variable gets its value. -/
theorem define (h : w.Holds around pending scope places)
    (hb : ∀ x l, pending = some x → Bindings.get? places x = some l → w.bound l) :
    w.Holds around none scope places where
  found := by
    intro y d hd
    obtain ⟨l, g, hl, hg, ha, hl'⟩ := h.found hd
    exact ⟨l, g, hl, hg, ha, .inl (hl'.elim id fun hy => hb y l hy hl)⟩
  missing := h.missing

end Holds

/-! ## Values -/

/-- Two functions are the same declaration in scopes of the same surroundings, for which its
mentions are traced; the scope of an initializer binds `this`. -/
structure SameFunction (w : World) (c : Closure) (c' : Closure Places) : Prop where
  decl : c.decl = c'.decl
  isInitializer : c.isInitializer = c'.isInitializer
  traced : ∃ around, w.Holds around none c.scope c'.scope ∧ c.decl.Scoped w.knowledge around ∧
    (c.isInitializer → around.locate? "this" = some 0)

/-- Two methods are the same declaration in scopes of the same surroundings, inside which a scope
with `this` is still missing. -/
structure SameMethod (w : World) (c : Closure) (c' : Closure Places) : Prop where
  decl : c.decl = c'.decl
  isInitializer : c.isInitializer = c'.isInitializer
  traced : ∃ around, w.Holds around none c.scope c'.scope ∧
    c.decl.Scoped w.knowledge (["this"] :: around)

/-- What is alike in a world. -/
def likeness (w : World) : Likeness Scope Places where
  function := w.SameFunction
  method := w.SameMethod
  function_name h := by simp only [Closure.name, h.decl]
  function_arity h := by simp only [Closure.arity, h.decl]
  method_name h := by simp only [Closure.name, h.decl]
  method_arity h := by simp only [Closure.arity, h.decl]

theorem Le.likeness (hw : w.Le w') : w.likeness.Le w'.likeness where
  function := by
    rintro c c' ⟨hdecl, hi, around, hh, hs, hthis⟩
    exact ⟨hdecl, hi, around, hh.mono hw, hs.extend hw.knowledge _, hthis⟩
  method := by
    rintro c c' ⟨hdecl, hi, around, hh, hs⟩
    exact ⟨hdecl, hi, around, hh.mono hw, hs.extend hw.knowledge _⟩

/-- Two values are alike in a world. -/
abbrev Same (w : World) (v : Value) (v' : Value Places) : Prop :=
  v.Alike w.likeness v'

/-- Two bindings have the same names, bound to values that are alike. -/
def SameBindings (w : World) (b : Bindings Value) (b' : Bindings (Value Places)) : Prop :=
  ∀ x, Option.Rel w.Same (Bindings.get? b x) (Bindings.get? b' x)

theorem SameBindings.mono {b : Bindings Value} {b' : Bindings (Value Places)}
    (h : w.SameBindings b b') (hw : w.Le w') : w'.SameBindings b b' := by
  intro x
  have hx := h x
  generalize Bindings.get? b x = o at hx
  generalize Bindings.get? b' x = o' at hx
  cases hx with
  | none => exact .none
  | some hv => exact .some (hv.mono hw.likeness)

theorem SameBindings.put {b : Bindings Value} {b' : Bindings (Value Places)}
    (h : w.SameBindings b b') (x : String) {v : Value} {v' : Value Places} (hv : w.Same v v') :
    w.SameBindings (Bindings.put x v b) (Bindings.put x v' b') := by
  intro y
  rw [Bindings.get?_put, Bindings.get?_put]
  split
  · exact .some hv
  · exact h y

/-! ## Memory -/

/-- A world with one location more. -/
def allocate (w : World) (frame : Nat) (name : String) : World :=
  { w with places := w.places ++ [(frame, name)] }

/-- A world in which a location has got a value. -/
def bind (w : World) (location : Nat) : World :=
  { w with bound := fun l => w.bound l ∨ l = location }

/-- A world with one frame more. -/
def openFrame (w : World) : World :=
  { w with frames := w.frames + 1 }

theorem at_allocate (w : World) (frame : Nat) (name : String) {l g : Nat} {x : String} :
    (w.allocate frame name).At l g x ↔
      w.At l g x ∨ l = w.places.length ∧ g = frame ∧ x = name := by
  simp only [At, allocate]
  by_cases hl : l < w.places.length
  · rw [List.getElem?_append_left hl]
    exact ⟨.inl, fun h => h.resolve_right fun h => absurd h.1 (Nat.ne_of_lt hl)⟩
  · have hle : w.places.length ≤ l := Nat.le_of_not_lt hl
    rw [List.getElem?_append_right hle, List.getElem?_eq_none hle]
    simp only [List.getElem?_singleton, reduceCtorEq, false_or]
    have hz : l - w.places.length = 0 ↔ l = w.places.length := by omega
    simp only [hz]
    by_cases h : l = w.places.length <;> simp [h, eq_comm]

theorem grows_allocate (w : World) (frame : Nat) (name : String) :
    w.Grows frame (w.allocate frame name) where
  places := fun ha => (w.at_allocate frame name).2 (.inl ha)
  bound := id
  frames := Nat.le_refl _
  fresh := fun ha => ((w.at_allocate frame name).1 ha).imp_right fun h => .inl h.2.1
  knowledge := rfl

theorem grows_bind (w : World) (frame location : Nat) : w.Grows frame (w.bind location) :=
  ⟨id, .inl, Nat.le_refl _, .inl, rfl⟩

theorem grows_openFrame (w : World) (frame : Nat) : w.Grows frame w.openFrame :=
  ⟨id, id, Nat.le_succ _, .inl, rfl⟩

/-- Frames, and locations and globals, hold the same. -/
structure Memory (w : World) (store : Store Value) (cells : Array (Value Places))
    (globals : Bindings (Value Places)) : Prop where
  size : cells.size = w.places.length
  frames : store.frames.size = w.frames
  /-- The frame of the globals is there, and no local variable is in it. -/
  root : 0 < w.frames
  inside : ∀ {l g x}, w.At l g x → 0 < g ∧ g < w.frames
  nodup : ∀ {l l' g x}, w.At l g x → w.At l' g x → l = l'
  made : ∀ {l}, w.bound l → l < w.places.length
  values : ∀ {l g x}, w.At l g x → w.bound l →
    ∃ v v', Bindings.get? (store.frame g) x = some v ∧ cells[l]? = some v' ∧ w.Same v v'
  globals : w.SameBindings (store.frame 0) globals

namespace Memory

variable {store : Store Value} {cells : Array (Value Places)} {globals : Bindings (Value Places)}

/-- A location for a name that its frame has no location for yet. -/
theorem allocate (h : w.Memory store cells globals) {frame : Nat} {name : String}
    (hframe : 0 < frame ∧ frame < w.frames) (hfresh : ∀ l, ¬w.At l frame name)
    (v : Value Places) : (w.allocate frame name).Memory store (cells.push v) globals where
  size := by simp [World.allocate, h.size]
  frames := h.frames
  root := h.root
  inside := by
    intro l g x ha
    rcases (w.at_allocate frame name).1 ha with ha | ⟨-, rfl, -⟩
    · exact h.inside ha
    · exact hframe
  nodup := by
    intro l l' g x ha ha'
    rcases (w.at_allocate frame name).1 ha with ha | ⟨hl, rfl, rfl⟩ <;>
      rcases (w.at_allocate _ _).1 ha' with ha' | ⟨hl', hg, hx⟩
    · exact h.nodup ha ha'
    · exact absurd (hg ▸ hx ▸ ha) (hfresh l)
    · exact absurd ha' (hfresh l')
    · exact hl.trans hl'.symm
  made := fun hb => by
    have hl := h.made hb
    simp only [World.allocate, List.length_append]
    omega
  values := by
    intro l g x ha hb
    have hl := h.made hb
    rcases (w.at_allocate frame name).1 ha with ha | ⟨rfl, -, -⟩
    · obtain ⟨u, u', hu, hu', hv⟩ := h.values ha hb
      refine ⟨u, u', hu, ?_, hv.mono (w.grows_allocate frame name).le.likeness⟩
      rw [Array.getElem?_push, if_neg (h.size ▸ Nat.ne_of_lt hl), hu']
    · exact absurd hl (Nat.lt_irrefl _)
  globals := h.globals.mono (w.grows_allocate frame name).le

/-- A variable and its location get values that are alike. -/
theorem write (h : w.Memory store cells globals) {l g : Nat} {x : String} (ha : w.At l g x)
    {v : Value} {v' : Value Places} (hv : (w.bind l).Same v v') :
    (w.bind l).Memory (store.put g x v) (cells.setIfInBounds l v') globals := by
  have hle := (w.grows_bind g l).le
  obtain ⟨hroot, hg⟩ := h.inside ha
  have hl : l < cells.size := h.size ▸ (List.getElem?_eq_some_iff.1 ha).1
  have hframe i y u := store.frame_put g i y u (h.frames ▸ hg)
  refine ⟨by simp [World.bind, h.size], by simp [Store.put, World.bind, h.frames], h.root, h.inside,
    h.nodup, ?_, ?_, ?_⟩
  · rintro l' (hb | rfl)
    · exact h.made hb
    · exact h.size ▸ hl
  · intro l' g' y ha' hb
    rw [hframe]
    by_cases he : l' = l
    · subst he
      obtain ⟨rfl, rfl⟩ : g' = g ∧ y = x := by simpa using ha'.symm.trans ha
      exact ⟨v, v', by simp [Bindings.get?_put], by simp [hl], hv⟩
    · obtain ⟨u, u', hu, hu', hsame⟩ := h.values ha' (hb.resolve_right he)
      refine ⟨u, u', ?_, by rw [Array.getElem?_setIfInBounds_ne (Ne.symm he), hu'],
        hsame.mono hle.likeness⟩
      by_cases hg' : g' = g
      · subst hg'
        have hy : y ≠ x := fun hy => he (h.nodup ha' (hy ▸ ha))
        rw [if_pos rfl, Bindings.get?_put, if_neg hy, hu]
      · rw [if_neg hg', hu]
  · rw [hframe, if_neg (Nat.ne_of_lt hroot)]
    exact h.globals.mono hle

/-- A location gets the value that its frame has already. -/
theorem fill (h : w.Memory store cells globals) {l g : Nat} {x : String} (ha : w.At l g x)
    {v : Value} {v' : Value Places} (hv : w.Same v v')
    (hstore : Bindings.get? (store.frame g) x = some v) (hcell : cells[l]? = some v') :
    (w.bind l).Memory store cells globals := by
  have hle := (w.grows_bind g l).le
  refine ⟨h.size, h.frames, h.root, h.inside, h.nodup, ?_, ?_, h.globals.mono hle⟩
  · rintro l' (hb | rfl)
    · exact h.made hb
    · exact (List.getElem?_eq_some_iff.1 ha).1
  · intro l' g' y ha' hb
    by_cases he : l' = l
    · subst he
      obtain ⟨rfl, rfl⟩ : g' = g ∧ y = x := by simpa using ha'.symm.trans ha
      exact ⟨v, v', hstore, hcell, hv.mono hle.likeness⟩
    · obtain ⟨u, u', hu, hu', hsame⟩ := h.values ha' (hb.resolve_right he)
      exact ⟨u, u', hu, hu', hsame.mono hle.likeness⟩

/-- A new frame, in which no variable has a location. -/
theorem openFrame (h : w.Memory store cells globals) (around : Scope) (contents : Bindings Value) :
    w.openFrame.Memory (store.newInside around contents).2 cells globals := by
  have hle := (w.grows_openFrame 0).le
  have hframe : ∀ g, g < w.frames →
      (store.newInside around contents).2.frame g = store.frame g := by
    intro g hg
    simp only [Store.newInside, Store.frame]
    rw [Array.getElem?_push, if_neg (h.frames ▸ Nat.ne_of_lt hg)]
  refine ⟨h.size, by simp [Store.newInside, World.openFrame, h.frames], Nat.succ_pos _, ?_, h.nodup,
    h.made, ?_, ?_⟩
  · intro l g x ha
    obtain ⟨hroot, hg⟩ := h.inside ha
    exact ⟨hroot, Nat.lt_succ_of_lt hg⟩
  · intro l g x ha hb
    obtain ⟨u, u', hu, hu', hsame⟩ := h.values ha hb
    exact ⟨u, u', by rw [hframe g (h.inside ha).2, hu], hu', hsame.mono hle.likeness⟩
  · rw [hframe 0 h.root]
    exact h.globals.mono hle

/-- A global gets a value. -/
theorem define (h : w.Memory store cells globals) (x : String) {v : Value} {v' : Value Places}
    (hv : w.Same v v') : w.Memory (store.put 0 x v) cells (Bindings.put x v' globals) := by
  have hframe i y u := store.frame_put 0 i y u (h.frames ▸ h.root)
  refine ⟨h.size, by simp [Store.put, h.frames], h.root, h.inside, h.nodup, h.made, ?_, ?_⟩
  · intro l g y ha hb
    obtain ⟨u, u', hu, hu', hsame⟩ := h.values ha hb
    exact ⟨u, u', by rw [hframe, if_neg (Nat.ne_of_gt (h.inside ha).1), hu], hu', hsame⟩
  · rw [hframe, if_pos rfl]
    exact h.globals.put x hv

end Memory

end World

end LoxLang
