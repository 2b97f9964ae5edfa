import LoxLang.Proofs.Frames.Initializers
import LoxLang.Proofs.Scopes.Forests

/-!
# What a machine has made

The scopes of a machine are a tree: each of them but the globals is made inside another one. Its
classes are a forest, each made of its superclass. The machine itself lists neither, as it comes
upon a scope or a class only where a value keeps it; a registry lists them beside the machine. In a
registry a scope is found by its frame and a class by its identity, whenever and wherever it is come
upon, so what lies around a scope and what a class inherits from never change.

1. `Scope.Rooted`: scopes from which a walk outward ends at the globals.
2. `Registry.Records`: a registry lists all that has been made on a machine.
3. `Registry.Records.put`, `Registry.Records.openScope`, `Registry.Records.makeClass`: what is
   written, and what is made.
-/

namespace LoxLang

/-! ## Chains -/

/-- From head to tail such numbers can only go down to zero. -/
theorem length_le_of_decreasing : ∀ {i : Nat} {outer : List Nat},
    (i :: outer).Pairwise (· > ·) → outer.length ≤ i
  | _, [], _ => Nat.zero_le _
  | _, j :: _, h => by
    obtain ⟨hi, hrest⟩ := List.pairwise_cons.1 h
    exact Nat.lt_of_le_of_lt (length_le_of_decreasing hrest) (hi j List.mem_cons_self)

/-- A walk outward comes to older and older frames, and ends at the globals. -/
structure Scope.Rooted (s : Scope) : Prop where
  older : s.chain.Pairwise (· > ·)
  root : ∃ d, Scope.ancestor? d s = some Machine.globals

namespace Scope.Rooted

variable {s o : Scope}

theorem globals : Rooted Machine.globals :=
  ⟨List.pairwise_singleton _ _, 0, rfl⟩

/-- A scope inside another, with a frame that is newer than all around it. -/
theorem inside (h : s.Rooted) {i : Nat} (hi : ∀ j ∈ s.chain, j < i) : Rooted ⟨i, s.chain⟩ := by
  obtain ⟨d, hd⟩ := h.root
  exact ⟨List.pairwise_cons.2 ⟨hi, h.older⟩, d + 1, hd⟩

theorem frame_lt (h : s.Rooted) (ho : s.enclosing? = some o) : o.frame < s.frame := by
  have holder := h.older
  rw [chain_of_enclosing? ho] at holder
  exact (List.pairwise_cons.1 holder).1 _ List.mem_cons_self

theorem length_le (h : s.Rooted) : s.chain.length ≤ s.frame + 1 :=
  Nat.succ_le_succ (length_le_of_decreasing h.older)

end Scope.Rooted

/-- The class that a class inherits from. -/
def Class.superclass? (c : Class) : Option Class :=
  match c.ancestors with
  | [] => none
  | body :: further => some ⟨body, further⟩

namespace Class

variable {c d : Class}

theorem chain_of_superclass? (h : c.superclass? = some d) : c.chain = c.body :: d.chain := by
  obtain ⟨body, _ | ⟨next, further⟩⟩ := c
  · exact nomatch h
  · obtain rfl := Option.some.inj h
    rfl

/-- A method that a class does not declare itself is looked for in its superclass. -/
theorem method?_eq (c : Class) (name : String) :
    c.method? name = (c.body.method? name).or (c.superclass?.bind (method? · name)) := by
  obtain ⟨body, _ | ⟨next, further⟩⟩ := c
  · simp [method?, chain, superclass?]
  · simp only [method?, chain, superclass?, List.findSome?_cons, Option.bind_some]
    cases body.method? name <;> rfl

/-- A class is made of its superclass. -/
theorem superclass?_made (body : ClassBody) (parent : Option Class) :
    (⟨body, (parent.map chain).getD []⟩ : Class).superclass? = parent := by
  cases parent with
  | none => rfl
  | some d => rfl

/-- The scopes in which the methods of a class and of its ancestors were declared. -/
def scopes (c : Class) : List Scope :=
  c.chain.flatMap fun body => body.methods.map Closure.scope

theorem mem_scopes {s : Scope} :
    s ∈ c.scopes ↔ ∃ body ∈ c.chain, ∃ f ∈ body.methods, f.scope = s := by
  simp [scopes]

theorem scope_mem_scopes {name : String} {f : Closure} (h : c.method? name = some f) :
    f.scope ∈ c.scopes := by
  obtain ⟨nearer, body, further, hchain, hbody, -⟩ := method?_eq_some h
  refine mem_scopes.2 ⟨body, by simp [hchain], f, ?_, rfl⟩
  exact List.mem_reverse.1 (List.mem_of_find?_eq_some hbody)

end Class

/-- The scopes that a value keeps: that of a function, which binds `this` if the function is a
method of an object, and those of the methods of a class. -/
def Value.scopes : Value → List Scope
  | .function _ f => [f.scope]
  | .classValue c => c.scopes
  | .object _ c => c.scopes
  | _ => []

/-! ## Functions of the host -/

/-- What keeps no other scopes than these is like itself. -/
def Likeness.within (P : Scope → Prop) : Likeness Scope Scope where
  function f f' := f = f' ∧ P f.scope
  method f f' := f = f' ∧ P f.scope
  function_name := by
    rintro f - ⟨rfl, -⟩
    rfl
  function_arity := by
    rintro f - ⟨rfl, -⟩
    rfl
  method_name := by
    rintro f - ⟨rfl, -⟩
    rfl
  method_arity := by
    rintro f - ⟨rfl, -⟩
    rfl

theorem Class.alike_within_iff {P : Scope → Prop} {c : Class} :
    c.Alike (.within P) c ↔ ∀ s ∈ c.scopes, P s := by
  have hbody {body : ClassBody} : body.Alike (.within P) body ↔ ∀ f ∈ body.methods, P f.scope := by
    refine ⟨fun h f hf => (List.forall₂_same.1 h.methods f hf).2, fun h => ⟨rfl, rfl, ?_⟩⟩
    exact List.forall₂_same.2 fun f hf => ⟨rfl, h f hf⟩
  have hchain : c.Alike (.within P) c ↔ ∀ body ∈ c.chain, body.Alike (.within P) body := by
    refine ⟨fun h => List.forall₂_same.1 h.chain, fun h => ?_⟩
    obtain ⟨hfirst, hrest⟩ := List.forall_mem_cons.1 h
    exact ⟨hfirst, List.forall₂_same.2 hrest⟩
  rw [hchain]
  constructor
  · intro h s hs
    obtain ⟨body, hmem, f, hf, rfl⟩ := Class.mem_scopes.1 hs
    exact hbody.1 (h body hmem) f hf
  · intro h body hmem
    exact hbody.2 fun f hf => h _ (Class.mem_scopes.2 ⟨body, hmem, f, hf, rfl⟩)

theorem Value.alike_within_iff {P : Scope → Prop} {v : Value} :
    v.Alike (.within P) v ↔ ∀ s ∈ v.scopes, P s := by
  constructor
  · intro h
    cases h with
    | function id hf =>
      intro _ hs
      obtain rfl := List.mem_singleton.1 hs
      exact hf.2
    | classValue hc => exact Class.alike_within_iff.1 hc
    | object address hc => exact Class.alike_within_iff.1 hc
    | _ => exact fun s hs => nomatch hs
  · intro h
    cases v with
    | nil => exact .nil
    | boolean value => exact .boolean value
    | number value => exact .number value
    | string contents => exact .string contents
    | native index => exact .native index
    | function id f => exact .function id ⟨rfl, h _ List.mem_cons_self⟩
    | classValue c => exact .classValue (Class.alike_within_iff.2 h)
    | object address c => exact .object address (Class.alike_within_iff.2 h)

/-! ## Registries -/

/-- The scopes and the classes that have been made, and the functions of the host. -/
structure Registry where
  scopes : List Scope
  classes : List Class
  natives : Array Native

namespace Registry

variable {w w' w'' : Registry}

/-- No function of the host makes up a class or an object. -/
def Honest (w : Registry) : Prop :=
  ∀ native ∈ w.natives, native.Honest

/-- What one registry lists is also listed by the other. -/
structure Le (w w' : Registry) : Prop where
  scopes : ∀ s ∈ w.scopes, s ∈ w'.scopes
  classes : ∀ c ∈ w.classes, c ∈ w'.classes
  natives : ∀ native ∈ w.natives, native ∈ w'.natives

namespace Le

theorem refl (w : Registry) : w.Le w :=
  ⟨fun _ => id, fun _ => id, fun _ => id⟩

theorem trans (h : w.Le w') (h' : w'.Le w'') : w.Le w'' where
  scopes s hs := h'.scopes s (h.scopes s hs)
  classes c hc := h'.classes c (h.classes c hc)
  natives native hn := h'.natives native (h.natives native hn)

theorem honest (h : w.Le w') (hw : w'.Honest) : w.Honest :=
  fun native hn => hw native (h.natives native hn)

end Le

/-- The scopes that a value keeps are listed, and so is its class unless the host has made it up. -/
structure Good (w : Registry) (v : Value) : Prop where
  scopes : ∀ s ∈ v.scopes, s ∈ w.scopes
  classes : w.Honest → ∀ c ∈ v.class?, c ∈ w.classes

namespace Good

variable {v : Value}

theorem mono (hw : w.Le w') (h : w.Good v) : w'.Good v where
  scopes s hs := hw.scopes s (h.scopes s hs)
  classes honest c hc := hw.classes c (h.classes (hw.honest honest) c hc)

theorem nil : w.Good .nil :=
  ⟨nofun, fun _ => nofun⟩

theorem native (index : Nat) : w.Good (.native index) :=
  ⟨nofun, fun _ => nofun⟩

theorem number (value : Float) : w.Good (.number value) :=
  ⟨nofun, fun _ => nofun⟩

theorem ofLiteral (value : Literal) : w.Good (.ofLiteral value) := by
  cases value with
  | _ => exact ⟨nofun, fun _ => nofun⟩

theorem ofUnary {operator : Kind} {u : Value} (h : Operator.unary operator v = .ok u) :
    w.Good u := by
  unfold Operator.unary at h
  split at h <;> try split at h
  all_goals cases h <;> exact ⟨nofun, fun _ => nofun⟩

theorem ofBinary {operator : Kind} {v' u : Value} (h : Operator.binary operator v v' = .ok u) :
    w.Good u := by
  unfold Operator.binary Operator.add Operator.numeric at h
  split at h <;> try split at h
  all_goals try split at h
  all_goals cases h <;> exact ⟨nofun, fun _ => nofun⟩

theorem function {id : Nat} {f : Closure} (h : f.scope ∈ w.scopes) : w.Good (.function id f) where
  scopes _ hs := List.mem_singleton.1 hs ▸ h
  classes _ := nofun

/-- An object has the class that it was made of. -/
theorem object {c : Class} (h : w.Good (.classValue c)) (address : Nat) :
    w.Good (.object address c) :=
  ⟨h.scopes, h.classes⟩

theorem classValue {c : Class} {address : Nat} (h : w.Good (.object address c)) :
    w.Good (.classValue c) :=
  ⟨h.scopes, h.classes⟩

/-- A method that a class has was declared in a scope that is listed. -/
theorem method {c : Class} (h : w.Good (.classValue c)) {name : String} {f : Closure}
    (hf : c.method? name = some f) : f.scope ∈ w.scopes :=
  h.scopes _ (Class.scope_mem_scopes hf)

end Good

/-! ## Machines -/

/-- The registry lists what has been made on the machine, and nothing else. -/
structure Records (w : Registry) (m : Machine) : Prop where
  /-- Each scope has a frame of its own, and those around it are listed too. -/
  formed : Forest.Formed ⟨w.scopes, m.store⟩
  rooted : ∀ s ∈ w.scopes, s.Rooted
  scope : m.scope ∈ w.scopes
  values : ∀ {v}, m.Stores v → w.Good v
  hosts : ∀ native ∈ m.natives, native.Alike native
  natives : w.natives = m.natives
  numbered : ∀ c ∈ w.classes, c.body.id < m.nextId
  own : ∀ c ∈ w.classes, ∀ d ∈ w.classes, c.body.id = d.body.id → c = d
  inherits : w.Honest → ∀ c ∈ w.classes, ∀ p ∈ c.superclass?,
    p ∈ w.classes ∧ p.body.id < c.body.id

end Registry

namespace Machine

variable {m : Machine} {u v : Value}

/-- What the memory holds after a frame is written, it has held before, but for the new value. -/
theorem stores_of_put {i : Nat} {name : String}
    (h : Stores { m with store := m.store.put i name v } u) : u = v ∨ m.Stores u := by
  rcases h with ⟨j, x, h⟩ | ⟨j, x, h⟩
  · rcases Store.get?_of_put h with ⟨-, -, hu⟩ | h
    · exact .inl hu
    · exact .inr (.inl ⟨j, x, h⟩)
  · exact .inr (.inr ⟨j, x, h⟩)

theorem stores_of_push {contents : Bindings Value}
    (h : Stores { m with store := ⟨m.store.frames.push contents⟩ } u) :
    (∃ x, Bindings.get? contents x = some u) ∨ m.Stores u := by
  rcases h with ⟨j, x, h⟩ | ⟨j, x, h⟩
  · rcases Store.get?_of_push h with h | h
    · exact .inl ⟨x, h⟩
    · exact .inr (.inl ⟨j, x, h⟩)
  · exact .inr (.inr ⟨j, x, h⟩)

theorem stores_of_newObject (h : Stores { m with objects := m.objects.push [] } u) :
    m.Stores u := by
  rcases h with h | ⟨j, x, h⟩
  · exact .inl h
  · simp only at h
    rw [Array.getElem?_push] at h
    split at h
    · exact nomatch h
    · exact .inr ⟨j, x, h⟩

theorem stores_of_setField {address : Nat} {name : String}
    (h : Stores { m with objects := m.objects.modify address (Bindings.put name v) } u) :
    u = v ∨ m.Stores u := by
  rcases h with h | ⟨j, x, h⟩
  · exact .inr (.inl h)
  · simp only at h
    rw [Array.getElem?_modify] at h
    split at h
    · cases hfields : m.objects[j]? with
      | none =>
        rw [hfields] at h
        exact nomatch h
      | some bindings =>
        rw [hfields, Option.map_some, Option.getD_some, Bindings.get?_put] at h
        split at h
        · exact .inl (Option.some.inj h).symm
        · exact .inr (.inr ⟨j, x, by rwa [hfields]⟩)
    · exact .inr (.inr ⟨j, x, h⟩)

end Machine

namespace Registry

variable {w : Registry} {m : Machine} {v : Value}

/-- The registry with one more scope. -/
def addScope (w : Registry) (s : Scope) : Registry :=
  { w with scopes := s :: w.scopes }

/-- The registry with one more class. -/
def addClass (w : Registry) (c : Class) : Registry :=
  { w with classes := c :: w.classes }

theorem le_addScope (w : Registry) (s : Scope) : w.Le (w.addScope s) :=
  { Le.refl w with scopes := fun _ => List.mem_cons_of_mem s }

theorem le_addClass (w : Registry) (c : Class) : w.Le (w.addClass c) :=
  { Le.refl w with classes := fun _ => List.mem_cons_of_mem c }

namespace Records

theorem frame_lt (hm : w.Records m) {s : Scope} (hs : s ∈ w.scopes) :
    s.frame < m.store.frames.size :=
  hm.formed.frame_lt hs

theorem put (hm : w.Records m) (hv : w.Good v) (i : Nat) (name : String) :
    w.Records { m with store := m.store.put i name v } :=
  { hm with
    formed := hm.formed.written Array.size_modify
    values := fun hu => (Machine.stores_of_put hu).elim (fun h => h ▸ hv) hm.values }

/-- A frame is made inside a scope. -/
theorem openScope (hm : w.Records m) {around : Scope} (ha : around ∈ w.scopes)
    {contents : Bindings Value} (hc : ∀ {x v}, Bindings.get? contents x = some v → w.Good v) :
    (w.addScope ⟨m.store.frames.size, around.chain⟩).Records
      { m with store := ⟨m.store.frames.push contents⟩ } := by
  have hw := w.le_addScope ⟨m.store.frames.size, around.chain⟩
  refine { hm with
    formed := hm.formed.newInside ha contents
    rooted := List.forall_mem_cons.2 ⟨(hm.rooted _ ha).inside (hm.formed.made ha), hm.rooted⟩
    scope := hw.scopes _ hm.scope
    values := fun hu => ?_ }
  rcases Machine.stores_of_push hu with ⟨x, hu⟩ | hu
  · exact (hc hu).mono hw
  · exact (hm.values hu).mono hw

/-- A class is made of another, under the next identity. -/
theorem makeClass (hm : w.Records m) {c : Class} (hid : c.body.id = m.nextId)
    (hparent : w.Honest → ∀ p ∈ c.superclass?, p ∈ w.classes) :
    (w.addClass c).Records { m with nextId := m.nextId + 1 } := by
  have hw := w.le_addClass c
  have hnew {d : Class} (hd : d ∈ w.classes) : d.body.id ≠ c.body.id :=
    fun h => Nat.lt_irrefl _ (hid ▸ h ▸ hm.numbered d hd)
  refine { hm with
    values := fun hu => (hm.values hu).mono hw
    numbered := ?_, own := ?_, inherits := fun honest => ?_ }
  · refine List.forall_mem_cons.2 ⟨hid ▸ Nat.lt_succ_self _, fun d hd => ?_⟩
    exact Nat.lt_succ_of_lt (hm.numbered d hd)
  · intro d hd e he heq
    rcases List.mem_cons.1 hd with rfl | hd' <;> rcases List.mem_cons.1 he with rfl | he'
    · rfl
    · exact absurd heq.symm (hnew he')
    · exact absurd heq (hnew hd')
    · exact hm.own d hd' e he' heq
  · refine List.forall_mem_cons.2 ⟨fun p hp => ?_, fun d hd p hp => ?_⟩
    · have hp := hparent honest p hp
      exact ⟨hw.classes p hp, hid ▸ hm.numbered p hp⟩
    · obtain ⟨hp, hlt⟩ := hm.inherits honest d hd p hp
      exact ⟨hw.classes p hp, hlt⟩

/-- A class has at most as many ancestors as there are identities below its own. -/
theorem length_le (hm : w.Records m) (honest : w.Honest) {c : Class} (hc : c ∈ w.classes) :
    c.chain.length ≤ c.body.id + 1 := by
  obtain ⟨body, ancestors⟩ := c
  induction ancestors generalizing body with
  | nil => exact Nat.succ_le_succ (Nat.zero_le _)
  | cons next further ih =>
    obtain ⟨hp, hlt⟩ := hm.inherits honest _ hc ⟨next, further⟩ rfl
    exact Nat.succ_le_succ (Nat.le_trans (ih next hp) hlt)

/-- Evaluation goes to another scope that is listed. -/
theorem enter (hm : w.Records m) {s : Scope} (hs : s ∈ w.scopes) :
    w.Records { m with scope := s } :=
  { hm with scope := hs }

end Records

end Registry

end LoxLang
