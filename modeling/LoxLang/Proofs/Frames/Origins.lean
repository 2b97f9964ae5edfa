import LoxLang.Proofs.Copies.Code
import LoxLang.Proofs.Lookups.Visits
import LoxLang.Proofs.Scoping.Scoped
import LoxLang.Proofs.Sessions.Actions

/-!
# What frames are for

A frame is made for a block, for a call, for the use of a method or for the declaration of a class
with a superclass, and inside frames that were there before. None of this is in the machine. A
chronicle keeps it beside the machine: what every frame was made for, inside which others, and what
evaluation has come to so far.

From inside to outside, the frames around a piece of code are those of the blocks and the functions
around it in the program. A frame that binds `this` lies between the call of a method and the scope
in which the method was declared, and nowhere else.

1. `Chronicle.Seats`: the frames around a piece of code.
2. `Chronicle.Holds`: a machine is as its chronicle says.
3. `Chronicle.Good.mono`: what is known of a value stays true.
-/

namespace LoxLang

/-- The class in a value. -/
def Value.class? : Value → Option Class
  | .classValue c => some c
  | .object _ c => some c
  | _ => none

/-- The classes and objects that a host function gives back are among its arguments. It makes up
neither of them, and has none from the fields of an object or from an earlier call. -/
def Native.Honest (native : Native) : Prop :=
  ∀ run, native.body = .host run → ∀ vs v, run vs = .ok v → v.class?.isSome → v ∈ vs

/-- What a frame was made for. -/
inductive Purpose where
  | globals
  | block
  /-- A call of a function, and what the scope of that function itself binds `this` to. -/
  | call (closure : Closure) (this : Option Value)
  /-- The use of a method on an object. -/
  | receiver (address : Nat) (c : Class)
  /-- The declaration of methods in a class that has this superclass. -/
  | parent (c : Class) (methods : List FunctionDecl)

/-- What a frame was made for, and the frames around it. -/
structure Origin where
  purpose : Purpose
  outer : List Nat

/-- What has happened on a machine. -/
structure Chronicle where
  /-- The origins of the frames, in the order in which they were made. -/
  origins : List Origin
  /-- What evaluation has come to. -/
  past : Visit → Prop
  knowledge : Knowledge
  /-- How many objects there are. -/
  objects : Nat
  natives : Array Native

namespace Chronicle

/-- The frame was made for this, inside these others. -/
def Made (w : Chronicle) (frame : Nat) (purpose : Purpose) (outer : List Nat) : Prop :=
  w.origins[frame]? = some ⟨purpose, outer⟩

/-- No function of the host makes up a class or an object. -/
def Honest (w : Chronicle) : Prop :=
  ∀ native ∈ w.natives, native.Honest

/-- What one chronicle tells is also told by the other, which may tell more, but not of the past. -/
structure Before (w w' : Chronicle) : Prop where
  origins : w.origins <+: w'.origins
  past : ∀ {v}, w.past v ↔ w'.past v
  knowledge : w'.knowledge.Extends w.knowledge
  objects : w.objects ≤ w'.objects
  natives : ∀ native ∈ w.natives, native ∈ w'.natives

/-- The same within a run, which finds out nothing about mentions and offers no functions. -/
structure Le (w w' : Chronicle) : Prop extends w.Before w' where
  knowledge_eq : w'.knowledge = w.knowledge
  natives_eq : w'.natives = w.natives

variable {w w' w'' : Chronicle}

instance : Coe (w.Le w') (w.Before w') :=
  ⟨Le.toBefore⟩

namespace Before

theorem refl (w : Chronicle) : w.Before w :=
  ⟨List.prefix_refl _, .rfl, .refl _, Nat.le_refl _, fun _ => id⟩

theorem trans (h : w.Before w') (h' : w'.Before w'') : w.Before w'' where
  origins := h.origins.trans h'.origins
  past := h.past.trans h'.past
  knowledge := ⟨Nat.le_trans h.knowledge.limit_le h'.knowledge.limit_le, fun id hid =>
    (h'.knowledge.agree id (Nat.lt_of_lt_of_le hid h.knowledge.limit_le)).trans
      (h.knowledge.agree id hid)⟩
  objects := Nat.le_trans h.objects h'.objects
  natives := fun native hn => h'.natives native (h.natives native hn)

theorem honest (h : w.Before w') (hw : w'.Honest) : w.Honest :=
  fun native hn => hw native (h.natives native hn)

theorem getElem? (h : w.Before w') {i : Nat} {origin : Origin}
    (ho : w.origins[i]? = some origin) : w'.origins[i]? = some origin := by
  obtain ⟨later, hlater⟩ := h.origins
  rw [← hlater, List.getElem?_append_left (List.getElem?_eq_some_iff.1 ho).1, ho]

end Before

theorem Le.refl (w : Chronicle) : w.Le w :=
  ⟨.refl w, rfl, rfl⟩

theorem Le.trans (h : w.Le w') (h' : w'.Le w'') : w.Le w'' where
  toBefore := h.toBefore.trans h'.toBefore
  knowledge_eq := h'.knowledge_eq.trans h.knowledge_eq
  natives_eq := h'.natives_eq.trans h.natives_eq

theorem Made.mono (hw : w.Before w') {i : Nat} {purpose : Purpose} {outer : List Nat}
    (h : w.Made i purpose outer) : w'.Made i purpose outer :=
  hw.getElem? h

/-! ## The frames around a piece of code -/

/-- The frames around a place of a program, innermost first, and the names in them that the program
declares before the place.

* `globals`: outside of all blocks and functions there is the first frame. The names in it do not
  count, for they are looked up when they are needed.
* `block`: a block has a frame.
* `function`: so has the call of a function that is no method.
* `method`: around the call of a method stands the frame that binds `this` to the object.
* `inheriting`: where the class has a superclass, the frame that binds `super` to it stands around
  that one. -/
inductive Seats (w : Chronicle) : List Nat → Surroundings → Prop
  | globals : w.Made 0 .globals [] → Seats w [0] []
  | block {i : Nat} {chain : List Nat} {names : List String} {around : Surroundings} :
      w.Made i .block chain → (∀ x ∈ names, IsName x) → Seats w chain around →
      Seats w (i :: chain) (names :: around)
  | function {i : Nat} {closure : Closure} {this : Option Value} {chain : List Nat}
      {names : List String} {around : Surroundings} :
      w.Made i (.call closure this) chain → (∀ x ∈ names, IsName x) → Seats w chain around →
      Seats w (i :: chain) (names :: around)
  | method {i t : Nat} {closure : Closure} {address : Nat} {c : Class} {chain : List Nat}
      {names : List String} {around : Surroundings} :
      w.Made i (.call closure (some (.object address c))) (t :: chain) →
      w.Made t (.receiver address c) chain → (∀ x ∈ names, IsName x) → Seats w chain around →
      Seats w (i :: t :: chain) (names :: ["this"] :: around)
  | inheriting {i t q : Nat} {closure : Closure} {address : Nat} {c parent : Class}
      {methods : List FunctionDecl} {chain : List Nat} {names : List String}
      {around : Surroundings} :
      w.Made i (.call closure (some (.object address c))) (t :: q :: chain) →
      w.Made t (.receiver address c) (q :: chain) → w.Made q (.parent parent methods) chain →
      closure.decl ∈ methods → (∀ x ∈ names, IsName x) → Seats w chain around →
      Seats w (i :: t :: q :: chain) (names :: ["this"] :: ["super"] :: around)

/-- The frames around the declaration of a method: those around the declaration of the class, and
before them the frame that binds `super`, where the class has a superclass. -/
inductive Declares (w : Chronicle) (decl : FunctionDecl) : List Nat → Surroundings → Prop
  | alone {chain : List Nat} {around : Surroundings} :
      Seats w chain around → Declares w decl chain around
  | inheriting {q : Nat} {parent : Class} {methods : List FunctionDecl} {chain : List Nat}
      {around : Surroundings} :
      w.Made q (.parent parent methods) chain → decl ∈ methods → Seats w chain around →
      Declares w decl (q :: chain) (["super"] :: around)

/-- The piece of code is in all functions whose calls are around it. -/
def Inside (w : Chronicle) (chain : List Nat) (c : Code) : Prop :=
  ∀ i ∈ chain, ∃ origin, w.origins[i]? = some origin ∧
    ∀ closure this, origin.purpose = .call closure this → (Code.function closure.decl).Within c

theorem Seats.mono (hw : w.Before w') {chain : List Nat} {around : Surroundings}
    (h : w.Seats chain around) : w'.Seats chain around := by
  induction h with
  | globals hroot => exact .globals (hroot.mono hw)
  | block hi hnames _ ih => exact .block (hi.mono hw) hnames ih
  | function hi hnames _ ih => exact .function (hi.mono hw) hnames ih
  | method hi ht hnames _ ih => exact .method (hi.mono hw) (ht.mono hw) hnames ih
  | inheriting hi ht hq hdecl hnames _ ih =>
    exact .inheriting (hi.mono hw) (ht.mono hw) (hq.mono hw) hdecl hnames ih

theorem Declares.mono (hw : w.Before w') {decl : FunctionDecl} {chain : List Nat}
    {around : Surroundings} (h : w.Declares decl chain around) : w'.Declares decl chain around := by
  cases h with
  | alone hs => exact .alone (hs.mono hw)
  | inheriting hq hdecl hs => exact .inheriting (hq.mono hw) hdecl (hs.mono hw)

/-- A declaration in the innermost scope leaves the frames as they are. -/
theorem Seats.declare {chain : List Nat} {around : Surroundings} (h : w.Seats chain around)
    {name : String} (hname : IsName name) : w.Seats chain (around.declare name) := by
  have hadd {names : List String} (hnames : ∀ x ∈ names, IsName x) :
      ∀ x ∈ names ++ [name], IsName x := by
    simpa [or_imp, forall_and] using ⟨hnames, hname⟩
  cases h with
  | globals hroot => exact .globals hroot
  | block hi hnames hs => exact .block hi (hadd hnames) hs
  | function hi hnames hs => exact .function hi (hadd hnames) hs
  | method hi ht hnames hs => exact .method hi ht (hadd hnames) hs
  | inheriting hi ht hq hdecl hnames hs => exact .inheriting hi ht hq hdecl (hadd hnames) hs

/-- Behind a statement the frames are those before it. -/
theorem Seats.after {k : Knowledge} {chain : List Nat} {around : Surroundings}
    (h : w.Seats chain around) {s : Stmt} (hs : s.Scoped k around) :
    w.Seats chain (s.after around) := by
  cases s with
  | varDecl name initializer => exact h.declare hs.1
  | funDecl decl => exact h.declare hs.1
  | classDecl name superclass methods => exact h.declare hs.1
  | _ => exact h

/-- Into a call of a method. -/
theorem Declares.call {decl : FunctionDecl} {chain : List Nat} {around : Surroundings}
    (h : w.Declares decl chain around) {i t : Nat} {closure : Closure} {address : Nat} {c : Class}
    {names : List String} (hdecl : closure.decl = decl)
    (hi : w.Made i (.call closure (some (.object address c))) (t :: chain))
    (ht : w.Made t (.receiver address c) chain) (hnames : ∀ x ∈ names, IsName x) :
    w.Seats (i :: t :: chain) (names :: ["this"] :: around) := by
  cases h with
  | alone hs => exact .method hi ht hnames hs
  | inheriting hq hmem hs => exact .inheriting hi ht hq (hdecl ▸ hmem) hnames hs

namespace Inside

variable {chain : List Nat} {c : Code}

theorem mono (hw : w.Before w') (h : w.Inside chain c) : w'.Inside chain c := by
  intro i hi
  obtain ⟨origin, horigin, hwithin⟩ := h i hi
  exact ⟨origin, hw.getElem? horigin, hwithin⟩

theorem part (h : w.Inside chain c) {c' : Code} (hpart : c' ∈ c.parts) : w.Inside chain c' := by
  intro i hi
  obtain ⟨origin, horigin, hwithin⟩ := h i hi
  exact ⟨origin, horigin, fun closure this hcall => (hwithin closure this hcall).tail hpart⟩

/-- A frame that is for no call may be around any code. -/
theorem cons (h : w.Inside chain c) {i : Nat} {purpose : Purpose} {outer : List Nat}
    (hi : w.Made i purpose outer) (hpurpose : ∀ closure this, purpose ≠ .call closure this) :
    w.Inside (i :: chain) c := by
  intro j hj
  rcases List.mem_cons.1 hj with rfl | hj
  · exact ⟨_, hi, fun closure this hcall => absurd hcall (hpurpose closure this)⟩
  · exact h j hj

/-- Into the body of a function. -/
theorem call {closure : Closure} (h : w.Inside chain (.function closure.decl)) {i : Nat}
    {this : Option Value} {outer : List Nat} (hi : w.Made i (.call closure this) outer) :
    w.Inside (i :: chain) (.function closure.decl) := by
  intro j hj
  rcases List.mem_cons.1 hj with rfl | hj
  · refine ⟨_, hi, fun closure' this' hcall => ?_⟩
    injection hcall with hclosure
    exact hclosure ▸ .refl
  · exact h j hj

end Inside

/-! ## Values -/

/-- A method of a class, in the scope in which it was declared. -/
structure Method (w : Chronicle) (m : Closure) : Prop where
  isInitializer : m.isInitializer = m.decl.isInitializer
  declared : ∃ around, w.Declares m.decl m.scope.chain around ∧
    m.decl.Scoped w.knowledge (["this"] :: around) ∧ w.Inside m.scope.chain (.function m.decl)

/-- A function as a value: either none of a class, or a method that is bound to an object. -/
inductive Function (w : Chronicle) : Closure → Prop
  | plain {f : Closure} {around : Surroundings} : f.isInitializer = false →
      w.Seats f.scope.chain around → f.decl.Scoped w.knowledge around →
      w.Inside f.scope.chain (.function f.decl) → Function w f
  | bound {m : Closure} {t : Nat} {address : Nat} {c : Class} : w.Method m →
      w.Made t (.receiver address c) m.scope.chain →
      Function w { m with scope := ⟨t, m.scope.chain⟩ }

/-- All methods of a class and of its ancestors are such. -/
def Methods (w : Chronicle) (c : Class) : Prop :=
  ∀ body ∈ c.chain, ∀ m ∈ body.methods, w.Method m

/-- A class comes of a declaration: its name and its methods are those of the declaration, and its
ancestors are the class that was its superclass then and the ancestors of that one. The superclass
comes of a declaration too, if there is one. -/
inductive Lineage (w : Chronicle) : Class → Prop
  | intro {u : Visit} {name : Token} {parent : Option Class} {methods : List FunctionDecl}
      {c : Class} : w.past u → u.task = .makeClass name parent methods →
      c.body.name = name.lexeme → c.body.methods.map Closure.decl = methods →
      c.ancestors = (parent.map Class.chain).getD [] → (∀ d ∈ parent, Lineage w d) → Lineage w c

/-- What is known of a class. -/
structure Pedigree (w : Chronicle) (c : Class) : Prop where
  methods : w.Methods c
  lineage : w.Honest → w.Lineage c

/-- All functions in a value are such, and objects have addresses that were given out. -/
def Good (w : Chronicle) : Value → Prop
  | .function _ f => w.Function f
  | .classValue c => w.Pedigree c
  | .object address c => w.Pedigree c ∧ (w.Honest → address < w.objects)
  | _ => True

theorem Method.mono (hw : w.Before w') {m : Closure} (h : w.Method m) : w'.Method m := by
  obtain ⟨hinit, around, hdeclares, hscoped, hinside⟩ := h
  exact ⟨hinit, around, hdeclares.mono hw, .extend hw.knowledge _ hscoped, hinside.mono hw⟩

theorem Function.mono (hw : w.Before w') {f : Closure} (h : w.Function f) : w'.Function f := by
  cases h with
  | plain hinit hseats hscoped hinside =>
    exact .plain hinit (hseats.mono hw) (.extend hw.knowledge _ hscoped) (hinside.mono hw)
  | bound hm ht => exact .bound (hm.mono hw) (ht.mono hw)

theorem Methods.mono (hw : w.Before w') {c : Class} (h : w.Methods c) : w'.Methods c :=
  fun body hbody m hm => (h body hbody m hm).mono hw

theorem Lineage.mono (hw : w.Before w') {c : Class} (h : w.Lineage c) : w'.Lineage c := by
  induction h with
  | intro hu htask hname hmethods hancestors _ ih =>
    exact .intro (hw.past.1 hu) htask hname hmethods hancestors ih

theorem Pedigree.mono (hw : w.Before w') {c : Class} (h : w.Pedigree c) : w'.Pedigree c :=
  ⟨h.methods.mono hw, fun honest => (h.lineage (hw.honest honest)).mono hw⟩

theorem Good.mono (hw : w.Before w') {v : Value} (h : w.Good v) : w'.Good v := by
  cases v with
  | function id f => exact Function.mono hw h
  | classValue c => exact Pedigree.mono hw h
  | object address c =>
    exact ⟨h.1.mono hw, fun honest => Nat.lt_of_lt_of_le (h.2 (hw.honest honest)) hw.objects⟩
  | _ => trivial

/-- A method that a class has is such. -/
theorem Pedigree.method {c : Class} (h : w.Pedigree c) {name : String} {m : Closure}
    (hm : c.method? name = some m) : w.Method m := by
  obtain ⟨nearer, body, further, hchain, hbody, -⟩ := Class.method?_eq_some hm
  refine h.methods body (by simp [hchain]) m ?_
  exact List.mem_reverse.1 (List.mem_of_find?_eq_some hbody)

/-! ## Machines -/

end Chronicle

/-- A frame or an object of the machine holds the value. -/
def Machine.Stores (m : Machine) (v : Value) : Prop :=
  (∃ i x, Bindings.get? (m.store.frame i) x = some v) ∨
    ∃ i : Nat, ∃ x, Bindings.get? (m.objects[i]?.getD []) x = some v

namespace Chronicle

variable {w : Chronicle}

/-- A machine is as its chronicle says. -/
structure Holds (w : Chronicle) (m : Machine) : Prop where
  frames : w.origins.length = m.store.frames.size
  root : w.Made 0 .globals []
  values : ∀ {i x v}, Bindings.get? (m.store.frame i) x = some v → w.Good v
  fields : ∀ {i : Nat} {x v}, Bindings.get? (m.objects[i]?.getD []) x = some v → w.Good v
  receivers : ∀ {i address c outer}, w.Made i (.receiver address c) outer →
    Bindings.get? (m.store.frame i) "this" = some (.object address c)
  parents : ∀ {i c methods outer}, w.Made i (.parent c methods) outer →
    Bindings.get? (m.store.frame i) "super" = some (.classValue c)
  /-- In no other frame is one of the two words bound, unless the host gives a function of its own
  this name, which is then in the globals. -/
  this : ∀ {i v}, Bindings.get? (m.store.frame i) "this" = some v →
    (∃ address c outer, w.Made i (.receiver address c) outer) ∨ i = 0 ∧ ∃ index, v = .native index
  super : ∀ {i v}, 0 < i → Bindings.get? (m.store.frame i) "super" = some v →
    ∃ c methods outer, w.Made i (.parent c methods) outer
  calls : ∀ {i closure this outer}, w.Made i (.call closure this) outer →
    outer = closure.scope.chain ∧ ∃ u arguments, w.past u ∧ u.task = .apply closure arguments ∧
      u.machine.store.frames.size = i ∧ u.machine.store.getLocal? closure.scope "this" = this
  declarations : ∀ {i c methods outer}, w.Made i (.parent c methods) outer →
    ∃ u name, w.past u ∧ u.task = .makeClass name (some c) methods ∧
      u.machine.store.frames.size = i ∧ u.machine.scope.chain = outer
  /-- No variable is written that has one of the two words as its name. -/
  written : ∀ {u x target value}, w.past u → u.task = .write x target value →
    target.name ≠ "this" ∧ target.name ≠ "super"
  hosts : ∀ native ∈ m.natives, native.Alike native
  natives : w.natives = m.natives
  distances : m.distances = w.knowledge.distances
  objects : w.objects = m.objects.size

theorem Holds.good {m : Machine} (hm : w.Holds m) {v : Value} (hv : m.Stores v) : w.Good v := by
  rcases hv with ⟨i, x, hv⟩ | ⟨i, x, hv⟩
  · exact hm.values hv
  · exact hm.fields hv

end Chronicle

end LoxLang
