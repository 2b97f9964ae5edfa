import LoxLang.Proofs.Frames.Sessions
import LoxLang.Proofs.Scanning.Items

/-!
# Which method is meant

A property of an object that is no field is the last method of its name in the first class that has
one, from the class of the object on. After `super` the same search begins at the superclass that
the declaration around it has found, whatever that name means since then; and the method is bound to
the object of the call around it.

1. `Class.selects_method?`: the search along a chain of classes.
2. `Eval.get_of_object`, `Eval.dispatches_inherited`: what a search comes to.
3. `Session.dispatch_along_chain`: all runs of all sessions.
-/

namespace LoxLang

/-! ## The search -/

/-- What a search along the classes of a chain is to find: in the first class that has methods of
the name, the one written last. -/
def Class.Selects (c : Class) (name : String) : Option Closure → Prop
  | some f => ∃ nearer body further earlier later, c.chain = nearer ++ body :: further ∧
      (∀ b ∈ nearer, ∀ g ∈ b.methods, g.name ≠ name) ∧ body.methods = earlier ++ f :: later ∧
      f.name = name ∧ ∀ g ∈ later, g.name ≠ name
  | none => ∀ b ∈ c.chain, ∀ g ∈ b.methods, g.name ≠ name

theorem ClassBody.method?_eq_none {body : ClassBody} {name : String} :
    body.method? name = none ↔ ∀ g ∈ body.methods, g.name ≠ name := by
  simp [method?]

theorem ClassBody.method?_eq_some {body : ClassBody} {name : String} {f : Closure}
    (h : body.method? name = some f) : ∃ earlier later,
      body.methods = earlier ++ f :: later ∧ f.name = name ∧ ∀ g ∈ later, g.name ≠ name := by
  obtain ⟨hname, later, earlier, hmethods, hlater⟩ := List.find?_eq_some_iff_append.1 h
  refine ⟨earlier.reverse, later.reverse, ?_, by simpa using hname, by simpa using hlater⟩
  rw [← body.methods.reverse_reverse, hmethods]
  simp

theorem Class.selects_method? (c : Class) (name : String) : c.Selects name (c.method? name) := by
  cases hfound : c.method? name with
  | none =>
    intro b hb
    exact ClassBody.method?_eq_none.1 (List.findSome?_eq_none_iff.1 hfound b hb)
  | some f =>
    obtain ⟨nearer, body, further, hchain, hbody, hnearer⟩ := Class.method?_eq_some hfound
    obtain ⟨earlier, later, hmethods, hname, hlater⟩ := ClassBody.method?_eq_some hbody
    exact ⟨nearer, body, further, earlier, later, hchain,
      fun b hb => ClassBody.method?_eq_none.1 (hnearer b hb), hmethods, hname, hlater⟩

/-- How the search for a method of an object ends.

* `bound`: the class selects a method. It is given a scope of its own, which binds `this` to the
  object and stands in the scope of its declaration.
* `undefined`: the class selects none, which is an error on the line of the name. -/
inductive Dispatches (c : Class) (name : Token) (object : Value) (m : Machine) :
    Outcome Value → Prop
  | bound {f : Closure} : c.Selects name.lexeme (some f) →
      Dispatches c name object m
        (.done (.function m.nextId { f with scope := ⟨m.store.frames.size, f.scope.chain⟩ })
          { m with
            store := ⟨m.store.frames.push [("this", object)]⟩
            nextId := m.nextId + 1 })
  | undefined : c.Selects name.lexeme none →
      Dispatches c name object m
        (.failed (.runtime ⟨name.line, .undefinedProperty name.lexeme⟩) m)

namespace Eval

variable {n : Nat} {k m : Machine}

theorem dispatches_inherited (line : Nat) (method : Token) (parent : Class) (address : Nat)
    (c : Class) (m : Machine) :
    Dispatches parent method (.object address c) m
      (inherited line method (.classValue parent) (.object address c) m) := by
  have hselects := parent.selects_method? method.lexeme
  change Dispatches _ _ _ _ ((do
    let found ← Step.require method.line (.undefinedProperty method.lexeme)
      (parent.method? method.lexeme)
    function (← bindThis found (.object address c))) m)
  cases hfound : parent.method? method.lexeme with
  | none => exact .undefined (hfound ▸ hselects)
  | some f => exact .bound (hfound ▸ hselects)

/-- A property is a field, or else a method. -/
theorem get_of_object {e : Expr} {address : Nat} {c : Class} (name : Token)
    (h : expr n e k = .done (.object address c) m) :
    (∀ value, Bindings.get? (m.objects[address]?.getD []) name.lexeme = some value →
      expr (n + 1) (.get e name) k = .done value m) ∧
    (Bindings.get? (m.objects[address]?.getD []) name.lexeme = none →
      Dispatches c name (.object address c) m (expr (n + 1) (.get e name) k)) := by
  have hget : expr (n + 1) (.get e name) k = property address c name m := by
    simp only [expr]
    rw [Step.bind_of_done h]
  rw [hget]
  unfold property
  have hfield : field? address name.lexeme m =
    .done (Bindings.get? (m.objects[address]?.getD []) name.lexeme) m := rfl
  rw [Step.bind_of_done hfield]
  refine ⟨fun value hvalue => ?_, fun hnone => ?_⟩
  · rw [hvalue]
    rfl
  · rw [hnone]
    exact dispatches_inherited name.line name c address c m

end Eval

/-! ## Calls and declarations -/

/-- The visit is the innermost call of a method around the other one: the frames of that begin with
some in which `this` is not bound, go on with the frame of the call, and then with those of the
method, which bind `this` to the object when it is called. -/
structure Visit.Encloses (u v : Visit) (method : Closure) (object : Value) : Prop where
  call : ∃ arguments, u.task = .apply method arguments
  this : u.machine.store.getLocal? method.scope "this" = some object
  chain : ∃ inner,
    v.machine.scope.chain = inner ++ u.machine.store.frames.size :: method.scope.chain ∧
      ∀ i ∈ inner, Bindings.get? (v.machine.store.frame i) "this" = none

/-- The visit is the declaration of a class with the method. It has found this superclass, and the
scope of the method is the frame for its object inside the frame that the declaration makes. -/
def Visit.DeclaresMethod (d : Visit) (method : Closure) (parent : Class) : Prop :=
  ∃ name o methods m, d.task = .stmt (.classDecl name (some o) methods) ∧
    Eval.lookUp o d.machine = .done (.classValue parent) m ∧ method.decl ∈ methods ∧
      method.scope.outer = m.store.frames.size :: m.scope.chain

/-- A class comes of the visit of a declaration: its methods are those in the declaration, in order,
and its ancestors are the superclass that was found, which comes of a declaration too, and those of
that. -/
inductive Class.Declared (met : Visit → Prop) : Class → Prop
  | intro {d : Visit} {name : Token} {superclass : Option Occurrence}
      {methods : List FunctionDecl} {parent : Option Class} {m : Machine} {c : Class} : met d →
      d.task = .stmt (.classDecl name superclass methods) →
      Eval.superclass? superclass d.machine = .done parent m → c.body.name = name.lexeme →
      c.body.methods.map Closure.decl = methods →
      c.ancestors = (parent.map Class.chain).getD [] → (∀ p ∈ parent, Class.Declared met p) →
      Class.Declared met c

namespace Session

variable {s : Session} {past : Visit → Prop} {budget : Nat} {source : String} {v : Visit}

/-- A class is made by its declaration, once the superclass is found. -/
theorem Visits.declaration (hv : s.Visits budget source v) {name : Token} {parent : Option Class}
    {methods : List FunctionDecl} (htask : v.task = .makeClass name parent methods) :
    ∃ d superclass, s.Visits budget source d ∧
      d.task = .stmt (.classDecl name superclass methods) ∧
        Eval.superclass? superclass d.machine = .done parent v.machine := by
  obtain ⟨distances, herrors, hresolve, hv⟩ := hv
  obtain ⟨n, task, m⟩ := v
  obtain rfl : task = _ := htask
  rcases hv.cases_tail with hroot | ⟨d, hd, hstarts⟩
  · exact nomatch hroot
  · cases hstarts with
    | classDecl hrun => exact ⟨_, _, ⟨distances, herrors, hresolve, hd⟩, rfl, hrun⟩

theorem History.declaration (h : s.History past) (hv : past v) {name : Token}
    {parent : Option Class} {methods : List FunctionDecl}
    (htask : v.task = .makeClass name parent methods) :
    ∃ d superclass, past d ∧ d.task = .stmt (.classDecl name superclass methods) ∧
      Eval.superclass? superclass d.machine = .done parent v.machine := by
  induction h with
  | start sink clock => exact hv.elim
  | act a _ ih =>
    rcases hv with hv | ⟨budget, source, rfl, hv⟩
    · obtain ⟨d, superclass, hd, hdecl⟩ := ih hv
      exact ⟨d, superclass, .inl hd, hdecl⟩
    · obtain ⟨d, superclass, hd, hdecl⟩ := hv.declaration htask
      exact ⟨d, superclass, .inr ⟨budget, source, rfl, hd⟩, hdecl⟩

end Session

theorem Eval.lookUp_of_superclass? {superclass : Option Occurrence} {parent : Class}
    {m n : Machine} (h : superclass? superclass m = .done (some parent) n) :
    ∃ o, superclass = some o ∧ lookUp o m = .done (.classValue parent) n := by
  cases superclass with
  | none => cases h
  | some o =>
    refine ⟨o, rfl, ?_⟩
    change Step.bind (lookUp o) _ m = _ at h
    unfold Step.bind at h
    cases hrun : lookUp o m with
    | done value k =>
      rw [hrun] at h
      cases value with
      | classValue c =>
        injection h with hc hk
        injection hc with hc
        rw [hc, hk]
      | _ => cases h
    | _ =>
      rw [hrun] at h
      cases h

namespace Chronicle

variable {w : Chronicle} {around : Surroundings} {met : Visit → Prop} {v : Visit}

/-- The classes that the chronicle tells of are made by the declarations that are met. -/
def Declaring (w : Chronicle) (met : Visit → Prop) : Prop :=
  ∀ {u name parent methods}, w.past u → u.task = .makeClass name parent methods →
    ∃ d superclass, met d ∧ d.task = .stmt (.classDecl name superclass methods) ∧
      Eval.superclass? superclass d.machine = .done parent u.machine

theorem Lineage.declared (hmet : w.Declaring met) {c : Class} (h : w.Lineage c) :
    c.Declared met := by
  induction h with
  | intro hu htask hname hmethods hancestors _ ih =>
    obtain ⟨d, superclass, hd, hdecl, hrun⟩ := hmet hu htask
    exact .intro hd hdecl hrun hname hmethods hancestors ih

theorem Good.declared (hmet : w.Declaring met) {value : Value} (h : w.Good value)
    (honest : w.Honest) {c : Class} (hc : value.class? = some c) : c.Declared met := by
  cases value with
  | classValue d =>
    obtain rfl : d = c := Option.some.inj hc
    exact (Pedigree.lineage h honest).declared hmet
  | object address d =>
    obtain rfl : d = c := Option.some.inj hc
    exact (h.1.lineage honest).declared hmet
  | _ => exact nomatch hc

theorem Inside.within {chain : List Nat} {code : Code} (h : w.Inside chain code) {f : Nat}
    (hf : f ∈ chain) {closure : Closure} {this : Option Value} {outer : List Nat}
    (hcall : w.Made f (.call closure this) outer) : (Code.function closure.decl).Within code := by
  obtain ⟨origin, horigin, hwithin⟩ := h f hf
  obtain rfl : origin = _ := Option.some.inj (horigin.symm.trans hcall)
  exact hwithin closure this rfl

section

variable {inner outer : List Nat} {f t : Nat} {closure : Closure} {address : Nat} {c : Class}

theorem Activation.mem {chain : List Nat}
    (h : w.Activation chain inner f t outer closure address c) : f ∈ chain := by
  rw [h.chain]
  exact List.mem_append_right inner (.head _)

theorem Activation.encloses
    (h : w.Activation v.machine.scope.chain inner f t outer closure address c)
    (hm : w.Holds v.machine) :
    closure.scope.outer = outer ∧ ∃ u, w.past u ∧ u.Encloses v closure (.object address c) := by
  obtain ⟨houter, u, arguments, hu, htask, hsize, hthis⟩ := hm.calls h.call
  refine ⟨?_, u, hu, ⟨arguments, htask⟩, hthis, inner, ?_, h.this_eq_none hm⟩
  · injection houter with _ houter
    exact houter.symm
  · rw [h.chain, hsize, houter]

end

theorem Ready.getAt?_distance {n : Nat} {x : Option String} {e : Expr} {m : Machine}
    (h : w.Ready around ⟨n, .expr x e, m⟩) {o : Occurrence} (ho : w.knowledge.Traces around o) :
    m.distances[o.id]? = around.locate? o.name := by
  rw [h.machine.distances]
  exact ho.2

/-- The word `this` means the object of the call around it. -/
theorem Ready.this {n : Nat} {x : Option String} {keyword : Occurrence} {m : Machine}
    (h : w.Ready around ⟨n + 1, .expr x (.this keyword), m⟩) :
    ∃ u f object, w.past u ∧ u.Encloses ⟨n + 1, .expr x (.this keyword), m⟩ f object ∧
      (Code.function f.decl).Within (.expr (.this keyword)) ∧
        Eval.expr (n + 1) (.this keyword) m = .done object m := by
  obtain ⟨⟨pending, htraces, hname, hsome⟩, hinside⟩ := h.fits
  obtain ⟨d, hd⟩ := Option.isSome_iff_exists.1 hsome
  obtain ⟨inner, i, t, outer, f, address, c, hactivation, rfl, -⟩ := h.seats.activation hd
  obtain ⟨-, u, hu, hencloses⟩ := hactivation.encloses h.machine
  refine ⟨u, f, _, hu, hencloses, hinside.within hactivation.mem hactivation.call, ?_⟩
  have hdistance : m.distances[keyword.id]? = some (inner.length + 1) := by
    rw [h.getAt?_distance htraces, hname, hd]
  have hchain : m.scope.chain[inner.length + 1]? = some t := by
    rw [hactivation.chain]
    simp
  exact lookUp_of_distance hdistance hchain (hname.symm ▸ h.machine.receivers hactivation.receiver)

/-- After `super` the search begins at the superclass that the declaration around it has found, and
is for the object of the call around it. -/
theorem Ready.super (hmet : w.Declaring met) {n : Nat} {x : Option String} {keyword : Occurrence}
    {method : Token} {m : Machine}
    (h : w.Ready around ⟨n + 1, .expr x (.super keyword method), m⟩) :
    ∃ u d f parent address c, w.past u ∧ met d ∧
      u.Encloses ⟨n + 1, .expr x (.super keyword method), m⟩ f (.object address c) ∧
      d.DeclaresMethod f parent ∧
      (Code.function f.decl).Within (.expr (.super keyword method)) ∧
      Dispatches parent method (.object address c) m
        (Eval.expr (n + 1) (.super keyword method) m) := by
  obtain ⟨⟨pending, htraces, hname, d, hthis, hsuper⟩, hinside⟩ := h.fits
  obtain ⟨inner, i, t, outer, f, address, c, hactivation, rfl, hparent⟩ := h.seats.activation hthis
  obtain ⟨q, parent, methods, outer, rfl, hq, hdecl⟩ := hparent hsuper
  obtain ⟨houter, u, hu, hencloses⟩ := hactivation.encloses h.machine
  obtain ⟨k, name, hk, htask, hsize, hscope⟩ := h.machine.declarations hq
  obtain ⟨d, superclass, hd, hdeclaration, hrun⟩ := hmet hk htask
  obtain ⟨o, rfl, hlookUp⟩ := Eval.lookUp_of_superclass? hrun
  refine ⟨u, d, f, parent, address, c, hu, hd, hencloses, ?_,
    hinside.within hactivation.mem hactivation.call, ?_⟩
  · exact ⟨name, o, methods, k.machine, hdeclaration, hlookUp, hdecl, by rw [houter, hsize, hscope]⟩
  · have hdistance : m.distances[keyword.id]? = some (inner.length + 1 + 1) := by
      rw [h.getAt?_distance htraces, hname, hsuper]
    have hchain : m.scope.chain[inner.length + 1 + 1]? = some q := by
      rw [hactivation.chain, List.getElem?_append_right (by omega),
        show inner.length + 1 + 1 - inner.length = 2 by omega]
      rfl
    have hsuper := Store.getAt?_of_chain hchain (h.machine.parents hq)
    have hresult := superMethod_of_distance hdistance hsuper
      (hactivation.getAt?_this h.machine) method
    change Dispatches _ _ _ _ (Eval.superMethod keyword method m)
    rw [hresult]
    exact Eval.dispatches_inherited _ _ _ _ _ _

end Chronicle

namespace Session

variable {s : Session} {past : Visit → Prop} {budget : Nat} {source : String}

/-- What a session has come to before and in a run. -/
theorem History.declaring (h : s.History past) {w : Chronicle}
    (hpast : ∀ u, w.past u ↔ past u ∨ s.Visits budget source u) :
    w.Declaring fun u => past u ∨ s.Visits budget source u := by
  intro u name parent methods hu htask
  rcases (hpast u).1 hu with hu | hu
  · obtain ⟨d, superclass, hd, hdecl⟩ := h.declaration hu htask
    exact ⟨d, superclass, .inl hd, hdecl⟩
  · obtain ⟨d, superclass, hd, hdecl⟩ := hu.declaration htask
    exact ⟨d, superclass, .inr hd, hdecl⟩

/-- A property of an object is a field of it or else what the search from its class on finds. Unless
the host makes up classes, all that a run holds or comes to are made by declarations, from the first
to the last in the chain. And wherever a run comes to `this` or `super`, be it in a function that is
called long after the method around it has returned, the word means the object of the call of that
method; and the search after `super` begins at the superclass that the declaration of that method
has found. -/
theorem dispatch_along_chain :
    (∀ {n e} (name : Token) {k m : Machine} {address c},
      Eval.expr n e k = .done (.object address c) m →
        (∀ value, Bindings.get? (m.objects[address]?.getD []) name.lexeme = some value →
          Eval.expr (n + 1) (.get e name) k = .done value m) ∧
        (Bindings.get? (m.objects[address]?.getD []) name.lexeme = none →
          Dispatches c name (.object address c) m (Eval.expr (n + 1) (.get e name) k))) ∧
    ∀ {s : Session} {past : Visit → Prop}, s.History past → ∀ {budget source n x e k},
      let met u := past u ∨ s.Visits budget source u
      let v : Visit := ⟨n + 1, .expr x e, k⟩
      s.Visits budget source v →
        ((∀ native ∈ s.machine.natives, native.Honest) → ∀ {value c},
          (k.Stores value ∨ ∃ m, Eval.expr (n + 1) e k = .done value m) →
            value.class? = some c → c.Declared met) ∧
        (∀ keyword, e = .this keyword → ∃ u f object, met u ∧ u.Encloses v f object ∧
          (Code.function f.decl).Within (.expr e) ∧ Eval.expr (n + 1) e k = .done object k) ∧
        ∀ keyword method, e = .super keyword method →
          ∃ u d f parent address c, met u ∧ met d ∧ u.Encloses v f (.object address c) ∧
            d.DeclaresMethod f parent ∧ (Code.function f.decl).Within (.expr e) ∧
            Dispatches parent method (.object address c) k (Eval.expr (n + 1) e k) := by
  refine ⟨fun name => Eval.get_of_object name, fun {s past} h {budget source n x e k} => ?_⟩
  intro met v hv
  obtain ⟨w, around, hpast, hnatives, hready⟩ := h.ready hv
  have hmet : w.Declaring met := h.declaring hpast
  refine ⟨fun honest value c hvalue hc => ?_, ?_, ?_⟩
  · have honest : w.Honest := fun native hnative => honest native (hnatives ▸ hnative)
    rcases hvalue with hvalue | ⟨m, hrun⟩
    · exact (hready.machine.good hvalue).declared hmet honest hc
    · obtain ⟨w', hw, -, hvalue⟩ := ((Chronicle.keeping _).expr hready).of_done hrun
      have hmet' : w'.Declaring met := fun hu => hmet (hw.past.2 hu)
      exact hvalue.declared hmet' (fun native hn => honest native (hw.natives_eq ▸ hn)) hc
  · rintro keyword rfl
    obtain ⟨u, f, object, hu, hencloses⟩ := hready.this
    exact ⟨u, f, object, (hpast u).1 hu, hencloses⟩
  · rintro keyword method rfl
    obtain ⟨u, d, f, parent, address, c, hu, hsuper⟩ := hready.super hmet
    exact ⟨u, d, f, parent, address, c, (hpast u).1 hu, hsuper⟩

/-- In the second method `super` means the class that was named `A`, though its object is of `B`. -/
theorem dispatch_along_chain_overridden :
    let s := start .unlimited 0
    let source := "class A{m(){}}class B<A{m(){this;super.m;}}B().m();"
    let met u := False ∨ s.Visits 9 source u
    s.History (fun _ => False) ∧ (∀ native ∈ s.machine.natives, native.Honest) ∧
      ∃ (b : Class) (name : Token) (n : Machine),
        (∃ e k m, Eval.expr 6 e k = .done (.object 0 b) m ∧
          Bindings.get? (m.objects[0]?.getD []) name.lexeme = none ∧
          Dispatches b name (.object 0 b) m (Eval.expr 7 (.get e name) k)) ∧
        (∃ (this : Occurrence) (u : Visit) (f : Closure) (object : Value),
          s.Visits 9 source ⟨5, .expr none (.this this), n⟩ ∧
          u.Encloses ⟨5, .expr none (.this this), n⟩ f object ∧
          Eval.expr 5 (.this this) n = .done object n) ∧
        ∃ (super : Occurrence) (d : Visit) (f : Closure) (parent : Class) (object : Value),
          s.Visits 9 source ⟨4, .expr none (.super super name), n⟩ ∧ n.Stores (.object 0 b) ∧
          b.Declared met ∧ d.DeclaresMethod f parent ∧
          Dispatches parent name object n (Eval.expr 4 (.super super name) n) := by
  intro s source met
  let name : Token := ⟨.identifier, "m", 1⟩
  let this : Occurrence := ⟨1, ⟨.keyword .thisWord, "this", 1⟩⟩
  let super : Occurrence := ⟨2, ⟨.keyword .superWord, "super", 1⟩⟩
  let f : FunctionDecl := ⟨name, [], []⟩
  let g : FunctionDecl := ⟨name, [], [.expression (.this this), .expression (.super super name)]⟩
  let close : Token := ⟨.mark .rightParen, ")", 1⟩
  let first : Stmt := .classDecl ⟨.identifier, "A", 1⟩ none [f]
  let second : Stmt := .classDecl ⟨.identifier, "B", 1⟩ (some ⟨0, ⟨.identifier, "A", 1⟩⟩) [g]
  let e : Expr := .call (.var ⟨3, ⟨.identifier, "B", 1⟩⟩) close []
  have hstatements : (Reading.ofSource source 0).statements =
      [first, second, .expression (.call (.get e name) close [])] := by
    rw [Reading.ofSource, scan_eq]
    cbv
  let m := s.machine.learn (((∅ : Distances).insert 1 1).insert 2 2)
  let a : Class := ⟨⟨0, "A", [⟨f, ⟨0, []⟩, false⟩]⟩, []⟩
  let b : Class := ⟨⟨1, "B", [⟨g, ⟨1, [0]⟩, false⟩]⟩, [a.body]⟩
  let globals : Bindings Value := [("clock", .native 0), ("A", .classValue a)]
  let m₁ : Machine := { m with store := ⟨#[globals]⟩, nextId := 1 }
  let m₂ : Machine :=
    { m with
      store := ⟨#[globals ++ [("B", .classValue b)], [("super", .classValue a)]]⟩, nextId := 2 }
  let m₃ : Machine :=
    { m₂ with
      store := ⟨m₂.store.frames.push [("this", .object 0 b)]⟩, objects := #[[]], nextId := 3 }
  let n : Machine :=
    { m₃ with store := ⟨m₃.store.frames.push []⟩, scope := ⟨3, [2, 1, 0]⟩, depth := 1 }
  have hfirst : Eval.stmt 9 first m = .done .normal m₁ := rfl
  have hsecond : Eval.stmt 9 second m₁ = .done .normal m₂ := rfl
  have hobject : Eval.expr 6 e m₂ = .done (.object 0 b) { m₂ with objects := #[[]] } := rfl
  have hmethod : Eval.expr 7 (.get e name) m₂ =
    .done (.function 2 ⟨g, ⟨2, [1, 0]⟩, false⟩) m₃ := rfl
  have hmeets {v : Visit} (hv : LoxLang.Visits ⟨7, .stmts g.body, n⟩ v) :
      s.Visits 9 source v := by
    refine visits_of_statements (((∅ : Distances).insert 1 1).insert 2 2) hstatements
      (by decide +kernel) rfl ?_
    exact .head (.programTail hfirst) (.head (.programTail hsecond) (.head .programHead
      (.head .expression (.head (.call hmethod rfl) (.head (.callFunction rfl (by decide))
        (.head (.apply rfl) hv))))))
  have hs : s.History fun _ => False := .start _ _
  have honest := start_honest .unlimited 0
  have hthis : s.Visits 9 source ⟨5, .expr none (.this this), n⟩ :=
    hmeets (.head .head (.head .expression .refl))
  have hsuper : s.Visits 9 source ⟨4, .expr none (.super super name), n⟩ :=
    hmeets (.head (.tail rfl) (.head .head (.head .expression .refl)))
  have hstores : n.Stores (.object 0 b) := .inl ⟨2, "this", rfl⟩
  obtain ⟨hget, hruns⟩ := dispatch_along_chain
  obtain ⟨-, hthis', -⟩ := hruns hs hthis
  obtain ⟨u, h, object, -, hencloses, -, hobject'⟩ := hthis' _ rfl
  obtain ⟨hclass, -, hsuper'⟩ := hruns hs hsuper
  obtain ⟨-, d, h', parent, address, c, -, -, -, hdeclares, -, hdispatches⟩ := hsuper' _ _ rfl
  exact ⟨hs, honest, b, name, n, ⟨e, m₂, _, hobject, rfl, (hget name hobject).2 rfl⟩,
    ⟨this, u, h, object, hthis, hencloses, hobject'⟩,
    ⟨super, d, h', parent, _, hsuper, hstores, hclass honest (.inl hstores) rfl, hdeclares,
      hdispatches⟩⟩

end Session

end LoxLang
