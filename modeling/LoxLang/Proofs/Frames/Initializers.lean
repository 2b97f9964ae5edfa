import LoxLang.Proofs.Frames.Dispatch
import LoxLang.Proofs.Frames.Onward
import LoxLang.Proofs.Scanning.Items

/-!
# What initializers give back

The call of a class gives back the object that it makes. The call of an initializer gives back the
object that it was taken from, however its body ends: the scope that binds `this` to the object has
a frame of its own, in which nothing is written again.

1. `Eval.construct_done`: calls of classes.
2. `Chronicle.Ready.initializer_done`: calls of initializers.
3. `Session.initializers_give_objects`: all runs of all sessions.
-/

namespace LoxLang

/-- An object is equal to no value that is older. -/
theorem Value.equals_older {value : Value} {address : Nat} {c : Class}
    (h : ∀ {i d}, value = .object i d → i < address) :
    (Value.object address c).equals value = false := by
  cases value with
  | object i d => simpa [equals] using Nat.ne_of_gt (h rfl)
  | _ => rfl

theorem Store.lt_of_bound {α : Type} {store : Store α} {i : Nat} {x : String} {v : α}
    (h : Bindings.get? (store.frame i) x = some v) : i < store.frames.size := by
  by_contra hi
  rw [frame, Array.getElem?_eq_none (Nat.le_of_not_lt hi)] at h
  exact absurd h (Option.some_ne_none v).symm

/-! ## Calls that have a value -/

namespace Eval

variable {run : List Stmt → Eval Completion} {line : Nat} {arguments : List Value} {value : Value}
  {m n : Machine}

theorem done_of_counted {α : Type} {step : Eval α} {a : α} (h : counted step m = .done a n) :
    ∃ k, step { m with depth := m.depth + 1 } = .done a k := by
  unfold counted at h
  cases hstep : step { m with depth := m.depth + 1 } with
  | done b k =>
    rw [hstep] at h
    injection h with h
    exact ⟨k, congrArg (Ending.done · k) h⟩
  | _ =>
    rw [hstep] at h
    exact nomatch h

/-- A call that has a value was given as many arguments as are asked for, and there was room for
it. -/
theorem call_done {callee : Value} {arity : Nat} (harity : arity? callee m = .done (some arity) m)
    (h : call run callee line arguments m = .done value n) :
    arguments.length = arity ∧ m.depth < Machine.maxDepth ∧
      ∃ k, body run line arguments callee { m with depth := m.depth + 1 } = .done value k := by
  rw [call_of_arity harity] at h
  split at h
  · exact nomatch h
  · next hlength =>
    split at h
    · exact nomatch h
    · next hdepth => exact ⟨not_not.1 hlength, Nat.lt_of_not_le hdepth, done_of_counted h⟩

/-- The value of a call of a class is the next object. -/
theorem construct_done {c : Class} (h : construct run c arguments m = .done value n) :
    value = .object m.objects.size c := by
  have hnew : newObject c m = .done (.object m.objects.size c) _ := rfl
  unfold construct at h
  rw [Step.bind_of_done hnew] at h
  cases hinitializer : c.initializer? with
  | none =>
    rw [hinitializer] at h
    injection h with h
    exact h.symm
  | some initializer =>
    rw [hinitializer] at h
    have hyields : Yields (do
        let _ ← apply run (← bindThis initializer (.object m.objects.size c)) arguments
        return Value.object m.objects.size c) (· = .object m.objects.size c) :=
      .after fun _ => .after fun _ => .pure rfl
    exact hyields _ _ _ h

end Eval

/-! ## Initializers and their objects -/

namespace Chronicle

variable {w : Chronicle} {around : Surroundings} {m : Machine} {f : Closure}

/-- The innermost frame around a piece of code is for no use of a method. -/
theorem Seats.head_ne_receiver {i : Nat} {chain outer : List Nat} (h : w.Seats (i :: chain) around)
    {address : Nat} {c : Class} : ¬w.Made i (.receiver address c) outer := by
  intro hmade
  cases h with
  | globals hi => exact nomatch hi.inj hmade
  | block hi => exact nomatch hi.inj hmade
  | function hi => exact nomatch hi.inj hmade
  | method hi => exact nomatch hi.inj hmade
  | inheriting hi => exact nomatch hi.inj hmade

/-- A function whose own scope binds `this` to an object is a method; if it has the name of
initializers then it is one. -/
theorem Function.isInitializer_of_this (hf : w.Function f) (hm : w.Holds m)
    (hname : f.name = "init") {address : Nat} {c : Class}
    (hthis : m.store.getLocal? f.scope "this" = some (.object address c)) :
    f.isInitializer = true := by
  cases hf with
  | plain _ hseats _ _ =>
    rcases hm.this hthis with ⟨address', d, outer, hmade⟩ | ⟨-, index, hnative⟩
    · exact absurd hmade hseats.head_ne_receiver
    · exact nomatch hnative
  | bound hmethod _ =>
    rw [hmethod.isInitializer]
    exact beq_iff_eq.2 hname

/-- A call of an initializer gives back what its own scope binds `this` to. -/
theorem Ready.initializer_done {n id line : Nat} {arguments : List Value} {value : Value}
    {k : Machine} (h : w.Ready around ⟨n, .call (.function id f) line arguments, m⟩)
    (hinit : f.isInitializer = true)
    (hrun : Eval.call (Eval.stmts n) (.function id f) line arguments m = .done value k) :
    m.store.getLocal? f.scope "this" = some value := by
  obtain ⟨hlength, hdepth, k', hbody⟩ := Eval.call_done rfl hrun
  obtain ⟨w', around', -, hready⟩ := h.starts (.callFunction hlength hdepth) (keeping n)
  obtain ⟨w'', -, -, -, hthis⟩ := ((keeping n).apply hready).of_done hbody
  exact (hthis hinit).symm

/-- The address of a known object was given out before. -/
theorem Good.lt_of_object {value : Value} (h : w.Good value) (honest : w.Honest) (hm : w.Holds m)
    {i : Nat} {d : Class} (hvalue : value = .object i d) : i < m.objects.size := by
  subst hvalue
  exact hm.objects ▸ h.2 honest

end Chronicle

/-- The visit takes a method from an object: as a property of it, or after `super`. -/
def Visit.Takes (u : Visit) (method object : Value) : Prop :=
  ∃ x e c name m n, u.task = .expr x e ∧
    Dispatches c name object m (Eval.expr u.budget e u.machine) ∧
    Eval.expr u.budget e u.machine = .done method n

/-- The machine is that at the beginning of the visit or at its end. -/
def Visit.Sees (u : Visit) (m : Machine) : Prop :=
  m = u.machine ∨ m = u.after

/-- The value is there before the machine goes on: a frame or an object holds it, or an expression
has come to it. Objects are never given up, so there were no more of them at that time. -/
def Machine.Remembers (m : Machine) (met : Visit → Prop) (value : Value) : Prop :=
  m.Stores value ∨ ∃ u x e n, met u ∧ u.task = .expr x e ∧
    Eval.expr u.budget e u.machine = .done value n ∧ n.objects.size ≤ m.objects.size

/-- A method that was taken from an object has a scope that binds `this` to the object. -/
theorem Visit.Takes.this {u : Visit} {id : Nat} {f : Closure} {object : Value}
    (h : u.Takes (.function id f) object) :
    ∃ x e n, u.task = .expr x e ∧ Eval.expr u.budget e u.machine = .done (.function id f) n ∧
      n.store.getLocal? f.scope "this" = some object := by
  obtain ⟨x, e, c, name, m, n, htask, hdispatches, hrun⟩ := h
  refine ⟨x, e, n, htask, hrun, ?_⟩
  rw [hrun] at hdispatches
  cases hdispatches with
  | bound _ =>
    rw [Store.getLocal?, Store.frame_push, if_pos rfl]
    rfl

namespace Session

variable {s : Session} {past : Visit → Prop} {budget : Nat} {source : String}

/-- What a session has come to before a run or in it is over when the run is. -/
theorem History.met_onward (h : s.History past) {u : Visit}
    (hu : past u ∨ s.Visits budget source u) :
    u.machine.Onward u.after ∧ u.after.Onward (s.run budget source).2.machine ∧
      ∃ (w : Chronicle) (around : Surroundings), w.Ready around u := by
  have hrun := h.act (.run budget source)
  have hu : past u ∨ s.Meets (.run budget source) u :=
    hu.imp_right fun hu => ⟨budget, source, rfl, hu⟩
  exact ⟨(hrun.onward hu).1, (hrun.onward hu).2, hrun.past_ready hu⟩

/-- A frame other than that of the globals binds `this` to the same in all machines that have it. -/
theorem History.this_eq (h : s.History past) {u u' : Visit}
    (hu : past u ∨ s.Visits budget source u) (hu' : past u' ∨ s.Visits budget source u')
    {m m' : Machine} (hm : u.Sees m) (hm' : u'.Sees m') {i : Nat} (hpos : 0 < i)
    (hi : i < m.store.frames.size) (hi' : i < m'.store.frames.size) :
    Bindings.get? (m.store.frame i) "this" = Bindings.get? (m'.store.frame i) "this" := by
  have honward {u : Visit} (hu : past u ∨ s.Visits budget source u) {m : Machine}
      (hm : u.Sees m) : m.Onward (s.run budget source).2.machine := by
    obtain ⟨hafter, hlast, -⟩ := h.met_onward hu
    rcases hm with rfl | rfl
    · exact hafter.trans hlast
    · exact hlast
  exact (honward hu hm).this_eq (honward hu' hm') hpos hi hi'

/-- An object that a machine remembers has an address that was given out before. -/
theorem History.lt_of_remembers (h : s.History past) {m : Machine} {w : Chronicle} (hm : w.Holds m)
    (hnatives : w.natives = s.machine.natives)
    (honest : ∀ native ∈ s.machine.natives, native.Honest) {value : Value}
    (hvalue : m.Remembers (fun u => past u ∨ s.Visits budget source u) value) {i : Nat} {d : Class}
    (hobject : value = .object i d) : i < m.objects.size := by
  rcases hvalue with hstores | ⟨⟨b, _, k⟩, x, e, n, hu, rfl, hrun, hle⟩
  · exact (hm.good hstores).lt_of_object (fun native hn => honest native (hnatives ▸ hn)) hm hobject
  · obtain ⟨-, hlast, w', around, hready⟩ := h.met_onward hu
    obtain ⟨w'', -, hn, hgood⟩ := ((Chronicle.keeping b).expr hready).of_done hrun
    have hend : (⟨b, .expr x e, k⟩ : Visit).after = n := congrArg Ending.machine hrun
    have honest' : w''.Honest := by
      intro native hnative
      rw [hn.natives, ← hend] at hnative
      exact honest native (h.natives_run budget source ▸ hlast.natives native hnative)
    exact Nat.lt_of_lt_of_le (hgood.lt_of_object honest' hn hobject) hle

/-- Wherever an initializer is called that was once taken from an object, its scope still binds
`this` to the object. -/
theorem History.this_of_takes (h : s.History past) {v : Visit} (hv : s.Visits budget source v)
    {w : Chronicle} (hm : w.Holds v.machine) {f : Closure} (hf : w.Function f)
    (hname : f.name = "init") {u : Visit} (hu : past u ∨ s.Visits budget source u)
    {id address : Nat} {c : Class} (htakes : u.Takes (.function id f) (.object address c)) :
    v.machine.store.getLocal? f.scope "this" = some (.object address c) := by
  obtain ⟨b, _, k⟩ := u
  obtain ⟨x, e, n, rfl, hrun, hthis⟩ := htakes.this
  obtain ⟨-, -, w', around, hready⟩ := h.met_onward hu
  obtain ⟨w'', -, hn, hgood⟩ := ((Chronicle.keeping b).expr hready).of_done hrun
  have hinit := Chronicle.Function.isInitializer_of_this hgood hn hname hthis
  cases hf with
  | plain hplain _ _ _ => exact nomatch hplain.symm.trans hinit
  | @bound g t address' d _ hmade =>
    have hpos : 0 < t := by
      refine Nat.pos_of_ne_zero ?_
      rintro rfl
      exact nomatch hmade.inj hm.root
    have hend : n = (⟨b, .expr x e, k⟩ : Visit).after := (congrArg Ending.machine hrun).symm
    exact (h.this_eq (.inr hv) hu (.inl rfl) (.inr hend) hpos
      (Store.lt_of_bound (hm.receivers hmade)) (Store.lt_of_bound hthis)).trans hthis

/-- The call of a class takes as many arguments as the first initializer along the chain has
parameters, and none if there is no initializer. If it has a value then this is the next object, and
equal to no value that was there before, unless the host makes up objects. The scope of an
initializer binds `this` to an object, and the call of a method with that name has no other value
than the object that its scope binds `this` to, from which it was taken at whatever time. And what a
frame other than that of the globals binds `this` to never changes. -/
theorem initializers_give_objects {s : Session} {past : Visit → Prop} (h : s.History past)
    {budget : Nat} {source : String} :
    let met u := past u ∨ s.Visits budget source u
    (∀ {n c line arguments k value m},
      s.Visits budget source ⟨n, .call (.classValue c) line arguments, k⟩ →
      Eval.call (Eval.stmts n) (.classValue c) line arguments k = .done value m →
        (∃ found, c.Selects "init" found ∧
          arguments.length = (found.map Closure.arity).getD 0) ∧
        value = .object k.objects.size c ∧
        ((∀ native ∈ s.machine.natives, native.Honest) → ∀ other,
          other ∈ arguments ∨ k.Remembers met other → value.equals other = false)) ∧
    (∀ {n id f line arguments k},
      s.Visits budget source ⟨n, .call (.function id f) line arguments, k⟩ →
        (f.isInitializer = true →
          ∃ address c, k.store.getLocal? f.scope "this" = some (.object address c)) ∧
        ∀ {address c value m}, f.name = "init" →
          k.store.getLocal? f.scope "this" = some (.object address c) ∨
            (∃ u, met u ∧ u.Takes (.function id f) (.object address c)) →
          Eval.call (Eval.stmts n) (.function id f) line arguments k = .done value m →
            value = .object address c) ∧
    ∀ {u u' m m' i}, met u → met u' → u.Sees m → u'.Sees m' → 0 < i →
      i < m.store.frames.size → i < m'.store.frames.size →
        Bindings.get? (m.store.frame i) "this" = Bindings.get? (m'.store.frame i) "this" := by
  intro met
  refine ⟨fun {n c line arguments k value m} hv hrun => ?_,
    fun {n id f line arguments k} hv => ?_, fun hu hu' hm hm' => h.this_eq hu hu' hm hm'⟩
  · obtain ⟨w, around, -, hnatives, hready⟩ := h.ready hv
    obtain ⟨hlength, -, k', hbody⟩ := Eval.call_done rfl hrun
    obtain rfl := Eval.construct_done hbody
    refine ⟨⟨_, c.selects_method? "init", hlength⟩, rfl, fun honest other hother => ?_⟩
    refine Value.equals_older fun {i d} hobject => ?_
    rcases hother with hother | hother
    · have honest : w.Honest := fun native hn => honest native (hnatives ▸ hn)
      exact (hready.fits.2 other hother).lt_of_object honest hready.machine hobject
    · exact h.lt_of_remembers hready.machine hnatives honest hother hobject
  · obtain ⟨w, around, -, -, hready⟩ := h.ready hv
    have hf : w.Function f := hready.fits.1
    refine ⟨fun hinit => ?_, fun {address c value m} hname hthis hrun => ?_⟩
    · obtain ⟨address, c, hthis, -⟩ := hf.this hinit hready.machine (.refl w) hready.machine
      exact ⟨address, c, hthis⟩
    · have hthis : k.store.getLocal? f.scope "this" = some (.object address c) := by
        rcases hthis with hthis | ⟨u, hu, htakes⟩
        · exact hthis
        · exact h.this_of_takes hv hready.machine hf hname hu htakes
      have hinit := hf.isInitializer_of_this hready.machine hname hthis
      exact Option.some.inj ((hready.initializer_done hinit hrun).symm.trans hthis)

/-- The argument of the outer call is an older object. The initializer of the new one is taken from
it and called once more. -/
theorem initializers_give_objects_twice :
    let s := start .unlimited 0
    let source := "class A{init(a){return;}}A(A(nil)).init(nil);"
    s.History (fun _ => False) ∧ (∀ native ∈ s.machine.natives, native.Honest) ∧
      ∃ (a : Class) (f : Closure) (u : Visit) (k k' : Machine),
        (s.Visits 9 source ⟨5, .call (.classValue a) 1 [.object 0 a], k⟩ ∧
          ∃ value m, Eval.call (Eval.stmts 5) (.classValue a) 1 [.object 0 a] k = .done value m ∧
            (∃ found, a.Selects "init" found ∧ 1 = (found.map Closure.arity).getD 0) ∧
            value = .object 1 a ∧ value.equals (.object 0 a) = false) ∧
        (s.Visits 9 source ⟨7, .call (.function 1 f) 1 [.nil], k'⟩ ∧ f.name = "init" ∧
          s.Visits 9 source u ∧ u.Takes (.function 1 f) (.object 1 a) ∧
          ∃ value m, Eval.call (Eval.stmts 7) (.function 1 f) 1 [.nil] k' = .done value m ∧
            value = .object 1 a) ∧
        Bindings.get? (k.store.frame 1) "this" = Bindings.get? (k'.store.frame 1) "this" := by
  intro s source
  let close : Token := ⟨.mark .rightParen, ")", 1⟩
  let word : Token := ⟨.identifier, "A", 1⟩
  let init : Token := ⟨.identifier, "init", 1⟩
  let param : Token := ⟨.identifier, "a", 1⟩
  let decl : FunctionDecl := ⟨init, [param], [.ret ⟨.keyword .returnWord, "return", 1⟩ none]⟩
  let inner : Expr := .call (.var ⟨1, word⟩) close [.literal .nil]
  let outer : Expr := .call (.var ⟨0, word⟩) close [inner]
  let whole : Expr := .call (.get outer init) close [.literal .nil]
  have hstatements : (Reading.ofSource source 0).statements =
      [.classDecl word none [decl], .expression whole] := by
    rw [Reading.ofSource, scan_eq]
    cbv
  let m := s.machine.learn ∅
  let a : Class := ⟨⟨0, "A", [⟨decl, ⟨0, []⟩, true⟩]⟩, []⟩
  let globals : Bindings Value := [("clock", .native 0), ("A", .classValue a)]
  let m₁ : Machine := { m with store := ⟨#[globals]⟩, nextId := 1 }
  let k : Machine :=
    { m₁ with
      store := ⟨#[globals, [("this", .object 0 a)], [("a", .nil)]]⟩
      objects := #[[]] }
  let m₂ : Machine :=
    { k with
      store := ⟨(k.store.frames.push [("this", .object 1 a)]).push [("a", .object 0 a)]⟩
      objects := #[[], []] }
  let k' : Machine :=
    { m₂ with store := ⟨m₂.store.frames.push [("this", .object 1 a)]⟩, nextId := 2 }
  let f : Closure := ⟨decl, ⟨5, [0]⟩, true⟩
  have hclass : Eval.stmt 9 (.classDecl word none [decl]) m = .done .normal m₁ := rfl
  have hword : Eval.lookUp ⟨0, word⟩ m₁ = .done (.classValue a) m₁ := rfl
  have hinner : Eval.exprs 5 [inner] m₁ = .done [.object 0 a] k := rfl
  have hcall : Eval.call (Eval.stmts 5) (.classValue a) 1 [.object 0 a] k =
    .done (.object 1 a) m₂ := rfl
  have houter : Eval.expr 6 outer m₁ = .done (.object 1 a) m₂ := by
    simp only [outer, Eval.expr]
    rw [Step.bind_of_done hword, Step.bind_of_done hinner]
    exact hcall
  have hget : Eval.expr 7 (.get outer init) m₁ = .done (.function 1 f) k' := by
    simp only [Eval.expr]
    rw [Step.bind_of_done houter]
    rfl
  have hmeets {v : Visit} (hv : LoxLang.Visits ⟨8, .expr none whole, m₁⟩ v) :
      s.Visits 9 source v := by
    refine visits_of_statements ∅ hstatements (by decide +kernel) rfl ?_
    exact .head (.programTail hclass) (.head .programHead (.head .expression hv))
  have hs : s.History fun _ => False := .start _ _
  have honest := start_honest .unlimited 0
  have hmade : s.Visits 9 source ⟨5, .call (.classValue a) 1 [.object 0 a], k⟩ :=
    hmeets (.head .callee (.head .getObject (.head (.call hword hinner) .refl)))
  have hcalled : s.Visits 9 source ⟨7, .call (.function 1 f) 1 [.nil], k'⟩ :=
    hmeets (.head (.call hget rfl) .refl)
  have htaken : s.Visits 9 source ⟨7, .expr none (.get outer init), m₁⟩ :=
    hmeets (.head .callee .refl)
  have htakes : Visit.Takes ⟨7, .expr none (.get outer init), m₁⟩ (.function 1 f) (.object 1 a) :=
    ⟨none, _, a, init, m₂, k', rfl, (Eval.get_of_object init houter).2 rfl, hget⟩
  have hresult : ∃ n, Eval.call (Eval.stmts 7) (.function 1 f) 1 [.nil] k' =
    .done (.object 1 a) n := ⟨_, rfl⟩
  obtain ⟨n, hresult⟩ := hresult
  obtain ⟨hclasses, hfunctions, hframes⟩ :=
    @initializers_give_objects s (fun _ => False) hs 9 source
  obtain ⟨hselects, hvalue, hnew⟩ := hclasses hmade hcall
  exact ⟨hs, honest, a, f, _, k, k',
    ⟨hmade, _, _, hcall, hselects, hvalue, hnew honest _ (.inl (.head _))⟩,
    ⟨hcalled, rfl, htaken, htakes, _, _, hresult,
      (hfunctions hcalled).2 rfl (.inr ⟨_, .inr htaken, htakes⟩) hresult⟩,
    hframes (.inr hmade) (.inr hcalled) (.inl rfl) (.inl rfl) (by decide) (by decide) (by decide)⟩

end Session

end LoxLang
