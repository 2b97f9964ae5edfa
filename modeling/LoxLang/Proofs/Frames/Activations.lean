import LoxLang.Proofs.Frames.Evaluation
import LoxLang.Proofs.Safety.Sessions

/-!
# The call around a piece of code

Where `this` is bound, the innermost frame that binds it belongs to a method in use, and the frame
right inside it to the call of that method. All frames further in are those of blocks and of
functions that are nested in the method, however long ago the call was over. Where `super` is bound,
the frame right outside belongs to the declaration of the class of the method.

1. `Chronicle.Seats.activation`: in the frames around a place.
2. `Chronicle.Ready.this`, `Chronicle.Ready.super`: what the two words come to.
-/

namespace LoxLang

namespace Chronicle

variable {w : Chronicle} {around : Surroundings} {n : Nat} {m : Machine}

/-- Some frames from inside to outside: `f` is that of the call of a method, `t` right outside of it
is for the use of that method on an object, and no frame of `inner` is for the use of a method. -/
structure Activation (w : Chronicle) (chain inner : List Nat) (f t : Nat) (outer : List Nat)
    (closure : Closure) (address : Nat) (c : Class) : Prop where
  chain : chain = inner ++ f :: t :: outer
  call : w.Made f (.call closure (some (.object address c))) (t :: outer)
  receiver : w.Made t (.receiver address c) outer
  inner : ∀ i ∈ inner, ∃ purpose outer, w.Made i purpose outer ∧ purpose ≠ .globals ∧
    ∀ address c, purpose ≠ .receiver address c

/-- The innermost frame for the use of a method is so many frames out; and if `super` is declared
right outside of it then the next frame is for the declaration of that method with others. -/
def Encloses (w : Chronicle) (chain : List Nat) (around : Surroundings) (d : Nat) : Prop :=
  ∃ inner f t outer closure address c, w.Activation chain inner f t outer closure address c ∧
    inner.length + 1 = d ∧ (around.locate? "super" = some (d + 1) →
      ∃ q parent methods outer', outer = q :: outer' ∧ w.Made q (.parent parent methods) outer' ∧
        closure.decl ∈ methods)

theorem not_isName_this : ¬IsName "this" :=
  fun h => h.ne_this rfl

theorem not_isName_super : ¬IsName "super" :=
  fun h => h.ne_super rfl

/-- What is no name is not declared in a scope of names. -/
theorem locate?_of_names {names : List String} (hnames : ∀ x ∈ names, IsName x)
    {around : Surroundings} {x : String} (hx : ¬IsName x) {d : Nat}
    (h : Surroundings.locate? (names :: around) x = some d) :
    ∃ e, d = e + 1 ∧ around.locate? x = some e := by
  rw [Surroundings.locate?_cons, if_neg fun hmem => hx (hnames x hmem)] at h
  obtain ⟨e, he, rfl⟩ := Option.map_eq_some_iff.1 h
  exact ⟨e, rfl, he⟩

/-- A frame further in, of a block or of a function. -/
theorem Encloses.cons {chain : List Nat} {d : Nat} (h : w.Encloses chain around d) {i : Nat}
    {purpose : Purpose} {outer : List Nat} (hi : w.Made i purpose outer)
    (hglobals : purpose ≠ .globals) (hreceiver : ∀ address c, purpose ≠ .receiver address c)
    {names : List String} (hnames : ∀ x ∈ names, IsName x) :
    w.Encloses (i :: chain) (names :: around) (d + 1) := by
  obtain ⟨inner, f, t, outer', closure, address, c, ⟨hchain, hcall, ht, hinner⟩, rfl, hsuper⟩ := h
  refine ⟨i :: inner, f, t, outer', closure, address, c, ⟨?_, hcall, ht, ?_⟩, rfl, fun h => ?_⟩
  · rw [hchain, List.cons_append]
  · exact List.forall_mem_cons.2 ⟨⟨purpose, outer, hi, hglobals, hreceiver⟩, hinner⟩
  · obtain ⟨e, he, h⟩ := locate?_of_names hnames not_isName_super h
    exact hsuper (Nat.succ.inj he ▸ h)

/-- The innermost scope of a place is that of a block or of a function. -/
theorem Seats.super_ne_zero {chain : List Nat} (h : w.Seats chain around) :
    around.locate? "super" ≠ some 0 := by
  intro hsuper
  cases h with
  | globals _ => exact nomatch hsuper
  | block _ hnames _ | function _ hnames _ | method _ _ hnames _ | inheriting _ _ _ _ hnames _ =>
    obtain ⟨e, he, -⟩ := locate?_of_names hnames not_isName_super hsuper
    exact nomatch he

/-- Where `this` is declared so many scopes out, so many frames out is that of a method in use. -/
theorem Seats.activation {chain : List Nat} (h : w.Seats chain around) {d : Nat}
    (hthis : around.locate? "this" = some d) : w.Encloses chain around d := by
  induction h generalizing d with
  | globals _ => exact nomatch hthis
  | block hi hnames _ ih =>
    obtain ⟨e, rfl, hthis'⟩ := locate?_of_names hnames not_isName_this hthis
    exact (ih hthis').cons hi nofun nofun hnames
  | function hi hnames _ ih =>
    obtain ⟨e, rfl, hthis'⟩ := locate?_of_names hnames not_isName_this hthis
    exact (ih hthis').cons hi nofun nofun hnames
  | @method i t closure address c chain names around hi ht hnames hseats _ =>
    obtain ⟨e, rfl, hthis'⟩ := locate?_of_names hnames not_isName_this hthis
    obtain rfl : 0 = e := Option.some.inj hthis'
    refine ⟨[], i, t, chain, closure, address, c, ⟨rfl, hi, ht, nofun⟩, rfl, fun h => ?_⟩
    obtain ⟨e, he, hsuper⟩ := locate?_of_names hnames not_isName_super h
    rw [Surroundings.locate?_cons, if_neg (by decide)] at hsuper
    obtain ⟨k, hk, rfl⟩ := Option.map_eq_some_iff.1 hsuper
    obtain rfl : 0 = k := Nat.succ.inj (Nat.succ.inj he)
    exact absurd hk hseats.super_ne_zero
  | @inheriting i t q closure address c parent methods chain names around hi ht hq hdecl hnames =>
    obtain ⟨e, rfl, hthis'⟩ := locate?_of_names hnames not_isName_this hthis
    obtain rfl : 0 = e := Option.some.inj hthis'
    exact ⟨[], i, t, q :: chain, closure, address, c, ⟨rfl, hi, ht, nofun⟩, rfl, fun _ =>
      ⟨q, parent, methods, chain, rfl, hq, hdecl⟩⟩

theorem Made.inj {i : Nat} {purpose purpose' : Purpose} {outer outer' : List Nat}
    (h : w.Made i purpose outer) (h' : w.Made i purpose' outer') : purpose = purpose' := by
  injection h.symm.trans h' with horigin
  injection horigin

namespace Activation

variable {inner outer : List Nat} {f t : Nat} {closure : Closure} {address : Nat} {c : Class}

theorem getAt?_this (h : w.Activation m.scope.chain inner f t outer closure address c)
    (hm : w.Holds m) :
    m.store.getAt? m.scope (inner.length + 1) "this" = some (.object address c) := by
  refine Store.getAt?_of_chain ?_ (hm.receivers h.receiver)
  rw [h.chain]
  simp

/-- Between a place and the frame of the method in use, `this` is not bound. -/
theorem this_eq_none {chain : List Nat}
    (h : w.Activation chain inner f t outer closure address c) (hm : w.Holds m) :
    ∀ i ∈ inner, Bindings.get? (m.store.frame i) "this" = none := by
  intro i hi
  obtain ⟨purpose, outer, hmade, hglobals, hreceiver⟩ := h.inner i hi
  cases hv : Bindings.get? (m.store.frame i) "this" with
  | none => rfl
  | some v =>
    rcases hm.this hv with ⟨address, c, outer', hthis⟩ | ⟨rfl, -⟩
    · exact absurd (hmade.inj hthis) (hreceiver address c)
    · exact absurd (hmade.inj hm.root) hglobals

end Activation

end Chronicle

end LoxLang
