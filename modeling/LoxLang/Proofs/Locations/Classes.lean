import LoxLang.Proofs.Locations.Calls

/-!
# Classes in step

A class is declared before its methods are made, and gets its value after that. With a superclass
there is a scope between the class and its methods, which binds `super`.

1. `simulates_classDecl`: declarations of classes.
-/

namespace LoxLang

open Located (Places)

variable {w : World} {p : Spot} {m : Machine} {m' : Located.Machine}

/-- The superclass is looked up before the class is declared. -/
theorem simulates_superclass? {superclass : Option Occurrence}
    (h : ∀ o ∈ superclass, w.knowledge.Traces p.around o) (hp : p.pending = none) :
    Simulates w p
      (Stays p fun w' c c' => Option.Rel (Class.Alike w'.likeness) c c' ∧
        c.isSome = superclass.isSome)
      (Eval.superclass? superclass) (Located.Eval.superclass? superclass) := by
  cases superclass with
  | none => exact .pure ⟨rfl, .none, rfl⟩
  | some o =>
    refine (simulates_lookUp (h o rfl) (hp ▸ nofun)).bind ?_
    rintro w' p' v v' - - ⟨rfl, hv⟩
    cases hv with
    | classValue hc => exact .pure ⟨rfl, .some hc, rfl⟩
    | _ => exact simulates_fail _ _

/-- The scope in which methods are declared. -/
theorem Related.methodScope (hm : Related w p m m') (hp : p.pending = none)
    {parent : Option Class} {parent' : Option (Class Places)}
    (h : Option.Rel (Class.Alike w.likeness) parent parent') {superclass : Option Occurrence}
    (hs : parent.isSome = superclass.isSome) :
    ∃ w' scope places n n', Eval.methodScope parent m = .done scope n ∧
      Located.Eval.methodPlaces parent' m' = .done places n' ∧ w.Grows p.scope.frame w' ∧
      Related w' p n n' ∧ w'.Holds (p.around.inherit superclass) none scope places ∧
      n.scope = m.scope ∧
      ∀ g, g < m.store.frames.size → n.store.frame g = m.store.frame g := by
  have hholds := hm.present.holds
  rw [hp, ← hm.scope] at hholds
  cases h with
  | none =>
    cases superclass with
    | some _ => exact nomatch hs
    | none =>
      exact ⟨w, m.scope, m'.places.getD [], m, m', rfl, rfl, .refl w _, hm, hholds, rfl,
        fun _ _ => rfl⟩
  | @some c c' hc =>
    cases superclass with
    | none => exact nomatch hs
    | some _ =>
      have hsuper : w.Same (.classValue c) (.classValue c') := .classValue hc
      obtain ⟨w', hw, hm', hholds'⟩ := hm.openWith hholds "super" hsuper
      refine ⟨w', _, _, _, _, rfl, rfl, hw, hm', hholds', rfl, fun g hg => ?_⟩
      simp only [Store.frame]
      rw [Array.getElem?_push, if_neg (Nat.ne_of_lt hg)]

theorem Related.frame_lt (hm : Related w p m m') : m.scope.frame < m.store.frames.size := by
  obtain ⟨hc, hscope, hpresent⟩ := hm
  rw [hscope, hc.memory.frames]
  generalize m'.places = places at hpresent
  cases hpresent with
  | outside => exact hc.memory.root
  | inside _ hframe _ _ => exact hframe.2

/-- The value of a class goes where its name was declared. -/
theorem Related.assignClass (hm : Related w p m m') {name : Token} {l? : Option Nat}
    (hl : Declared w p name.lexeme l?)
    (hhas : Bindings.has (m.store.frame m.scope.frame) name.lexeme) {v : Value}
    {v' : Value Places} (hv : w.Same v v') :
    Ending.Alike
      (fun _ n _ n' => ∃ w' p', w.Grows p.scope.frame w' ∧ p'.scope = p.scope ∧
        Related w' p' n n' ∧ p' = p ∧ True)
      Eq (Broken w.knowledge p.scope) (Eval.assignClass name v m)
      (Located.Eval.define name.lexeme l? v' m') := by
  have howner : m.store.owner? m.scope.chain name.lexeme = some m.scope.frame := by
    simp only [Store.owner?, Scope.chain, List.find?_cons, hhas]
  have hassign : Eval.assignClass name v m =
      .done () { m with store := m.store.put m.scope.frame name.lexeme v } := by
    simp [Eval.assignClass, bind, Step.bind, Step.look, howner, Step.require, Step.pure, Eval.put,
      Step.change]
  rw [hassign]
  cases hl with
  | outside hp =>
    have hframe : m.scope.frame = 0 := by
      obtain ⟨scope, around, pending⟩ := p
      obtain rfl : around = [] := hp
      have hpresent := hm.present
      rw [hm.scope]
      generalize m'.places = places at hpresent
      cases hpresent
      rfl
    rw [hframe]
    exact .done ⟨w, p, .refl w _, rfl, hm.define name.lexeme hv, rfl, trivial⟩
  | @inside l hp ha =>
    rw [← hm.scope] at ha
    have hv' := hv.mono (w.grows_bind 0 l).le.likeness
    exact .done ⟨w.bind l, p, w.grows_bind _ l, rfl, hm.write ha hv', rfl, trivial⟩

theorem scoped_of_mem {k : Knowledge} {around : Surroundings} :
    {methods : List FunctionDecl} → FunctionDecl.AllScoped k around methods →
      ∀ decl ∈ methods, decl.Scoped k around
  | [], _, _, hm => nomatch hm
  | _ :: _, h, _, hm => by
    rcases List.mem_cons.1 hm with rfl | hm
    · exact h.1
    · exact scoped_of_mem h.2 _ hm

/-- Methods that are made in scopes of the same surroundings. -/
theorem sameMethods {around : Surroundings} {scope : Scope} {places : Places}
    (h : w.Holds around none scope places) {methods : List FunctionDecl}
    (hs : FunctionDecl.AllScoped w.knowledge (["this"] :: around) methods) :
    List.Forall₂ w.SameMethod (methods.map fun decl => ⟨decl, scope, decl.isInitializer⟩)
      (methods.map fun decl => ⟨decl, places, decl.isInitializer⟩) := by
  rw [List.forall₂_map_left_iff, List.forall₂_map_right_iff, List.forall₂_same]
  exact fun decl hm => ⟨rfl, rfl, around, h, scoped_of_mem hs decl hm⟩

/-- The superclass is not the class itself, so it is found where it was found before that was
declared. -/
theorem Stmt.Scoped.superclass {k : Knowledge} {around : Surroundings} {name : Token}
    {superclass : Option Occurrence} {methods : List FunctionDecl}
    (h : (Stmt.classDecl name superclass methods).Scoped k around) :
    ∀ o ∈ superclass, k.Traces around o := by
  intro o ho
  obtain ⟨hne, hid, hdistance⟩ := h.2.2.1 o ho
  exact ⟨hid, hdistance.trans (Surroundings.locate?_declare _ hne)⟩

theorem simulates_classDecl {name : Token} {superclass : Option Occurrence}
    {methods : List FunctionDecl}
    (h : (Stmt.classDecl name superclass methods).Scoped w.knowledge p.around)
    (hp : p.pending = none) :
    Simulates w p (Stays (p.declare name.lexeme).define fun _ _ _ => True)
      (Eval.classDecl name superclass methods)
      (Located.Eval.classDecl name superclass methods) := by
  have htraced := Stmt.Scoped.superclass h
  obtain ⟨hname, hfresh, -, hmethods⟩ := h
  refine (simulates_superclass? htraced hp).bind ?_
  rintro w₁ p₁ parent parent' hw₁ - ⟨rfl, hparent, hsome⟩
  unfold Eval.makeClass
  refine Simulates.declare hp hname hfresh fun w₂ l? hw₂ hl m m' hm => ?_
  obtain ⟨⟨⟩, n', hdefine', w₃, p₃, hw₃, -, hn, rfl, -⟩ :=
    (simulates_define hl (fun _ _ _ => .nil) m m' hm).of_done
  have hhas : Bindings.has ((m.store.define m.scope name.lexeme .nil).frame m.scope.frame)
      name.lexeme := by
    rw [Store.define, Store.frame_put _ _ _ _ _ hm.frame_lt, if_pos rfl]
    simp [Bindings.has, Bindings.get?_put]
  rw [Step.bind_of_done (show Eval.define name.lexeme .nil m = .done () _ from rfl),
    Step.bind_of_done hdefine']
  have hgrows := hw₂.trans hw₃
  have hparent₃ : Option.Rel (Class.Alike w₃.likeness) parent parent' := by
    cases hparent with
    | none => exact .none
    | some hc => exact .some (hc.mono hgrows.le.likeness)
  obtain ⟨w₄, scope, places, k, k', hscope, hplaces, hw₄, hk, hholds, hsame, hframes⟩ :=
    hn.methodScope rfl hparent₃ hsome
  rw [Step.bind_of_done hscope, Step.bind_of_done hplaces,
    Step.bind_of_done (show Eval.freshId k = .done k.nextId _ from rfl),
    Step.bind_of_done (show Located.Eval.freshId k' = .done k'.nextId _ from rfl)]
  have hw : w.Grows p₁.scope.frame w₄ := hw₁.trans (hgrows.trans hw₄)
  have hclass : Class.Alike w₄.likeness
      ⟨⟨k.nextId, name.lexeme, methods.map fun decl => ⟨decl, scope, decl.isInitializer⟩⟩,
        (parent.map Class.chain).getD []⟩
      ⟨⟨k'.nextId, name.lexeme, methods.map fun decl => ⟨decl, places, decl.isInitializer⟩⟩,
        (parent'.map Class.chain).getD []⟩ := by
    refine ⟨⟨hk.corresponds.nextId, rfl, sameMethods hholds (hw.knowledge.symm ▸ hmethods)⟩, ?_⟩
    cases hparent with
    | none => exact .nil
    | some hc => exact (hc.mono (hgrows.trans hw₄).le.likeness).chain
  have hk' : Related w₄ (p₁.declare name.lexeme).define { k with nextId := k.nextId + 1 }
      { k' with nextId := k'.nextId + 1 } := by
    obtain ⟨hc, hscope, hpresent⟩ := hk
    exact ⟨{ hc with nextId := congrArg Nat.succ hc.nextId }, hscope, hpresent⟩
  have hhas' : Bindings.has (k.store.frame k.scope.frame) name.lexeme := by
    rw [hsame, hframes _ hn.frame_lt]
    exact hhas
  have hl' : Declared w₄ (p₁.declare name.lexeme).define name.lexeme l? := by
    cases hl with
    | outside hp => exact .outside hp
    | inside hp ha => exact .inside hp (hw₄.places (hw₃.places ha))
  refine (hk'.assignClass hl' hhas' (.classValue hclass)).mono ?_ ?_
  · rintro u n u' n' ⟨w', p', hw', hp', hn', hq⟩
    exact ⟨w', p', hw₃.trans (hw₄.trans hw'), hp', hn', hq⟩
  · intro n n' hn'
    have hknowledge : w₄.knowledge = w₂.knowledge := hw₄.knowledge.trans hw₃.knowledge
    rwa [hknowledge] at hn'

end LoxLang
