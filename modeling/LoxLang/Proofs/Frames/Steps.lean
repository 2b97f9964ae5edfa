import LoxLang.Proofs.Copies.Machines
import LoxLang.Proofs.Frames.Origins

/-!
# Steps and their chronicle

Each step of evaluation leaves a machine that a chronicle describes, and this chronicle tells all
that was told before. Only where a frame is made is there something new to tell.

1. `Chronicle.Leaves.bind`: steps one after another.
2. `Chronicle.Holds.put`, `Chronicle.Holds.push`: what is written, and what is made.
3. `Chronicle.leaves_property`, `Chronicle.leaves_native`: operations of the machine.
-/

namespace LoxLang

theorem Closure.mem_of_get?_contents {closure : Closure} {arguments : List Value} {x : String}
    {v : Value} (h : Bindings.get? (closure.contents arguments) x = some v) :
    x ∈ closure.decl.params.map Token.lexeme ∧ v ∈ arguments :=
  (Bindings.mem_of_get?_zip h).resolve_right (Option.some_ne_none v).symm

namespace Store

variable {α : Type}

/-- A frame keeps its bindings when another name is bound, or a name in another frame. -/
theorem get?_put_of_ne {store : Store α} {i j : Nat} {name x : String} {v : α}
    (h : j ≠ i ∨ name ≠ x) :
    Bindings.get? ((store.put i name v).frame j) x = Bindings.get? (store.frame j) x := by
  unfold frame put
  rw [Array.getElem?_modify]
  split
  · next hij =>
    cases store.frames[j]? with
    | none => rfl
    | some bindings =>
      have hx : name ≠ x := h.resolve_left (not_not_intro hij.symm)
      rw [Option.map_some, Option.getD_some, Option.getD_some, Bindings.get?_put,
        if_neg hx.symm]
  · rfl

/-- A frame is made, and all others stay as they are. -/
theorem frame_push (store : Store α) (contents : Bindings α) (i : Nat) :
    (⟨store.frames.push contents⟩ : Store α).frame i =
      if i = store.frames.size then contents else store.frame i := by
  simp only [frame, Array.getElem?_push]
  split <;> rfl

end Store

namespace Chronicle

open Step

variable {w w' : Chronicle} {m : Machine} {α β : Type}

/-! ## Steps one after another -/

/-- However a step has ended, a chronicle that tells all that this one does describes the machine,
and the value if there is one. -/
def Leaves (w : Chronicle) (R : Chronicle → α → Prop) : Outcome α → Prop
  | .done a m => ∃ w', w.Le w' ∧ w'.Holds m ∧ R w' a
  | .failed _ m => ∃ w', w.Le w' ∧ w'.Holds m
  | .exhausted m => ∃ w', w.Le w' ∧ w'.Holds m

namespace Leaves

variable {R Q : Chronicle → α → Prop}

theorem done {a : α} (hm : w.Holds m) (h : R w a) : w.Leaves R (.done a m) :=
  ⟨w, .refl w, hm, h⟩

theorem pure {a : α} (hm : w.Holds m) (h : R w a) : w.Leaves R ((Pure.pure a : Eval α) m) :=
  done hm h

theorem exhausted (hm : w.Holds m) : w.Leaves R ((Step.exhausted : Eval α) m) :=
  ⟨w, .refl w, hm⟩

theorem fail (hm : w.Holds m) (line : Nat) (fault : RuntimeFault) :
    w.Leaves R ((Step.fail line fault : Eval α) m) :=
  ⟨w, .refl w, hm⟩

theorem lift (hm : w.Holds m) (line : Nat) {result : Except RuntimeFault α}
    (h : ∀ a, result = .ok a → R w a) : w.Leaves R ((Step.lift line result : Eval α) m) := by
  cases result with
  | ok a => exact pure hm (h a rfl)
  | error fault => exact fail hm line fault

theorem require (hm : w.Holds m) (line : Nat) (fault : RuntimeFault) {found : Option α}
    (h : ∀ a, found = some a → R w a) :
    w.Leaves R ((Step.require line fault found : Eval α) m) := by
  cases found with
  | some a => exact pure hm (h a rfl)
  | none => exact fail hm line fault

theorem mono {ending : Outcome α} (h : w.Leaves R ending)
    (hR : ∀ {w' a}, w.Le w' → R w' a → Q w' a) : w.Leaves Q ending := by
  cases ending with
  | done a n =>
    obtain ⟨w', hw, hn, ha⟩ := h
    exact ⟨w', hw, hn, hR hw ha⟩
  | failed failure n => exact h
  | exhausted n => exact h

/-- What comes of a later chronicle comes of this one. -/
theorem before {ending : Outcome α} (hw : w.Le w') (h : w'.Leaves R ending) :
    w.Leaves R ending := by
  cases ending with
  | done a n =>
    obtain ⟨w'', hw', hn, ha⟩ := h
    exact ⟨w'', hw.trans hw', hn, ha⟩
  | failed failure n =>
    obtain ⟨w'', hw', hn⟩ := h
    exact ⟨w'', hw.trans hw', hn⟩
  | exhausted n =>
    obtain ⟨w'', hw', hn⟩ := h
    exact ⟨w'', hw.trans hw', hn⟩

/-- One step after another, the second from what the first leaves. -/
theorem next {first : Eval β} {next : β → Eval α} {Q : Chronicle → β → Prop}
    (h : w.Leaves Q (first m))
    (hnext : ∀ {b n}, first m = .done b n → (∃ w', w.Le w' ∧ w'.Holds n ∧ Q w' b) →
      w.Leaves R (next b n)) : w.Leaves R ((first >>= next) m) := by
  change w.Leaves R (Step.bind first next m)
  unfold Step.bind
  cases hrun : first m with
  | done b n =>
    rw [hrun] at h
    exact hnext hrun h
  | failed failure n =>
    rw [hrun] at h
    exact h
  | exhausted n =>
    rw [hrun] at h
    exact h

theorem bind {first : Eval β} {next : β → Eval α} {Q : Chronicle → β → Prop}
    (h : w.Leaves Q (first m))
    (hnext : ∀ {b n w'}, first m = .done b n → w.Le w' → w'.Holds n → Q w' b →
      w'.Leaves R (next b n)) : w.Leaves R ((first >>= next) m) := by
  refine h.next ?_
  rintro b n hrun ⟨w', hw, hn, hb⟩
  exact before hw (hnext hrun hw hn hb)

theorem of_done {step : Eval α} {a : α} {n : Machine} (h : w.Leaves R (step m))
    (hrun : step m = .done a n) : ∃ w', w.Le w' ∧ w'.Holds n ∧ R w' a := by
  rwa [hrun] at h

/-- To look at the machine changes nothing. -/
theorem look {view : Machine → β} {next : β → Eval α} (h : w.Leaves R (next (view m) m)) :
    w.Leaves R ((Step.look view >>= next) m) :=
  h

/-- The machine at the end. -/
theorem machine {ending : Outcome α} (h : w.Leaves R ending) :
    ∃ w', w.Le w' ∧ w'.Holds ending.machine := by
  cases ending with
  | done a n =>
    obtain ⟨w', hw, hn, -⟩ := h
    exact ⟨w', hw, hn⟩
  | failed failure n => exact h
  | exhausted n => exact h

theorem mapMachine {ending : Outcome α} {change : Machine → Machine} (h : w.Leaves R ending)
    (hchange : ∀ {w' : Chronicle} {n : Machine}, w'.Holds n → w'.Holds (change n)) :
    w.Leaves R (ending.mapMachine change) := by
  cases ending with
  | done a n =>
    obtain ⟨w', hw, hn, ha⟩ := h
    exact ⟨w', hw, hchange hn, ha⟩
  | failed failure n =>
    obtain ⟨w', hw, hn⟩ := h
    exact ⟨w', hw, hchange hn⟩
  | exhausted n =>
    obtain ⟨w', hw, hn⟩ := h
    exact ⟨w', hw, hchange hn⟩

theorem within {scope : Scope} {step : Eval α} (h : w.Leaves R (step { m with scope := scope })) :
    w.Leaves R (Eval.within scope step m) :=
  mapMachine h fun hn => { hn with }

theorem counted {step : Eval α} (h : w.Leaves R (step { m with depth := m.depth + 1 })) :
    w.Leaves R (Eval.counted step m) :=
  mapMachine h fun hn => { hn with }

end Leaves

/-! ## What is written, and what is made -/

namespace Holds

/-- A name is bound that is neither of the two words; the host may give any name to a function. -/
theorem put (hm : w.Holds m) {i : Nat} {name : String} {v : Value} (hv : w.Good v)
    (hname : (i = 0 ∧ ∃ index, v = .native index) ∨ name ≠ "this" ∧ name ≠ "super") :
    w.Holds { m with store := m.store.put i name v } := by
  have hne {j : Nat} {purpose : Purpose} {outer : List Nat} (hmade : w.Made j purpose outer)
      (hpurpose : purpose ≠ .globals) : j ≠ 0 := by
    rintro rfl
    injection hm.root.symm.trans hmade with horigin
    injection horigin with hglobals
    exact hpurpose hglobals.symm
  have hkeeps {j : Nat} (hj : j ≠ 0) :
      Bindings.get? ((m.store.put i name v).frame j) "this" =
          Bindings.get? (m.store.frame j) "this" ∧
        Bindings.get? ((m.store.put i name v).frame j) "super" =
          Bindings.get? (m.store.frame j) "super" := by
    rcases hname with ⟨rfl, -⟩ | ⟨hthis, hsuper⟩
    · exact ⟨Store.get?_put_of_ne (.inl hj), Store.get?_put_of_ne (.inl hj)⟩
    · exact ⟨Store.get?_put_of_ne (.inr hthis), Store.get?_put_of_ne (.inr hsuper)⟩
  refine { hm with
    frames := by simpa [Store.put] using hm.frames
    values := ?_, receivers := ?_, parents := ?_, this := ?_, super := ?_ }
  · intro j x u hu
    rcases Store.get?_of_put hu with ⟨-, -, rfl⟩ | hu
    · exact hv
    · exact hm.values hu
  · intro j address c outer hmade
    rw [(hkeeps (hne hmade Purpose.noConfusion)).1, hm.receivers hmade]
  · intro j c methods outer hmade
    rw [(hkeeps (hne hmade Purpose.noConfusion)).2, hm.parents hmade]
  · intro j u hu
    rcases Store.get?_of_put hu with ⟨rfl, rfl, rfl⟩ | hu
    · exact .inr (hname.resolve_right fun h => h.1 rfl)
    · exact hm.this hu
  · intro j u hj hu
    rw [(hkeeps (Nat.ne_of_gt hj)).2] at hu
    exact hm.super hj hu

end Holds

/-- The chronicle after one more frame is made. -/
def push (w : Chronicle) (purpose : Purpose) (outer : List Nat) : Chronicle :=
  { w with origins := w.origins ++ [⟨purpose, outer⟩] }

section

variable {purpose purpose' : Purpose} {outer outer' : List Nat}

theorem le_push (w : Chronicle) (purpose : Purpose) (outer : List Nat) :
    w.Le (w.push purpose outer) :=
  { Le.refl w with origins := List.prefix_append _ _ }

theorem made_push (hm : w.Holds m) (purpose : Purpose) (outer : List Nat) :
    (w.push purpose outer).Made m.store.frames.size purpose outer := by
  simp [Made, push, ← hm.frames]

theorem made_of_push {i : Nat} (h : (w.push purpose outer).Made i purpose' outer') :
    w.Made i purpose' outer' ∨ i = w.origins.length ∧ purpose' = purpose ∧ outer' = outer := by
  unfold Made push at h
  rcases Nat.lt_or_ge i w.origins.length with hi | hi
  · rw [List.getElem?_append_left hi] at h
    exact .inl h
  · obtain ⟨hlt, hsome⟩ := List.getElem?_eq_some_iff.1 h
    have hi : i = w.origins.length := by
      simp only [List.length_append, List.length_singleton] at hlt
      omega
    subst hi
    simp only [List.getElem_concat_length, Origin.mk.injEq] at hsome
    exact .inr ⟨rfl, hsome.1.symm, hsome.2.symm⟩

end

/-- A frame with these bindings may be made for this, inside these others. -/
structure Opens (w : Chronicle) (m : Machine) (purpose : Purpose) (outer : List Nat)
    (contents : Bindings Value) : Prop where
  values : ∀ {x v}, Bindings.get? contents x = some v → w.Good v
  receiver : ∀ {address c}, purpose = .receiver address c →
    Bindings.get? contents "this" = some (.object address c)
  parent : ∀ {c methods}, purpose = .parent c methods →
    Bindings.get? contents "super" = some (.classValue c)
  this : ∀ {v}, Bindings.get? contents "this" = some v → ∃ address c, purpose = .receiver address c
  super : ∀ {v}, Bindings.get? contents "super" = some v → ∃ c methods, purpose = .parent c methods
  call : ∀ {closure this}, purpose = .call closure this →
    outer = closure.scope.chain ∧ ∃ u arguments, w.past u ∧ u.task = .apply closure arguments ∧
      u.machine.store.frames.size = m.store.frames.size ∧
      u.machine.store.getLocal? closure.scope "this" = this
  declaration : ∀ {c methods}, purpose = .parent c methods →
    ∃ u name, w.past u ∧ u.task = .makeClass name (some c) methods ∧
      u.machine.store.frames.size = m.store.frames.size ∧ u.machine.scope.chain = outer

theorem Holds.push {purpose : Purpose} {outer : List Nat} {contents : Bindings Value}
    (hm : w.Holds m) (h : w.Opens m purpose outer contents) :
    (w.push purpose outer).Holds { m with store := ⟨m.store.frames.push contents⟩ } := by
  have hle := w.le_push purpose outer
  have hmade := made_push hm purpose outer
  have hold {i : Nat} {purpose' : Purpose} {outer' : List Nat} (hi : w.Made i purpose' outer') :
      i ≠ m.store.frames.size :=
    Nat.ne_of_lt (hm.frames ▸ (List.getElem?_eq_some_iff.1 hi).1)
  refine { hm with
    frames := by simp [Chronicle.push, hm.frames]
    root := hm.root.mono hle
    values := ?_, fields := fun hv => (hm.fields hv).mono hle, receivers := ?_, parents := ?_
    this := ?_, super := ?_, calls := ?_, declarations := ?_ }
  · intro i x v hv
    rcases Store.get?_of_push hv with hv | hv
    · exact (h.values hv).mono hle
    · exact (hm.values hv).mono hle
  · intro i address c outer' hi
    rcases made_of_push hi with hi | ⟨rfl, hp, -⟩
    · rw [Store.frame_push, if_neg (hold hi), hm.receivers hi]
    · rw [Store.frame_push, if_pos hm.frames, h.receiver hp.symm]
  · intro i c methods outer' hi
    rcases made_of_push hi with hi | ⟨rfl, hp, -⟩
    · rw [Store.frame_push, if_neg (hold hi), hm.parents hi]
    · rw [Store.frame_push, if_pos hm.frames, h.parent hp.symm]
  · intro i v hv
    rw [Store.frame_push] at hv
    split at hv
    · next hsize =>
      obtain ⟨address, c, rfl⟩ := h.this hv
      exact .inl ⟨address, c, outer, hsize ▸ hmade⟩
    · exact (hm.this hv).imp_left fun ⟨address, c, outer', hi⟩ => ⟨address, c, outer', hi.mono hle⟩
  · intro i v hi hv
    rw [Store.frame_push] at hv
    split at hv
    · next hsize =>
      obtain ⟨c, methods, rfl⟩ := h.super hv
      exact ⟨c, methods, outer, hsize ▸ hmade⟩
    · obtain ⟨c, methods, outer', hi⟩ := hm.super hi hv
      exact ⟨c, methods, outer', hi.mono hle⟩
  · intro i closure this outer' hi
    rcases made_of_push hi with hi | ⟨rfl, hp, rfl⟩
    · exact hm.calls hi
    · obtain ⟨houter, u, arguments, hu, htask, hsize, hthis⟩ := h.call hp.symm
      exact ⟨houter, u, arguments, hu, htask, hsize.trans hm.frames.symm, hthis⟩
  · intro i c methods outer' hi
    rcases made_of_push hi with hi | ⟨rfl, hp, rfl⟩
    · exact hm.declarations hi
    · obtain ⟨u, name, hu, htask, hsize, hscope⟩ := h.declaration hp.symm
      exact ⟨u, name, hu, htask, hsize.trans hm.frames.symm, hscope⟩

/-! ## Values that cannot be told apart -/

/-- A function is like itself alone, and only if the chronicle tells of it. -/
def likeness (w : Chronicle) : Likeness Scope Scope where
  function f f' := f = f' ∧ w.Function f
  method f f' := f = f' ∧ w.Method f
  function_name := by
    rintro f - ⟨rfl, -⟩
    rfl
  function_arity := by
    rintro f - ⟨rfl, -⟩
    rfl
  method_name := by
    rintro f - ⟨rfl, -⟩
    rfl
  method_arity := by
    rintro f - ⟨rfl, -⟩
    rfl

theorem methods_iff_alike {c : Class} : w.Methods c ↔ c.Alike w.likeness c := by
  constructor
  · intro h
    have hbodies : ∀ body ∈ c.chain, body.Alike w.likeness body := fun body hbody =>
      ⟨rfl, rfl, List.forall₂_same.2 fun m hm => ⟨rfl, h body hbody m hm⟩⟩
    obtain ⟨hbody, hancestors⟩ := List.forall_mem_cons.1 hbodies
    exact ⟨hbody, List.forall₂_same.2 hancestors⟩
  · intro h body hbody m hm
    have hsame := List.forall₂_same.1 h.chain body hbody
    exact (List.forall₂_same.1 hsame.methods m hm).2

theorem Good.alike {v : Value} (h : w.Good v) : v.Alike w.likeness v := by
  cases v with
  | nil => exact .nil
  | boolean value => exact .boolean value
  | number value => exact .number value
  | string contents => exact .string contents
  | native index => exact .native index
  | function id f => exact .function id ⟨rfl, h⟩
  | classValue c => exact .classValue (methods_iff_alike.1 h.methods)
  | object address c => exact .object address (methods_iff_alike.1 h.1.methods)

/-- A value that is like itself is known but for where its class comes from. -/
theorem good_of_alike {v : Value} (h : v.Alike w.likeness v)
    (hclass : v.class?.isSome → w.Honest → w.Good v) : w.Good v := by
  cases h with
  | function id hf => exact hf.2
  | classValue hc =>
    exact ⟨methods_iff_alike.2 hc, fun honest => (hclass rfl honest).lineage honest⟩
  | object address hc =>
    exact ⟨⟨methods_iff_alike.2 hc, fun honest => (hclass rfl honest).1.lineage honest⟩,
      fun honest => (hclass rfl honest).2 honest⟩
  | _ => trivial

/-! ## Variables -/

theorem leaves_target (hm : w.Holds m) (o : Occurrence) :
    w.Leaves (fun _ _ => True) (Eval.target o m) :=
  Leaves.require hm _ _ fun _ _ => trivial

theorem leaves_lookUp (hm : w.Holds m) (o : Occurrence) : w.Leaves Good (Eval.lookUp o m) := by
  refine (leaves_target hm o).bind ?_
  intro address n w' _ _ hn _
  exact Leaves.require hn _ _ fun v hv => hn.values hv

theorem leaves_put (hm : w.Holds m) (i : Nat) {name : String} {v : Value} (hv : w.Good v)
    (hname : name ≠ "this" ∧ name ≠ "super") :
    w.Leaves (fun _ _ => True) (Eval.put i name v m) :=
  .done (hm.put hv (.inr hname)) trivial

theorem leaves_define (hm : w.Holds m) {name : String} {v : Value} (hv : w.Good v)
    (hname : IsName name) : w.Leaves (fun _ _ => True) (Eval.define name v m) :=
  leaves_put hm m.scope.frame hv ⟨hname.ne_this, hname.ne_super⟩

theorem leaves_assign (hm : w.Holds m) {o : Occurrence} {v : Value} (hv : w.Good v)
    (hname : o.name ≠ "this" ∧ o.name ≠ "super") :
    w.Leaves (fun _ _ => True) (Eval.assign o v m) := by
  refine (leaves_target hm o).bind ?_
  intro address n w' _ hw hn _
  exact leaves_put hn address (hv.mono hw) hname

theorem leaves_assignClass (hm : w.Holds m) {name : Token} {v : Value} (hv : w.Good v)
    (hname : IsName name.lexeme) : w.Leaves (fun _ _ => True) (Eval.assignClass name v m) := by
  have howner : w.Leaves (fun _ _ => True) ((require name.line (.unboundClass name.lexeme)
      (m.store.owner? m.scope.chain name.lexeme) : Eval Nat) m) :=
    Leaves.require hm _ _ fun _ _ => trivial
  refine Leaves.look (howner.bind ?_)
  intro address n w' _ hw hn _
  exact leaves_put hn address (hv.mono hw) ⟨hname.ne_this, hname.ne_super⟩

theorem leaves_implicit (hm : w.Holds m) (distance : Nat) (name : String) (line : Nat) :
    w.Leaves Good (Eval.implicit distance name line m) := by
  refine Leaves.require hm _ _ fun v hv => ?_
  obtain ⟨around, -, hv⟩ := Option.bind_eq_some_iff.1 hv
  exact hm.values hv

/-! ## Functions and objects -/

theorem leaves_function (hm : w.Holds m) {f : Closure} (hf : w.Function f) :
    w.Leaves Good (Eval.function f m) :=
  .done { hm with } hf

/-- A frame is made for the use of a method on an object. -/
theorem leaves_bindThis (hm : w.Holds m) {f : Closure} (hf : w.Method f) {address : Nat} {c : Class}
    (hobject : w.Good (.object address c)) :
    w.Leaves (fun w' g => w'.Function g ∧ g.isInitializer = f.isInitializer ∧ g.decl = f.decl ∧
      w'.Made g.scope.frame (.receiver address c) f.scope.chain)
      (Eval.bindThis f (.object address c) m) := by
  have hopens : w.Opens m (.receiver address c) f.scope.chain [("this", .object address c)] := by
    refine ⟨fun {x v} hv => ?_, ?_, nofun, ?_, ?_, nofun, nofun⟩
    · rw [Bindings.get?_cons] at hv
      split at hv
      · exact Option.some.inj hv ▸ hobject
      · exact nomatch hv
    · rintro _ _ ⟨rfl, rfl⟩
      rfl
    · exact fun _ => ⟨address, c, rfl⟩
    · intro v hv
      exact nomatch hv
  have hw := w.le_push (.receiver address c) f.scope.chain
  have hmade := made_push hm (.receiver address c) f.scope.chain
  exact ⟨_, hw, hm.push hopens, .bound (hf.mono hw) hmade, rfl, rfl, hmade⟩

theorem leaves_method (hm : w.Holds m) {f : Closure} (hf : w.Method f) {address : Nat} {c : Class}
    (hobject : w.Good (.object address c)) :
    w.Leaves Good ((do Eval.function (← Eval.bindThis f (.object address c))) m) := by
  refine (leaves_bindThis hm hf hobject).bind ?_
  intro g n w' _ _ hn hg
  exact leaves_function hn hg.1

theorem leaves_property (hm : w.Holds m) {address : Nat} {c : Class}
    (hobject : w.Good (.object address c)) (name : Token) :
    w.Leaves Good (Eval.property address c name m) := by
  refine Leaves.bind (Q := fun w' v? => ∀ v ∈ v?, w'.Good v) (.done hm ?_) ?_
  · exact fun v hv => hm.fields (Option.mem_def.1 hv)
  · intro v? n w' _ hw hn hv
    cases v? with
    | some v => exact .pure hn (hv v rfl)
    | none =>
      refine Leaves.bind (Q := Method) (Leaves.require hn _ _ fun f hf => ?_) ?_
      · exact (hobject.1.mono hw).method hf
      · intro f k w'' _ hw' hk hf
        exact leaves_method hk hf (hobject.mono (hw.trans hw'))

theorem leaves_inherited (hm : w.Holds m) (line : Nat) (method : Token) {parent this : Value}
    (hparent : w.Good parent) (hthis : w.Good this) :
    w.Leaves Good (Eval.inherited line method parent this m) := by
  unfold Eval.inherited
  split
  · next c address d =>
    refine Leaves.bind (Q := Method) (Leaves.require hm _ _ fun f hf => ?_) ?_
    · exact Pedigree.method hparent hf
    · intro f n w' _ hw hn hf
      exact leaves_method hn hf (hthis.mono hw)
  · exact .fail hm line _

theorem leaves_superMethod (hm : w.Holds m) (o : Occurrence) (method : Token) :
    w.Leaves Good (Eval.superMethod o method m) := by
  have hdistance : w.Leaves (fun _ _ => True)
      ((require o.token.line .superOutsideClass m.distances[o.id]? : Eval Nat) m) :=
    Leaves.require hm _ _ fun _ _ => trivial
  refine Leaves.look (hdistance.bind ?_)
  intro distance n w' _ _ hn _
  refine (leaves_implicit hn _ _ _).bind ?_
  intro parent k w'' _ _ hk hparent
  refine (leaves_implicit hk _ _ _).bind ?_
  intro this j w₃ _ hw hj hthis
  exact leaves_inherited hj _ _ (hparent.mono hw) hthis

theorem leaves_newObject (hm : w.Holds m) {c : Class} (hc : w.Pedigree c) :
    w.Leaves (fun w' v => v = .object m.objects.size c ∧ w'.Good v) (Eval.newObject c m) := by
  let w' : Chronicle := { w with objects := w.objects + 1 }
  have hle : w.Le w' := { Le.refl w with objects := Nat.le_succ _ }
  refine ⟨w', hle, ?_, rfl, hc.mono hle, fun _ => ?_⟩
  · exact { hm with
      root := hm.root.mono hle
      values := fun hv => (hm.values hv).mono hle
      fields := fun {i x v} hv => by
        rw [Array.getElem?_push] at hv
        split at hv
        · exact nomatch hv
        · exact (hm.fields hv).mono hle
      objects := by simp [w', hm.objects] }
  · rw [← hm.objects]
    exact Nat.lt_succ_self _

theorem leaves_setField (hm : w.Holds m) (address : Nat) (name : String) {v : Value}
    (hv : w.Good v) : w.Leaves (fun _ _ => True) (Eval.setField address name v m) := by
  refine .done { hm with fields := fun {i x u} hu => ?_, objects := ?_ } trivial
  · rw [Array.getElem?_modify] at hu
    split at hu
    · next hi =>
      subst hi
      cases hfields : m.objects[address]? with
      | none =>
        rw [hfields] at hu
        exact nomatch hu
      | some bindings =>
        rw [hfields, Option.map_some, Option.getD_some, Bindings.get?_put] at hu
        split at hu
        · exact Option.some.inj hu ▸ hv
        · exact hm.fields (i := address) (by rw [hfields]; exact hu)
    · exact hm.fields hu
  · simpa using hm.objects

/-! ## The host -/

theorem leaves_printLine (hm : w.Holds m) (text : String) :
    w.Leaves (fun _ _ => True) (Eval.printLine text m) := by
  unfold Eval.printLine
  split
  · exact .done { hm with } trivial
  · exact ⟨w, .refl w, { hm with }⟩

theorem leaves_flush (hm : w.Holds m) : w.Leaves (fun _ _ => True) (Eval.flush m) := by
  unfold Eval.flush
  split
  · exact .done hm trivial
  · exact ⟨w, .refl w, hm⟩

/-- What a function of the host gives back is made of its arguments. -/
theorem leaves_native (hm : w.Holds m) (index line : Nat) {arguments : List Value}
    (harguments : ∀ v ∈ arguments, w.Good v) :
    w.Leaves Good (Eval.native index line arguments m) := by
  refine Leaves.look ?_
  cases hnative : m.natives[index]? with
  | none => exact .fail hm line _
  | some native =>
    have hmem : native ∈ m.natives := Array.mem_of_getElem? hnative
    have hsame := (hm.hosts native hmem).body
    have hhonest : w.Honest → native.Honest := fun h => h native (hm.natives ▸ hmem)
    unfold Native.Honest at hhonest
    simp only [Option.map_some]
    generalize native.body = body at hsame hhonest
    cases hsame with
    | clock => exact .done { hm with } trivial
    | @host run _ hrun =>
      refine Leaves.lift hm line fun v hv => ?_
      have halike := hrun w.likeness arguments arguments
        (List.forall₂_same.2 fun v hv => (harguments v hv).alike)
      cases hresult : run arguments with
      | error message =>
        rw [hresult] at hv
        exact nomatch hv
      | ok v' =>
        rw [hresult] at hv halike
        obtain rfl := Except.ok.inj hv
        refine good_of_alike halike fun hclass honest => ?_
        exact harguments _ (hhonest honest run rfl arguments _ hresult hclass)

end Chronicle

end LoxLang
