import LoxLang.Proofs.Alpha.Trees
import LoxLang.Proofs.Locations.Evaluation
import LoxLang.Proofs.Values.Bindings
import LoxLang.Proofs.Values.Endings

/-!
# Machines that run programs that are alike

Evaluation with locations knows neither the numbers of mentions nor, once a location is found, what
a variable is called. Two machines that run programs that are alike allocate the same locations and
hold values that are alike in them.

1. `Located.Alpha.SamePlaces.get?`: names that are paired have the same location.
2. `Located.Alpha.Moves.bind`: steps one after another.
3. `Located.Alpha.moves_declare`, `Located.Alpha.simulates_define`: declarations.
-/

namespace LoxLang.Located

namespace Alpha

/-- The same locations, under names that are paired. -/
inductive SamePlaces : Pairing → Places → Places → Prop
  | nil : SamePlaces [] [] []
  | cons (x x' : String) (location : Nat) {ρ : Pairing} {places places' : Places} :
      SamePlaces ρ places places' →
      SamePlaces ((x, x') :: ρ) ((x, location) :: places) ((x', location) :: places')

/-- Two places outside of all scopes, or inside. -/
inductive SamePlace : Option Pairing → Option Places → Option Places → Prop
  | outside : SamePlace none none none
  | inside {ρ : Pairing} {places places' : Places} : SamePlaces ρ places places' →
      SamePlace (some ρ) (some places) (some places')

/-- Names that are paired have the same location, or are the same and mean a global. -/
theorem SamePlaces.get? {ρ : Pairing} {places places' : Places} (h : SamePlaces ρ places places')
    {x x' : String} (hx : ρ.Pairs x x') :
    (∃ l, Bindings.get? places x = some l ∧ Bindings.get? places' x' = some l) ∨
      Bindings.get? places x = none ∧ Bindings.get? places' x' = none ∧ x = x' := by
  induction h with
  | nil => exact .inr ⟨rfl, rfl, hx⟩
  | cons y y' location _ ih =>
    rw [Bindings.get?_cons, Bindings.get?_cons]
    rcases hx with ⟨rfl, rfl⟩ | ⟨hy, hy', hx⟩
    · exact .inl ⟨location, if_pos rfl, if_pos rfl⟩
    · rw [if_neg hy, if_neg hy']
      exact ih hx

theorem SamePlace.known {ρ : Option Pairing} {places places' : Option Places}
    (h : SamePlace ρ places places') :
    SamePlaces (Pairing.known ρ) (places.getD []) (places'.getD []) := by
  cases h with
  | outside => exact .nil
  | inside h => exact h

section

variable (L : Nat → Nat → Prop)

/-- Two functions with the same meaning, declared where the same is known. -/
structure SameFunction (c c' : Closure Places) : Prop where
  isInitializer : c.isInitializer = c'.isInitializer
  code : ∃ ρ : Pairing, SamePlaces ρ c.scope c'.scope ∧ c.decl.Alike L ρ c'.decl ∧
    (c.isInitializer → ρ.Pairs "this" "this")

/-- Two methods with the same meaning, for which `this` is not known yet. -/
structure SameMethod (c c' : Closure Places) : Prop where
  isInitializer : c.isInitializer = c'.isInitializer
  code : ∃ ρ : Pairing, SamePlaces ρ c.scope c'.scope ∧
    c.decl.Alike L (("this", "this") :: ρ) c'.decl

/-- Functions are alike if they have the same meaning. -/
def likeness : Likeness Places Places where
  function := SameFunction L
  method := SameMethod L
  function_name := by
    rintro c c' ⟨-, ρ, -, h, -⟩
    exact h.name_eq
  function_arity := by
    rintro c c' ⟨-, ρ, -, h, -⟩
    exact h.length_params
  method_name := by
    rintro c c' ⟨-, ρ, -, h⟩
    exact h.name_eq
  method_arity := by
    rintro c c' ⟨-, ρ, -, h⟩
    exact h.length_params

abbrev Same : Value Places → Value Places → Prop :=
  Value.Alike (likeness L)

/-- Two machines that hold the same in all places. -/
structure SameMachine (ρ : Option Pairing) (m m' : Machine) : Prop where
  cells : List.Forall₂ (Same L) m.cells.toList m'.cells.toList
  globals : Bindings.Alike (Same L) m.globals m'.globals
  objects : List.Forall₂ (Bindings.Alike (Same L)) m.objects.toList m'.objects.toList
  nextId : m.nextId = m'.nextId
  natives : m.natives = m'.natives
  hosts : ∀ native ∈ m.natives, native.Alike native
  clock : m.clock = m'.clock
  places : SamePlace ρ m.places m'.places
  depth : m.depth = m'.depth
  sink : m.sink = m'.sink

/-- Two machines that hold the same, after steps from a place to wherever they have come; from
outside of all scopes they have come to nowhere else. -/
def Somewhere (ρ : Option Pairing) (m m' : Machine) : Prop :=
  ∃ ρ', SameMachine L ρ' m m' ∧ (ρ = none → ρ' = none)

/-- The same failure, at lines that are related. -/
inductive SameFailure : Failure → Failure → Prop
  | runtime {line line' : Nat} (fault : RuntimeFault) : L line line' →
      SameFailure (.runtime ⟨line, fault⟩) (.runtime ⟨line', fault⟩)
  | output (fault : SinkFault) : SameFailure (.output fault) (.output fault)

/-- Both steps end in the same way, on machines that hold the same; they lead from one place to
another. -/
def Moves {α β : Type} (ρ ρ' : Option Pairing) (R : α → β → Prop) (step : Eval α)
    (step' : Eval β) : Prop :=
  ∀ m m', SameMachine L ρ m m' →
    Ending.Alike (fun a n b n' => SameMachine L ρ' n n' ∧ R a b) (SameFailure L) (Somewhere L ρ)
      (step m) (step' m')

/-- Both steps end in the same way, on machines that hold the same, in places that match. -/
def Ends {α β : Type} (ρ : Option Pairing) (R : α → β → Prop) (step : Eval α) (step' : Eval β) :
    Prop :=
  ∀ m m', SameMachine L ρ m m' →
    Ending.Alike (fun a n b n' => Somewhere L ρ n n' ∧ R a b) (SameFailure L) (Somewhere L ρ)
      (step m) (step' m')

/-- Both steps end in the same way, at the place where they begin. -/
abbrev Simulates {α β : Type} (ρ : Option Pairing) (R : α → β → Prop) (step : Eval α)
    (step' : Eval β) : Prop :=
  Moves L ρ ρ R step step'

end

variable {L : Nat → Nat → Prop} {ρ ρ₁ ρ₂ : Option Pairing}

theorem SameMachine.somewhere {m m' : Machine} (h : SameMachine L ρ m m') :
    Somewhere L ρ m m' :=
  ⟨ρ, h, id⟩

/-! ## Steps -/

section

variable {α β γ δ : Type} {R : α → β → Prop} {R' : γ → δ → Prop}

theorem Moves.bind {step : Eval α} {step' : Eval β} {next : α → Eval γ} {next' : β → Eval δ}
    (h : Moves L ρ ρ₁ R step step') (hout : ρ = none → ρ₁ = none)
    (hnext : ∀ a b, R a b → Moves L ρ₁ ρ₂ R' (next a) (next' b)) :
    Moves L ρ ρ₂ R' (step >>= next) (step' >>= next') := by
  intro m m' hm
  refine (h m m' hm).bind fun ⟨hn, hr⟩ => ?_
  refine (hnext _ _ hr _ _ hn).mono id ?_
  rintro n n' ⟨ρ', hn', hρ'⟩
  exact ⟨ρ', hn', fun hρ => hρ' (hout hρ)⟩

/-- What comes last may end anywhere. -/
theorem Moves.bind_ends {step : Eval α} {step' : Eval β} {next : α → Eval γ} {next' : β → Eval δ}
    (h : Moves L ρ ρ₁ R step step') (hout : ρ = none → ρ₁ = none)
    (hnext : ∀ a b, R a b → Ends L ρ₁ R' (next a) (next' b)) :
    Ends L ρ R' (step >>= next) (step' >>= next') := by
  have hmono : ∀ {n n'}, Somewhere L ρ₁ n n' → Somewhere L ρ n n' :=
    fun ⟨ρ', hn, hρ'⟩ => ⟨ρ', hn, fun hρ => hρ' (hout hρ)⟩
  intro m m' hm
  refine (h m m' hm).bind fun ⟨hn, hr⟩ => ?_
  exact (hnext _ _ hr _ _ hn).mono (fun ⟨hn, hr⟩ => ⟨hmono hn, hr⟩) hmono

theorem Simulates.ends {step : Eval α} {step' : Eval β} (h : Simulates L ρ R step step') :
    Ends L ρ R step step' :=
  fun m m' hm => (h m m' hm).mono (fun ⟨hn, hr⟩ => ⟨hn.somewhere, hr⟩) id

theorem Simulates.bind {step : Eval α} {step' : Eval β} {next : α → Eval γ} {next' : β → Eval δ}
    (h : Simulates L ρ R step step')
    (hnext : ∀ a b, R a b → Moves L ρ ρ₂ R' (next a) (next' b)) :
    Moves L ρ ρ₂ R' (step >>= next) (step' >>= next') :=
  Moves.bind h id hnext

theorem simulates_pure {a : α} {b : β} (h : R a b) :
    Simulates L ρ R (Step.pure a) (Step.pure b) :=
  fun _ _ hm => .done ⟨hm, h⟩

theorem moves_exhausted : Moves L ρ ρ₁ R Step.exhausted Step.exhausted :=
  fun _ _ hm => .exhausted hm.somewhere

theorem moves_fail {line line' : Nat} (hl : L line line') (fault : RuntimeFault) :
    Moves L ρ ρ₁ R (Step.fail line fault) (Step.fail line' fault) :=
  fun _ _ hm => .failed (.runtime fault hl) hm.somewhere

theorem simulates_lift {line line' : Nat} (hl : L line line') {r : Except RuntimeFault α}
    {r' : Except RuntimeFault β} (h : SameResult R r r') :
    Simulates L ρ R (Step.lift line r) (Step.lift line' r') := by
  cases r <;> cases r'
  · obtain rfl : _ = _ := h
    exact moves_fail hl _
  · exact h.elim
  · exact h.elim
  · exact simulates_pure h

theorem simulates_require {line line' : Nat} (hl : L line line') (fault : RuntimeFault)
    {o : Option α} {o' : Option β} (h : Option.Rel R o o') :
    Simulates L ρ R (Step.require line fault o) (Step.require line' fault o') := by
  cases h with
  | none => exact moves_fail hl fault
  | some h => exact simulates_pure h

theorem simulates_look {view : Machine → α} {view' : Machine → β}
    (h : ∀ m m', SameMachine L ρ m m' → R (view m) (view' m')) :
    Simulates L ρ R (Step.look view) (Step.look view') :=
  fun m m' hm => .done ⟨hm, h m m' hm⟩

theorem simulates_change {change change' : Machine → Machine}
    (h : ∀ m m', SameMachine L ρ m m' → SameMachine L ρ (change m) (change' m')) :
    Simulates L ρ Eq (Step.change change) (Step.change change') :=
  fun m m' hm => .done ⟨h m m' hm, rfl⟩

/-- Wherever steps end inside a scope, the place is put back. -/
theorem simulates_within {ρ' : Pairing} {places places' : Places}
    (hplaces : SamePlaces ρ' places places') {step : Eval α} {step' : Eval β}
    (h : Ends L (some ρ') R step step') :
    Simulates L ρ R (Eval.within places step) (Eval.within places' step') := by
  intro m m' hm
  have hin : SameMachine L (some ρ') { m with places := some places }
      { m' with places := some places' } := { hm with places := .inside hplaces }
  have hback : ∀ {n n'}, Somewhere L (some ρ') n n' →
      SameMachine L ρ { n with places := m.places } { n' with places := m'.places } :=
    fun ⟨_, hn, _⟩ => { hn with places := hm.places }
  exact (h _ _ hin).mapMachine (fun ⟨hn, hr⟩ => ⟨hback hn, hr⟩) fun hn => (hback hn).somewhere

theorem simulates_counted {step : Eval α} {step' : Eval β} (h : Simulates L ρ R step step') :
    Simulates L ρ R (Eval.counted step) (Eval.counted step') := by
  intro m m' hm
  have hin : SameMachine L ρ { m with depth := m.depth + 1 } { m' with depth := m'.depth + 1 } :=
    { hm with depth := congrArg Nat.succ hm.depth }
  refine (h _ _ hin).mapMachine
    (fun ⟨hn, hr⟩ => ⟨{ hn with depth := congrArg (· - 1) hn.depth }, hr⟩) ?_
  rintro n n' ⟨ρ', hn, hρ'⟩
  exact ⟨ρ', { hn with depth := congrArg (· - 1) hn.depth }, hρ'⟩

end

/-! ## Locations and declarations -/

theorem simulates_allocate {v v' : Value Places} (hv : Same L v v') :
    Simulates L ρ Eq (Eval.allocate v) (Eval.allocate v') := by
  intro m m' hm
  refine .done ⟨{ hm with cells := ?_ }, hm.cells.length_eq⟩
  simp only [Array.toList_push]
  exact List.rel_append hm.cells (.cons hv .nil)

theorem simulates_read (location : Nat) :
    Simulates L ρ (Same L) (Eval.read location) (Eval.read location) :=
  simulates_look fun m m' hm => by
    have hcell := hm.cells.getElem?_rel location
    rw [Array.getElem?_toList, Array.getElem?_toList] at hcell
    rcases rel_cases hcell with ⟨hv, hv'⟩ | ⟨v, v', hv, hv', hsame⟩
    · rw [hv, hv']
      exact .nil
    · rw [hv, hv']
      exact hsame

theorem simulates_write (location : Nat) {v v' : Value Places} (hv : Same L v v') :
    Simulates L ρ Eq (Eval.write location v) (Eval.write location v') :=
  simulates_change fun m m' hm => by
    refine { hm with cells := ?_ }
    simp only [Array.toList_setIfInBounds]
    exact hm.cells.set_rel hv location

theorem simulates_known :
    Simulates L ρ (SamePlaces (Pairing.known ρ)) Eval.known Eval.known :=
  Simulates.bind (simulates_look fun _ _ hm => hm.places) fun _ _ hplaces =>
    simulates_pure hplaces.known

/-- Outside of all scopes nothing is allocated. -/
theorem moves_declare (x x' : String) :
    Moves L ρ (Pairing.declare x x' ρ) (fun l l' => l = l' ∧ (l = none → ρ = none))
      (Eval.declare x) (Eval.declare x') := by
  refine Simulates.bind (simulates_look fun _ _ hm => hm.places) ?_
  rintro places places' hplaces
  cases hplaces with
  | outside => exact simulates_pure ⟨rfl, fun _ => rfl⟩
  | @inside ρ places places' hplaces =>
    refine Simulates.bind (simulates_allocate .nil) ?_
    rintro location - rfl
    refine Moves.bind (?_ : Moves L _ (some ((x, x') :: ρ)) Eq _ _)
      (fun hnone => absurd hnone (Option.some_ne_none _)) fun _ _ _ =>
        simulates_pure ⟨rfl, fun hnone => absurd hnone (Option.some_ne_none _)⟩
    exact fun m m' hm => .done ⟨{ hm with places := .inside (.cons x x' location hplaces) }, rfl⟩

theorem simulates_define {x x' : String} {location? : Option Nat}
    (hx : location? = none → x = x') {v v' : Value Places} (hv : Same L v v') :
    Simulates L ρ Eq (Eval.define x location? v) (Eval.define x' location? v') := by
  cases location? with
  | some location => exact simulates_write location hv
  | none =>
    obtain rfl := hx rfl
    exact simulates_change fun m m' hm => { hm with globals := hm.globals.put x hv }

theorem SamePlaces.bindAll {ps ps' : List Token} {vs vs' : List (Value Places)}
    (hvs : List.Forall₂ (Same L) vs vs') (hps : ps.length = ps'.length)
    (hlength : vs.length = ps.length) {ρ' : Pairing} {places places' : Places}
    (h : SamePlaces ρ' places places') :
    Simulates L ρ (SamePlaces (Pairing.declareAll ps ps' ρ'))
      (Eval.bindAll ((ps.map Token.lexeme).zip vs) places)
      (Eval.bindAll ((ps'.map Token.lexeme).zip vs') places') := by
  induction hvs generalizing ps ps' ρ' places places' with
  | nil =>
    obtain rfl := List.eq_nil_of_length_eq_zero hlength.symm
    obtain rfl := List.eq_nil_of_length_eq_zero hps.symm
    exact simulates_pure h
  | cons hv _ ih =>
    obtain ⟨p, ps, rfl⟩ := List.exists_cons_of_length_eq_add_one hlength.symm
    obtain ⟨p', ps', rfl⟩ := List.exists_cons_of_length_eq_add_one hps.symm
    refine Simulates.bind (simulates_allocate hv) ?_
    rintro location - rfl
    exact ih (Nat.succ.inj hps) (Nat.succ.inj hlength) (h.cons p.lexeme p'.lexeme location)

/-! ## Operations of the machine -/

theorem simulates_freshId : Simulates L ρ Eq Eval.freshId Eval.freshId :=
  fun _ _ hm => .done ⟨{ hm with nextId := congrArg Nat.succ hm.nextId }, hm.nextId⟩

theorem simulates_newObject {c c' : Class Places} (h : c.Alike (likeness L) c') :
    Simulates L ρ (Same L) (Eval.newObject c) (Eval.newObject c') := by
  intro m m' hm
  have hsize : m.objects.size = m'.objects.size := hm.objects.length_eq
  refine .done ⟨{ hm with objects := ?_ }, hsize ▸ .object _ h⟩
  simp only [Array.toList_push]
  exact List.rel_append hm.objects (.cons .nil .nil)

theorem simulates_field? (address : Nat) (name : String) :
    Simulates L ρ (Option.Rel (Same L)) (Eval.field? address name) (Eval.field? address name) :=
  simulates_look fun _ _ hm => (Bindings.Alike.getD hm.objects address).get? name

theorem simulates_setField (address : Nat) (name : String) {v v' : Value Places}
    (hv : Same L v v') :
    Simulates L ρ Eq (Eval.setField address name v) (Eval.setField address name v') :=
  simulates_change fun m m' hm => by
    refine { hm with objects := ?_ }
    simp only [Array.toList_modify]
    exact hm.objects.modify_rel (fun hb => hb.put name hv) address

theorem simulates_printLine (text : String) :
    Simulates L ρ Eq (Eval.printLine text) (Eval.printLine text) := by
  intro m m' hm
  simp only [Eval.printLine, ← hm.sink]
  generalize m.sink.write (text ++ "\n").toUTF8.data = written
  obtain ⟨_ | fault, sink⟩ := written
  · exact .done ⟨{ hm with sink := rfl }, trivial⟩
  · exact .failed (.output fault) ⟨ρ, { hm with sink := rfl }, id⟩

theorem simulates_flush : Simulates L ρ Eq Eval.flush Eval.flush := by
  intro m m' hm
  simp only [Eval.flush, ← hm.sink]
  cases m.sink.flush with
  | none => exact .done ⟨hm, trivial⟩
  | some fault => exact .failed (.output fault) hm.somewhere

theorem simulates_tell : Simulates L ρ (Same L) Eval.tell Eval.tell := by
  intro m m' hm
  refine .done ⟨{ hm with clock := congrArg Clock.later hm.clock }, ?_⟩
  rw [hm.clock]
  exact .number _

end Alpha

end LoxLang.Located
