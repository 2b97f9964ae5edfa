import LoxLang.Machine.Evaluation

/-!
# Steps that leave the sink alone

Only a `print` and the end of a program deal with the sink. Every other single step does on one sink
what it does on any other, and leaves it as it was.

1. `Eval.Silent.bind`: steps one after another.
2. `Eval.Silent.property`, `Eval.Silent.superMethod`, `Eval.Silent.native`,
   `Eval.Silent.classDecl`: the steps with most parts.
-/

namespace LoxLang

variable {α β : Type}

/-- The same machine with another sink. -/
def Machine.onto (m : Machine) (sink : Sink) : Machine :=
  { m with sink := sink }

@[simp] theorem Machine.sink_onto (m : Machine) (sink : Sink) : (m.onto sink).sink = sink :=
  rfl

/-- The same end with another sink. -/
def Ending.onto (ending : Outcome α) (sink : Sink) : Outcome α :=
  ending.mapMachine fun m => m.onto sink

namespace Eval

/-- The step neither looks at the sink nor changes it. -/
def Silent (step : Eval α) : Prop :=
  ∀ m sink, step (m.onto sink) = (step m).onto sink

namespace Silent

/-! ## Steps one after another -/

theorem pure (a : α) : Silent (Pure.pure a : Eval α) :=
  fun _ _ => rfl

theorem exhausted : Silent (Step.exhausted : Eval α) :=
  fun _ _ => rfl

theorem fail (line : Nat) (fault : RuntimeFault) : Silent (Step.fail line fault : Eval α) :=
  fun _ _ => rfl

theorem lift (line : Nat) (result : Except RuntimeFault α) :
    Silent (Step.lift line result : Eval α) := by
  cases result with
  | ok value => exact .pure value
  | error fault => exact .fail line fault

theorem require (line : Nat) (fault : RuntimeFault) (found : Option α) :
    Silent (Step.require line fault found : Eval α) := by
  cases found with
  | some value => exact .pure value
  | none => exact .fail line fault

theorem look {view : Machine → α} (h : ∀ m sink, view (m.onto sink) = view m) :
    Silent (Step.look view) := by
  intro m sink
  change Ending.done (view (m.onto sink)) (m.onto sink) = _
  rw [h m sink]
  rfl

theorem bind {first : Eval α} {next : α → Eval β} (h : first.Silent)
    (hnext : ∀ a, (next a).Silent) : Silent (first >>= next) := by
  intro m sink
  change Step.bind first next (m.onto sink) = (Step.bind first next m).onto sink
  unfold Step.bind
  rw [h m sink]
  cases first m with
  | done a n => exact hnext a n sink
  | failed failure n => rfl
  | exhausted n => rfl

/-! ## Single steps -/

theorem freshId : Silent Eval.freshId :=
  fun _ _ => rfl

theorem define (name : String) (value : Value) : Silent (Eval.define name value) :=
  fun _ _ => rfl

theorem put (address : Nat) (name : String) (value : Value) :
    Silent (Eval.put address name value) :=
  fun _ _ => rfl

theorem openScope (around : Scope) (contents : Bindings Value) :
    Silent (Eval.openScope around contents) :=
  fun _ _ => rfl

theorem newObject (c : Class) : Silent (Eval.newObject c) :=
  fun _ _ => rfl

theorem field? (address : Nat) (name : String) : Silent (Eval.field? address name) :=
  look fun _ _ => rfl

theorem setField (address : Nat) (name : String) (value : Value) :
    Silent (Eval.setField address name value) :=
  fun _ _ => rfl

theorem tell : Silent Eval.tell :=
  fun _ _ => rfl

/-! ## Variables -/

theorem target (o : Occurrence) : Silent (Eval.target o) :=
  (look fun _ _ => rfl).bind fun _ => (look fun _ _ => rfl).bind fun _ => require _ _ _

theorem lookUp (o : Occurrence) : Silent (Eval.lookUp o) :=
  (target o).bind fun _ => (look fun _ _ => rfl).bind fun _ => require _ _ _

theorem assign (o : Occurrence) (value : Value) : Silent (Eval.assign o value) :=
  (target o).bind fun address => put address _ value

theorem assignClass (name : Token) (value : Value) : Silent (Eval.assignClass name value) :=
  (look fun _ _ => rfl).bind fun _ => (require _ _ _).bind fun address => put address _ value

theorem implicit (distance : Nat) (name : String) (line : Nat) :
    Silent (Eval.implicit distance name line) :=
  (look fun _ _ => rfl).bind fun _ => require _ _ _

/-! ## Functions and objects -/

theorem function (closure : Closure) : Silent (Eval.function closure) :=
  freshId.bind fun _ => pure _

theorem bindThis (method : Closure) (object : Value) : Silent (Eval.bindThis method object) :=
  (openScope _ _).bind fun _ => pure _

theorem property (address : Nat) (c : Class) (name : Token) :
    Silent (Eval.property address c name) := by
  refine (field? address _).bind fun found => ?_
  cases found with
  | some value => exact pure value
  | none => exact (require _ _ _).bind fun m => (bindThis m _).bind function

theorem inherited (line : Nat) (method : Token) (parent this : Value) :
    Silent (Eval.inherited line method parent this) := by
  unfold Eval.inherited
  split
  · exact (require _ _ _).bind fun m => (bindThis m _).bind function
  · exact fail line _

theorem superMethod (o : Occurrence) (method : Token) : Silent (Eval.superMethod o method) :=
  (look fun _ _ => rfl).bind fun _ => (require _ _ _).bind fun _ => (implicit _ _ _).bind fun _ =>
    (implicit _ _ _).bind fun _ => inherited _ _ _ _

theorem arity? (callee : Value) : Silent (Eval.arity? callee) := by
  cases callee with
  | native index => exact look fun _ _ => rfl
  | _ => exact pure _

/-- A function of the host has its result from its arguments alone. -/
theorem native (index line : Nat) (arguments : List Value) :
    Silent (Eval.native index line arguments) := by
  refine (look fun _ _ => rfl).bind fun body? => ?_
  cases body? with
  | none => exact fail line _
  | some body =>
    cases body with
    | clock => exact tell
    | host run => exact lift line _

/-! ## Classes -/

theorem methodScope (parent : Option Class) : Silent (Eval.methodScope parent) := by
  refine (look fun _ _ => rfl).bind fun scope => ?_
  cases parent with
  | none => exact pure scope
  | some parent => exact openScope scope _

theorem superclass? (superclass : Option Occurrence) : Silent (Eval.superclass? superclass) := by
  cases superclass with
  | none => exact pure none
  | some o =>
    refine (lookUp o).bind fun value => ?_
    cases value with
    | classValue c => exact pure (some c)
    | _ => exact fail _ _

theorem makeClass (name : Token) (parent : Option Class) (methods : List FunctionDecl) :
    Silent (Eval.makeClass name parent methods) :=
  (define _ _).bind fun _ => (methodScope parent).bind fun _ => freshId.bind fun _ =>
    assignClass _ _

theorem classDecl (name : Token) (superclass : Option Occurrence) (methods : List FunctionDecl) :
    Silent (Eval.classDecl name superclass methods) :=
  (superclass? superclass).bind fun parent => makeClass name parent methods

end Silent

end Eval

end LoxLang
