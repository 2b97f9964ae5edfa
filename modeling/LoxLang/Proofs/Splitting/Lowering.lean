import LoxLang.Proofs.Grammar.Trees
import LoxLang.Proofs.Splitting.Moved
import LoxLang.Proofs.Values.Bindings
import LoxLang.Proofs.Values.Endings

/-!
# Machines that run lowered text

Two machines run a text and the same text some lines lower, with older code in between that has not
moved. They hold the same in all places, but for the lines of that text.

1. `Lowering.Alike.put`: both machines bind a name in the same frame.
-/

namespace LoxLang

/-- A text on one machine and so many lines lower on another. All mentions with numbers below the
limit have been read, and both machines know the same about them. -/
structure Lowering where
  lines : Nat
  limit : Nat
  known : Distances
  known' : Distances
  agree : ∀ id : Nat, id < limit → known[id]? = known'[id]?

/-- The same failure so many lines lower, if it has a line. -/
def Failure.lower (lines : Nat) : Failure → Failure
  | .runtime e => .runtime { e with line := e.line + lines }
  | .output fault => .output fault

namespace Lowering

/-- How many lines a piece of code is lower: the text is by its lines, and older code is not. -/
def Shifts (w : Lowering) (lines : Nat) : Prop :=
  lines = 0 ∨ lines = w.lines

/-- The mentions have all been read. -/
def Reads (w : Lowering) (os : List Occurrence) : Prop :=
  ∀ o ∈ os, o.id < w.limit

/-- Two functions with the same code, in the same scope. -/
structure SameClosure (w : Lowering) (c c' : Closure) : Prop where
  decl : ∃ lines, w.Shifts lines ∧ c'.decl = c.decl.move (.down lines)
  reads : w.Reads c.decl.mentions
  scope : c.scope = c'.scope
  isInitializer : c.isInitializer = c'.isInitializer

theorem SameClosure.name_eq {w : Lowering} {c c' : Closure} (h : w.SameClosure c c') :
    c.name = c'.name := by
  obtain ⟨lines, -, hdecl⟩ := h.decl
  obtain ⟨⟨name, params, body⟩, scope, isInitializer⟩ := c
  simp [Closure.name, hdecl, FunctionDecl.move]

theorem SameClosure.arity_eq {w : Lowering} {c c' : Closure} (h : w.SameClosure c c') :
    c.arity = c'.arity := by
  obtain ⟨lines, -, hdecl⟩ := h.decl
  obtain ⟨⟨name, params, body⟩, scope, isInitializer⟩ := c
  simp [Closure.arity, hdecl, FunctionDecl.move]

/-- Functions are alike if they have the same code, in the same scope. -/
def likeness (w : Lowering) : Likeness Scope Scope where
  function := w.SameClosure
  method := w.SameClosure
  function_name := SameClosure.name_eq
  function_arity := SameClosure.arity_eq
  method_name := SameClosure.name_eq
  method_arity := SameClosure.arity_eq

abbrev Same (w : Lowering) : Value → Value → Prop :=
  Value.Alike w.likeness

/-- The same names in the same order, bound to values that are the same. -/
abbrev SameBindings (w : Lowering) : Bindings Value → Bindings Value → Prop :=
  Bindings.Alike w.Same

/-- Two machines that hold the same in all places. -/
structure Alike (w : Lowering) (m m' : Machine) : Prop where
  frames : List.Forall₂ w.SameBindings m.store.frames.toList m'.store.frames.toList
  objects : List.Forall₂ w.SameBindings m.objects.toList m'.objects.toList
  nextId : m.nextId = m'.nextId
  natives : m.natives = m'.natives
  hosts : ∀ native ∈ m.natives, native.Alike native
  clock : m.clock = m'.clock
  scope : m.scope = m'.scope
  depth : m.depth = m'.depth
  sink : m.sink = m'.sink
  known : m.distances = w.known
  known' : m'.distances = w.known'

/-- The same failure, at the line of a piece of code. Only at the end of a program is output
flushed. -/
structure SameFailure (w : Lowering) (f f' : Failure) : Prop where
  flushed : f ≠ .output .notFlushed
  lowered : ∃ lines, w.Shifts lines ∧ f' = f.lower lines

/-- What is the same by one lowering is the same by the other: later ones know more mentions. -/
structure Le (w w' : Lowering) : Prop where
  shifts : ∀ {lines}, w.Shifts lines → w'.Shifts lines
  limit : w.limit ≤ w'.limit

theorem Le.likeness {w w' : Lowering} (h : w.Le w') : w.likeness.Le w'.likeness :=
  have hmono : ∀ {c c'}, w.SameClosure c c' → w'.SameClosure c c' :=
    fun ⟨⟨k, hk, hdecl⟩, hreads, hscope, hi⟩ =>
      ⟨⟨k, h.shifts hk, hdecl⟩, fun o ho => Nat.lt_of_lt_of_le (hreads o ho) h.limit, hscope, hi⟩
  ⟨hmono, hmono⟩

variable {w : Lowering}

/-! ## Stores -/

namespace Alike

variable {m m' : Machine}

/-- Both machines bind a name in the same frame. -/
theorem put (h : w.Alike m m') (i : Nat) (name : String) {v v' : Value} (hv : w.Same v v') :
    w.Alike { m with store := m.store.put i name v }
      { m' with store := m'.store.put i name v' } where
  frames := by
    simp only [Store.put, Array.toList_modify]
    exact h.frames.modify_rel (fun hb => hb.put name hv) i
  objects := h.objects
  nextId := h.nextId
  natives := h.natives
  hosts := h.hosts
  clock := h.clock
  scope := h.scope
  depth := h.depth
  sink := h.sink
  known := h.known
  known' := h.known'

end Alike

/-! ## Steps -/

/-- Both steps end in the same way, on machines that hold the same. -/
def Simulates {α β : Type} (w : Lowering) (R : α → β → Prop) (step : Eval α) (step' : Eval β) :
    Prop :=
  ∀ m m', w.Alike m m' →
    Ending.Alike (fun a n b n' => w.Alike n n' ∧ R a b) w.SameFailure w.Alike (step m) (step' m')

end Lowering

end LoxLang
