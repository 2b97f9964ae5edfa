import LoxLang.Bindings

/-!
# Scopes and their frames

A scope is the list of the frames that can be seen from it, innermost first; what the frames hold
is kept in a store. Because a scope names all its frames itself, the frames around it never change
and the list always ends.

1. `Store.frame_put`: writing one frame leaves all others alone.
2. `Scope.frame_ancestor?`: so many steps outward is the frame at that place of the chain.
-/

namespace LoxLang

/-- A scope: its own frame, and the frames around it from inner to outer. -/
structure Scope where
  frame : Nat
  outer : List Nat
  deriving DecidableEq, Repr

namespace Scope

/-- The frames that can be seen from a scope, innermost first. -/
def chain (scope : Scope) : List Nat :=
  scope.frame :: scope.outer

/-- The scope directly around this one. -/
def enclosing? (scope : Scope) : Option Scope :=
  match scope.outer with
  | [] => none
  | frame :: outer => some ⟨frame, outer⟩

/-- The scope that many steps outward. -/
def ancestor? : (distance : Nat) → Scope → Option Scope
  | 0, scope => some scope
  | distance + 1, scope => scope.enclosing?.bind (ancestor? distance)

theorem chain_of_enclosing? {scope around : Scope} (found : scope.enclosing? = some around) :
    scope.chain = scope.frame :: around.chain := by
  obtain ⟨frame, _ | ⟨next, outer⟩⟩ := scope
  · exact nomatch found
  · obtain rfl := Option.some.inj found
    rfl

/-- Walking outward drops frames from the chain, and does nothing else. -/
theorem chain_of_ancestor? {distance : Nat} {scope around : Scope}
    (found : ancestor? distance scope = some around) :
    around.chain = scope.chain.drop distance := by
  induction distance generalizing scope with
  | zero =>
    obtain rfl := Option.some.inj found
    rfl
  | succ distance ih =>
    obtain ⟨next, first, rest⟩ := Option.bind_eq_some_iff.1 found
    rw [ih rest, chain_of_enclosing? first, List.drop_succ_cons]

/-- So many steps outward is the frame at that place of the chain. -/
theorem frame_ancestor? (distance : Nat) (scope : Scope) :
    (ancestor? distance scope).map frame = scope.chain[distance]? := by
  induction distance generalizing scope with
  | zero => rfl
  | succ distance ih =>
    obtain ⟨frame, _ | ⟨next, outer⟩⟩ := scope
    · rfl
    · exact ih ⟨next, outer⟩

end Scope

/-- The contents of all frames, in the order in which they were made. -/
structure Store (α : Type) where
  frames : Array (Bindings α)

namespace Store

variable {α : Type}

/-- No frames. -/
def empty : Store α :=
  ⟨#[]⟩

/-- What a frame holds. -/
def frame (store : Store α) (address : Nat) : Bindings α :=
  store.frames[address]?.getD []

/-- A new frame with no other around it. -/
def newRoot (store : Store α) (contents : Bindings α) : Scope × Store α :=
  (⟨store.frames.size, []⟩, ⟨store.frames.push contents⟩)

/-- A new frame inside a scope. -/
def newInside (store : Store α) (around : Scope) (contents : Bindings α) : Scope × Store α :=
  (⟨store.frames.size, around.chain⟩, ⟨store.frames.push contents⟩)

/-- Binds a name in one frame. -/
def put (store : Store α) (address : Nat) (name : String) (value : α) : Store α :=
  ⟨store.frames.modify address (Bindings.put name value)⟩

/-- Binds a name in a scope's own frame. -/
def define (store : Store α) (scope : Scope) (name : String) (value : α) : Store α :=
  store.put scope.frame name value

/-- What a scope's own frame binds a name to. -/
def getLocal? (store : Store α) (scope : Scope) (name : String) : Option α :=
  Bindings.get? (store.frame scope.frame) name

/-- The nearest frame of some that has a name. -/
def owner? (store : Store α) (chain : List Nat) (name : String) : Option Nat :=
  chain.find? fun address => Bindings.has (store.frame address) name

/-- What a name means in a scope: its binding in the nearest frame that has it. -/
def get? (store : Store α) (scope : Scope) (name : String) : Option α :=
  (store.owner? scope.chain name).bind fun address => Bindings.get? (store.frame address) name

/-- Changes a name's binding in the nearest frame that has it. -/
def assign? (store : Store α) (scope : Scope) (name : String) (value : α) : Option (Store α) :=
  (store.owner? scope.chain name).map fun address => store.put address name value

/-- What the frame exactly so many steps outward binds a name to. -/
def getAt? (store : Store α) (scope : Scope) (distance : Nat) (name : String) : Option α :=
  (Scope.ancestor? distance scope).bind fun around => store.getLocal? around name

/-- Binds a name in the frame exactly so many steps outward. -/
def assignAt? (store : Store α) (scope : Scope) (distance : Nat) (name : String) (value : α) :
    Option (Store α) :=
  (Scope.ancestor? distance scope).map fun around => store.define around name value

/-- Writing one frame leaves all others alone. -/
theorem frame_put (store : Store α) (address other : Nat) (name : String) (value : α)
    (made : address < store.frames.size) :
    (store.put address name value).frame other =
      if other = address then Bindings.put name value (store.frame address)
      else store.frame other := by
  by_cases same : other = address
  · subst same
    simp [frame, put, Array.getElem_modify, made]
  · simp [frame, put, Array.getElem?_modify, same, Ne.symm same]

end Store

end LoxLang
