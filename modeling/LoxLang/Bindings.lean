/-!
# Bindings

Names bound to values, each name at most once. A name keeps its place when it is bound again.

1. `Bindings.get?_put`: a binding is read back, and no other is touched.
2. `Bindings.names_put`: a new name goes to the end.
-/

namespace LoxLang

/-- A finite map from names, as a list of pairs. -/
abbrev Bindings (α : Type) := List (String × α)

namespace Bindings

variable {α : Type}

/-- What a name is bound to. -/
def get? : Bindings α → String → Option α
  | [], _ => none
  | (other, value) :: rest, name => if name = other then some value else get? rest name

/-- Is a name bound? -/
def has (bindings : Bindings α) (name : String) : Bool :=
  (bindings.get? name).isSome

/-- Binds a name, in place of its present binding if it has one. -/
def put (name : String) (value : α) : Bindings α → Bindings α
  | [] => [(name, value)]
  | (other, old) :: rest =>
    if name = other then (other, value) :: rest else (other, old) :: put name value rest

/-- The bound names. -/
def names (bindings : Bindings α) : List String :=
  bindings.map Prod.fst

theorem get?_nil (name : String) : get? ([] : Bindings α) name = none := rfl

theorem get?_cons (first : String × α) (rest : Bindings α) (name : String) :
    get? (first :: rest) name = if name = first.1 then some first.2 else get? rest name := rfl

/-- A binding is read back, and no other is touched. -/
theorem get?_put (name other : String) (value : α) (bindings : Bindings α) :
    get? (put name value bindings) other =
      if other = name then some value else get? bindings other := by
  induction bindings with
  | nil => simp [put, get?_cons, get?_nil]
  | cons first rest ih =>
    by_cases here : name = first.1
    · subst here
      by_cases same : other = first.1 <;> simp [put, get?_cons, same]
    · simp only [put, here, if_false, get?_cons, ih]
      by_cases same : other = name
      · subst same
        simp [here]
      · simp [same]

/-- A new name goes to the end, a bound one stays where it is. -/
theorem names_put (name : String) (value : α) (bindings : Bindings α) :
    names (put name value bindings) =
      if has bindings name then names bindings else names bindings ++ [name] := by
  induction bindings with
  | nil => rfl
  | cons first rest ih =>
    by_cases here : name = first.1
    · simp [put, names, has, get?_cons, here]
    · simp only [has, names] at ih
      simp only [put, here, if_false, names, List.map_cons, ih, has, get?_cons]
      by_cases bound : (get? rest name).isSome <;> simp [bound]

end Bindings

end LoxLang
