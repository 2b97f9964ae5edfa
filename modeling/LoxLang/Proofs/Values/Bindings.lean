import LoxLang.Bindings
import LoxLang.Proofs.Values.Alike

/-!
# Bindings and lists side by side

1. `Bindings.Alike.get?`, `Bindings.Alike.put`: bindings of the same names to related values.
2. `List.Forall₂.getElem?_rel`, `List.Forall₂.modify_rel`: lists of related elements.
-/

variable {α β : Type} {R : α → β → Prop}

namespace List.Forall₂

variable {as : List α} {bs : List β}

theorem getElem?_rel (h : List.Forall₂ R as bs) (i : Nat) : Option.Rel R as[i]? bs[i]? := by
  induction h generalizing i with
  | nil => exact .none
  | cons hab _ ih =>
    cases i with
    | zero => exact .some hab
    | succ i => exact ih i

theorem modify_rel (h : List.Forall₂ R as bs) {f : α → α} {g : β → β}
    (hfg : ∀ {a b}, R a b → R (f a) (g b)) (i : Nat) :
    List.Forall₂ R (as.modify i f) (bs.modify i g) := by
  induction h generalizing i with
  | nil => simp
  | cons hab hrest ih =>
    cases i with
    | zero => exact .cons (hfg hab) hrest
    | succ i => exact .cons hab (ih i)

theorem set_rel (h : List.Forall₂ R as bs) {a : α} {b : β} (hab : R a b) (i : Nat) :
    List.Forall₂ R (as.set i a) (bs.set i b) := by
  rw [List.set_eq_modify, List.set_eq_modify]
  exact h.modify_rel (fun _ => hab) i

end List.Forall₂

namespace LoxLang.Bindings

/-- The same names in the same order, bound to related values. -/
def Alike (R : α → β → Prop) : Bindings α → Bindings β → Prop :=
  List.Forall₂ fun p p' => p.1 = p'.1 ∧ R p.2 p'.2

namespace Alike

variable {b : Bindings α} {b' : Bindings β}

theorem mono {R' : α → β → Prop} (h : Alike R b b') (hR : ∀ {v v'}, R v v' → R' v v') :
    Alike R' b b' :=
  h.imp fun _ _ hp => ⟨hp.1, hR hp.2⟩

theorem get? (h : Alike R b b') (name : String) :
    Option.Rel R (Bindings.get? b name) (Bindings.get? b' name) := by
  induction h with
  | nil => exact .none
  | cons hp _ ih =>
    rw [Bindings.get?_cons, Bindings.get?_cons, hp.1]
    split
    · exact .some hp.2
    · exact ih

theorem has_eq (h : Alike R b b') (name : String) : Bindings.has b name = Bindings.has b' name := by
  unfold Bindings.has
  rcases rel_cases (h.get? name) with ⟨hv, hv'⟩ | ⟨v, v', hv, hv', -⟩
  · rw [hv, hv']
    rfl
  · rw [hv, hv']
    rfl

theorem put (h : Alike R b b') (name : String) {v : α} {v' : β} (hv : R v v') :
    Alike R (Bindings.put name v b) (Bindings.put name v' b') := by
  induction h with
  | nil => exact .cons ⟨rfl, hv⟩ .nil
  | @cons p p' rest rest' hp hrest ih =>
    obtain ⟨x, u⟩ := p
    obtain ⟨x', u'⟩ := p'
    obtain ⟨hx, hu⟩ := hp
    obtain rfl : x = x' := hx
    unfold Bindings.put
    split
    · exact .cons ⟨rfl, hv⟩ hrest
    · exact .cons ⟨rfl, hu⟩ ih

/-- Bindings at the same place of two lists; none where there is no such place. -/
theorem getD {bs : Array (Bindings α)} {bs' : Array (Bindings β)}
    (h : List.Forall₂ (Alike R) bs.toList bs'.toList) (i : Nat) :
    Alike R (bs[i]?.getD []) (bs'[i]?.getD []) := by
  have hi := h.getElem?_rel i
  rw [Array.getElem?_toList, Array.getElem?_toList] at hi
  rcases rel_cases hi with ⟨hb, hb'⟩ | ⟨b, b', hb, hb', hsame⟩
  · rw [hb, hb']
    exact .nil
  · rw [hb, hb']
    exact hsame

end Alike

/-- What is bound after names were bound to values in turn is such a value, or was bound before. -/
theorem mem_of_get?_zip {x : String} {v : α} : {names : List String} → {vs : List α} →
    {b : Bindings α} →
      Bindings.get? ((names.zip vs).foldl (fun b (name, value) => Bindings.put name value b) b) x =
        some v → (x ∈ names ∧ v ∈ vs) ∨ Bindings.get? b x = some v
  | [], _, _, h => .inr h
  | _ :: _, [], _, h => .inr h
  | name :: names, u :: vs, b, h => by
    have hx : (x ∈ names ∧ v ∈ vs) ∨ _ := mem_of_get?_zip h
    rcases hx with ⟨hx, hv⟩ | hx
    · exact .inl ⟨.tail _ hx, .tail _ hv⟩
    · rw [Bindings.get?_put] at hx
      split at hx
      · next hname => exact .inl ⟨hname ▸ .head _, Option.some.inj hx ▸ .head _⟩
      · exact .inr hx

end LoxLang.Bindings
