import LoxLang.Scope

/-!
# The forest of scopes

Scopes are made one inside another, in any order and number, and their names are bound and changed
through any of them. The frame of a scope is then no other's, and a scope has all scopes around it
in the forest. So a write through one scope is seen through exactly the scopes that find the name
where that one does.

1. `Forest.Grown.formed`: what every sequence of requests keeps.
2. `Store.get?_eq_some_iff_getAt?`: a walk outward is the first of the reads at each distance that
   finds the name.
3. `Forest.Formed.get?_of_owns`, `Forest.Formed.get?_of_not_owns`: what a write through one scope is
   to a read through another.
4. `Forest.scope_laws`: the laws of reads and writes in a forest.
-/

namespace LoxLang

variable {α : Type}

/-! ## Requests to a forest -/

/-- A store with the scopes that have been made in it. -/
structure Forest (α : Type) where
  scopes : List Scope
  store : Store α

namespace Forest

/-- What can be asked of a store, through a scope. -/
inductive Request (α : Type) where
  | newRoot (contents : Bindings α)
  | newInside (around : Scope) (contents : Bindings α)
  | define (scope : Scope) (name : String) (value : α)
  | assign (scope : Scope) (name : String) (value : α)
  | assignAt (scope : Scope) (distance : Nat) (name : String) (value : α)

/-- The scope that a request is made through. -/
def Request.scope? : Request α → Option Scope
  | .newRoot _ => none
  | .newInside around _ => some around
  | .define scope _ _ => some scope
  | .assign scope _ _ => some scope
  | .assignAt scope _ _ _ => some scope

/-- The forest with a scope just made, and the store that this has left. -/
def grow (forest : Forest α) (made : Scope × Store α) : Forest α :=
  ⟨made.1 :: forest.scopes, made.2⟩

/-- The forest with the store that a write has left, or as it is if there is none; and whether there
is one. -/
def keep (forest : Forest α) (written : Option (Store α)) : Forest α × Bool :=
  match written with
  | some store => ({ forest with store }, true)
  | none => (forest, false)

/-- The forest after a request, and whether the request has succeeded. -/
def answer (forest : Forest α) : Request α → Forest α × Bool
  | .newRoot contents => (forest.grow (forest.store.newRoot contents), true)
  | .newInside around contents => (forest.grow (forest.store.newInside around contents), true)
  | .define scope name value => ({ forest with store := forest.store.define scope name value }, true)
  | .assign scope name value => forest.keep (forest.store.assign? scope name value)
  | .assignAt scope distance name value =>
    forest.keep (forest.store.assignAt? scope distance name value)

/-- The forests that come of requests.

* `empty`: no scope has been made.
* `answer`: a request was answered, whether it has succeeded or not. The scope that it is made
  through, if there is one, was made before. -/
inductive Grown : Forest α → Prop where
  | empty : Grown ⟨[], .empty⟩
  | answer {forest : Forest α} (request : Request α) :
      Grown forest → (∀ s ∈ request.scope?, s ∈ forest.scopes) → Grown (forest.answer request).1

end Forest

/-! ## Reads at a distance -/

namespace Store

variable {store : Store α} {s t o : Scope} {x y : String} {u v : α}

theorem getAt?_eq (store : Store α) (s : Scope) (d : Nat) (x : String) :
    store.getAt? s d x = s.chain[d]?.bind fun i => Bindings.get? (store.frame i) x := by
  rw [← Scope.frame_ancestor?, Option.bind_map]
  rfl

/-- The owner is the first frame of the chain that has the name. -/
theorem owner?_eq_some_iff (store : Store α) (s : Scope) (x : String) (i : Nat) :
    store.owner? s.chain x = some i ↔
      ∃ d, s.chain[d]? = some i ∧ (Bindings.get? (store.frame i) x).isSome ∧
        ∀ e < d, store.getAt? s e x = none := by
  unfold owner?
  rw [List.find?_eq_some_iff_getElem]
  constructor
  · rintro ⟨hi, d, hd, rfl, hbefore⟩
    refine ⟨d, List.getElem?_eq_getElem hd, hi, fun e he => ?_⟩
    have hne := hbefore e he
    rw [getAt?_eq, List.getElem?_eq_getElem (Nat.lt_trans he hd)]
    simpa [Bindings.has] using hne
  · rintro ⟨d, hd, hi, hbefore⟩
    obtain ⟨hlt, rfl⟩ := List.getElem?_eq_some_iff.1 hd
    refine ⟨hi, d, hlt, rfl, fun e he => ?_⟩
    have hnone := hbefore e he
    rw [getAt?_eq, List.getElem?_eq_getElem (Nat.lt_trans he hlt)] at hnone
    simpa [Bindings.has] using hnone

/-- A walk outward is the first of the reads at each distance that finds the name. -/
theorem get?_eq_some_iff_getAt? (store : Store α) (s : Scope) (x : String) (u : α) :
    store.get? s x = some u ↔
      ∃ d, store.getAt? s d x = some u ∧ ∀ e < d, store.getAt? s e x = none := by
  unfold get?
  rw [Option.bind_eq_some_iff]
  constructor
  · rintro ⟨i, howner, hu⟩
    obtain ⟨d, hd, -, hbefore⟩ := (owner?_eq_some_iff store s x i).1 howner
    exact ⟨d, by rw [getAt?_eq, hd]; exact hu, hbefore⟩
  · rintro ⟨d, hu, hbefore⟩
    rw [getAt?_eq] at hu
    obtain ⟨i, hd, hu⟩ := Option.bind_eq_some_iff.1 hu
    exact ⟨i, (owner?_eq_some_iff store s x i).2 ⟨d, hd, by rw [hu]; rfl, hbefore⟩, hu⟩

/-- The scope in which a walk outward finds a name. -/
def Owns (store : Store α) (s : Scope) (x : String) (o : Scope) : Prop :=
  ∃ d, Scope.ancestor? d s = some o ∧ (store.getAt? s d x).isSome ∧
    ∀ e < d, store.getAt? s e x = none

theorem owner?_eq_some_iff_owns (store : Store α) (s : Scope) (x : String) (i : Nat) :
    store.owner? s.chain x = some i ↔ ∃ o, store.Owns s x o ∧ o.frame = i := by
  rw [owner?_eq_some_iff]
  constructor
  · rintro ⟨d, hd, hi, hbefore⟩
    rw [← Scope.frame_ancestor?] at hd
    obtain ⟨o, ho, rfl⟩ := Option.map_eq_some_iff.1 hd
    exact ⟨o, ⟨d, ho, by rw [getAt?, ho]; exact hi, hbefore⟩, rfl⟩
  · rintro ⟨o, ⟨d, ho, hi, hbefore⟩, rfl⟩
    rw [getAt?, ho] at hi
    exact ⟨d, by rw [← Scope.frame_ancestor?, ho]; rfl, hi, hbefore⟩

/-- A write succeeds where a read does. -/
theorem assign?_eq_none_iff (store : Store α) (s : Scope) (x : String) (v : α) :
    store.assign? s x v = none ↔ store.get? s x = none := by
  unfold assign? get?
  rw [Option.map_eq_none_iff]
  constructor
  · intro h
    rw [h]
    rfl
  · intro h
    cases howner : store.owner? s.chain x with
    | none => rfl
    | some i =>
      obtain ⟨_, -, hi, -⟩ := (owner?_eq_some_iff store s x i).1 howner
      rw [howner] at h
      exact absurd hi (by rw [show Bindings.get? (store.frame i) x = none from h]; exact nofun)

end Store

/-! ## What requests keep -/

namespace Forest

/-- Each scope has frames that have been made, a frame of its own, and the scopes around it. -/
structure Formed (forest : Forest α) : Prop where
  made : ∀ {s}, s ∈ forest.scopes → ∀ i ∈ s.chain, i < forest.store.frames.size
  own : ∀ {s t}, s ∈ forest.scopes → t ∈ forest.scopes → s.frame = t.frame → s = t
  around : ∀ {s o}, s ∈ forest.scopes → s.enclosing? = some o → o ∈ forest.scopes

namespace Formed

variable {forest : Forest α} {s t o : Scope} {x y : String} {v : α} {d : Nat}

theorem empty : (⟨[], .empty⟩ : Forest α).Formed where
  made := nofun
  own := nofun
  around := nofun

theorem ancestor (h : forest.Formed) (hs : s ∈ forest.scopes)
    (ho : Scope.ancestor? d s = some o) : o ∈ forest.scopes := by
  induction d generalizing s with
  | zero =>
    obtain rfl := Option.some.inj ho
    exact hs
  | succ d ih =>
    obtain ⟨next, hnext, ho⟩ := Option.bind_eq_some_iff.1 ho
    exact ih (h.around hs hnext) ho

theorem frame_lt (h : forest.Formed) (hs : s ∈ forest.scopes) :
    s.frame < forest.store.frames.size :=
  h.made hs _ List.mem_cons_self

/-- A new frame, inside none or inside a scope of the forest. -/
theorem grow (h : forest.Formed) {made : Scope × Store α}
    (hframe : made.1.frame = forest.store.frames.size)
    (hsize : made.2.frames.size = forest.store.frames.size + 1)
    (houter : ∀ i ∈ made.1.outer, i < forest.store.frames.size)
    (haround : ∀ {o}, made.1.enclosing? = some o → o ∈ forest.scopes) :
    (forest.grow made).Formed := by
  have hnew {s} (hs : s ∈ forest.scopes) : s.frame ≠ made.1.frame :=
    fun heq => absurd (h.frame_lt hs) (by rw [heq, hframe]; exact Nat.lt_irrefl _)
  constructor
  · intro s hs i hi
    have hlt : i ≤ forest.store.frames.size := by
      rcases List.mem_cons.1 hs with rfl | hs
      · rcases List.mem_cons.1 hi with rfl | hi
        · exact Nat.le_of_eq hframe
        · exact Nat.le_of_lt (houter i hi)
      · exact Nat.le_of_lt (h.made hs i hi)
    exact hsize ▸ Nat.lt_succ_of_le hlt
  · intro s t hs ht heq
    rcases List.mem_cons.1 hs with rfl | hs <;> rcases List.mem_cons.1 ht with rfl | ht
    · rfl
    · exact absurd heq.symm (hnew ht)
    · exact absurd heq (hnew hs)
    · exact h.own hs ht heq
  · intro s o hs ho
    rcases List.mem_cons.1 hs with rfl | hs
    · exact List.mem_cons_of_mem _ (haround ho)
    · exact List.mem_cons_of_mem _ (h.around hs ho)

theorem newRoot (h : forest.Formed) (contents : Bindings α) :
    (forest.grow (forest.store.newRoot contents)).Formed :=
  h.grow rfl (Array.size_push ..) (by exact nofun) (by exact nofun)

theorem newInside (h : forest.Formed) (hs : s ∈ forest.scopes) (contents : Bindings α) :
    (forest.grow (forest.store.newInside s contents)).Formed :=
  h.grow rfl (Array.size_push ..) (h.made hs) fun ho => by
    obtain rfl := Option.some.inj ho
    exact hs

/-- Writing makes no frame. -/
theorem written (h : forest.Formed) {store : Store α}
    (hsize : store.frames.size = forest.store.frames.size) :
    ({ forest with store } : Forest α).Formed where
  made hs i hi := hsize ▸ h.made hs i hi
  own := h.own
  around := h.around

theorem keep (h : forest.Formed) {written : Option (Store α)}
    (hsize : ∀ {store}, written = some store → store.frames.size = forest.store.frames.size) :
    (forest.keep written).1.Formed := by
  cases written with
  | none => exact h
  | some store => exact h.written (hsize rfl)

/-- A request through a scope of the forest keeps it formed. -/
theorem answer (h : forest.Formed) (request : Request α)
    (hscope : ∀ s ∈ request.scope?, s ∈ forest.scopes) : (forest.answer request).1.Formed := by
  cases request with
  | newRoot contents => exact h.newRoot contents
  | newInside around contents => exact h.newInside (hscope around rfl) contents
  | define scope name value => exact h.written (Array.size_modify ..)
  | assign scope name value =>
    refine h.keep fun hstore => ?_
    obtain ⟨i, -, rfl⟩ := Option.map_eq_some_iff.1 hstore
    exact Array.size_modify ..
  | assignAt scope distance name value =>
    refine h.keep fun hstore => ?_
    obtain ⟨o, -, rfl⟩ := Option.map_eq_some_iff.1 hstore
    exact Array.size_modify ..

end Formed

theorem Grown.formed {forest : Forest α} (h : forest.Grown) : forest.Formed := by
  induction h with
  | empty => exact .empty
  | answer request _ hscope ih => exact ih.answer request hscope

/-! ## What a write is to a read -/

namespace Formed

variable {forest : Forest α} {s t o : Scope} {x y : String} {v : α} {d : Nat}

theorem owner_mem (h : forest.Formed) (hs : s ∈ forest.scopes) (ho : forest.store.Owns s x o) :
    o ∈ forest.scopes := by
  obtain ⟨d, ho, -⟩ := ho
  exact h.ancestor hs ho

end Formed

end Forest

namespace Store

variable {store : Store α} {i j : Nat} {x y : String} {v : α} {s t o : Scope}

/-- Changing a binding makes none, in any frame. -/
theorem has_put (hi : i < store.frames.size) (hx : Bindings.has (store.frame i) x) :
    Bindings.has ((store.put i x v).frame j) y = Bindings.has (store.frame j) y := by
  rw [frame_put _ _ _ _ _ hi]
  split
  · next hj =>
    subst hj
    unfold Bindings.has at hx ⊢
    rw [Bindings.get?_put]
    split
    · next hy =>
      subst hy
      exact hx.symm
    · rfl
  · rfl

theorem owner?_put (hi : i < store.frames.size) (hx : Bindings.has (store.frame i) x)
    (chain : List Nat) : (store.put i x v).owner? chain y = store.owner? chain y := by
  unfold owner?
  simp only [has_put hi hx]

/-- Changing a binding is seen where the name is found in that frame, and nowhere else. -/
theorem get?_put (hi : i < store.frames.size) (hx : Bindings.has (store.frame i) x) :
    (store.put i x v).get? t y =
      if store.owner? t.chain y = some i ∧ y = x then some v else store.get? t y := by
  unfold get?
  rw [owner?_put hi hx]
  cases howner : store.owner? t.chain y with
  | none => simp
  | some j =>
    simp only [Option.bind_some, Option.some.injEq, frame_put _ _ _ _ _ hi]
    by_cases hj : j = i
    · subst hj
      simp [Bindings.get?_put]
    · simp [hj]

/-- A write succeeds at the owner of the name, and changes its binding there. -/
theorem assign?_eq_some_iff (store : Store α) (s : Scope) (x : String) (v : α) (after : Store α) :
    store.assign? s x v = some after ↔
      ∃ o, store.Owns s x o ∧ after = store.put o.frame x v := by
  unfold assign?
  rw [Option.map_eq_some_iff]
  constructor
  · rintro ⟨i, hi, rfl⟩
    obtain ⟨o, ho, rfl⟩ := (owner?_eq_some_iff_owns store s x i).1 hi
    exact ⟨o, ho, rfl⟩
  · rintro ⟨o, ho, rfl⟩
    exact ⟨o.frame, (owner?_eq_some_iff_owns store s x o.frame).2 ⟨o, ho, rfl⟩, rfl⟩

theorem Owns.has (ho : store.Owns s x o) : Bindings.has (store.frame o.frame) x := by
  obtain ⟨d, hd, hx, -⟩ := ho
  rw [getAt?, hd] at hx
  exact hx

end Store

namespace Forest.Formed

variable {forest : Forest α} {s t o : Scope} {x y : String} {v : α}

/-- The frame in which a name is found is that of one scope only. -/
theorem owner?_eq_frame_iff (h : forest.Formed) (ho : o ∈ forest.scopes) (ht : t ∈ forest.scopes) :
    forest.store.owner? t.chain x = some o.frame ↔ forest.store.Owns t x o := by
  rw [Store.owner?_eq_some_iff_owns]
  constructor
  · rintro ⟨o', ho', hframe⟩
    rwa [← h.own (h.owner_mem ht ho') ho hframe]
  · intro hown
    exact ⟨o, hown, rfl⟩

/-- A write through one scope is seen through the scopes with the same owner of the name. -/
theorem get?_of_owns (h : forest.Formed) (ho : o ∈ forest.scopes) (ht : t ∈ forest.scopes)
    (hx : Bindings.has (forest.store.frame o.frame) x) (hown : forest.store.Owns t x o) :
    (forest.store.put o.frame x v).get? t x = some v := by
  rw [Store.get?_put (h.frame_lt ho) hx]
  exact if_pos ⟨(h.owner?_eq_frame_iff ho ht).2 hown, rfl⟩

/-- It is seen through no other scope, and in no other name. -/
theorem get?_of_not_owns (h : forest.Formed) (ho : o ∈ forest.scopes) (ht : t ∈ forest.scopes)
    (hx : Bindings.has (forest.store.frame o.frame) x)
    (hother : ¬(y = x ∧ forest.store.Owns t x o)) :
    (forest.store.put o.frame x v).get? t y = forest.store.get? t y := by
  rw [Store.get?_put (h.frame_lt ho) hx]
  refine if_neg fun ⟨howner, hy⟩ => hother ⟨hy, ?_⟩
  subst hy
  exact (h.owner?_eq_frame_iff ho ht).1 howner

/-- A name is bound in one scope, and nothing else in any. -/
theorem getLocal?_put (h : forest.Formed) (ho : o ∈ forest.scopes) (ht : t ∈ forest.scopes) :
    (forest.store.put o.frame x v).getLocal? t y =
      if t = o ∧ y = x then some v else forest.store.getLocal? t y := by
  unfold Store.getLocal?
  rw [Store.frame_put _ _ _ _ _ (h.frame_lt ho)]
  by_cases hframe : t.frame = o.frame
  · obtain rfl := h.own ht ho hframe
    simp [Bindings.get?_put]
  · have hto : t ≠ o := fun heq => hframe (heq ▸ rfl)
    simp [hframe, hto]

end Forest.Formed

namespace Forest

/-! ## The laws of reads and writes -/

variable {forest after : Forest α} {s : Scope} {x : String} {v : α} {d : Nat}

/-- What a write of a name through a scope has done, if the name is owned by a scope around it. -/
structure Assigned (forest after : Forest α) (s : Scope) (x : String) (v : α) (o : Scope) :
    Prop where
  owner : forest.store.Owns s x o
  seen : ∀ t ∈ forest.scopes, forest.store.Owns t x o → after.store.get? t x = some v
  unseen : ∀ t ∈ forest.scopes, ∀ y, ¬(y = x ∧ forest.store.Owns t x o) →
    after.store.get? t y = forest.store.get? t y
  bound : ∀ t ∈ forest.scopes, ∀ y,
    (after.store.getLocal? t y).isSome = (forest.store.getLocal? t y).isSome
  scopes : after.scopes = forest.scopes

/-- What a write at a distance has done, if there is a scope at that distance. -/
structure AssignedAt (forest after : Forest α) (s : Scope) (d : Nat) (x : String) (v : α)
    (o : Scope) : Prop where
  distance : Scope.ancestor? d s = some o
  binding : ∀ t ∈ forest.scopes, ∀ y, after.store.getLocal? t y =
    if t = o ∧ y = x then some v else forest.store.getLocal? t y
  scopes : after.scopes = forest.scopes

theorem keep_eq_done {written : Option (Store α)} (h : forest.keep written = (after, true)) :
    ∃ store, written = some store ∧ after = { forest with store } := by
  cases written with
  | none => exact nomatch h
  | some store => exact ⟨store, rfl, (congrArg Prod.fst h).symm⟩

theorem keep_eq_failed {written : Option (Store α)} (h : forest.keep written = (after, false)) :
    after = forest := by
  cases written with
  | none => exact (congrArg Prod.fst h).symm
  | some store => exact nomatch h

theorem keep_failed_iff {written : Option (Store α)} :
    (forest.keep written).2 = false ↔ written = none := by
  cases written with
  | none => exact ⟨fun _ => rfl, fun _ => rfl⟩
  | some store => exact ⟨nofun, nofun⟩

theorem Formed.assigned (h : forest.Formed) (hs : s ∈ forest.scopes)
    (hdone : forest.answer (.assign s x v) = (after, true)) :
    ∃ o, forest.Assigned after s x v o := by
  obtain ⟨store, hstore, rfl⟩ := keep_eq_done hdone
  obtain ⟨o, hown, rfl⟩ := (Store.assign?_eq_some_iff _ _ _ _ _).1 hstore
  have ho := h.owner_mem hs hown
  have hx := hown.has
  exact ⟨o, {
    owner := hown
    seen := fun t ht => h.get?_of_owns ho ht hx
    unseen := fun t ht y => h.get?_of_not_owns ho ht hx
    bound := fun t _ y => Store.has_put (h.frame_lt ho) hx
    scopes := rfl }⟩

theorem Formed.assignedAt (h : forest.Formed) (hs : s ∈ forest.scopes)
    (hdone : forest.answer (.assignAt s d x v) = (after, true)) :
    ∃ o, forest.AssignedAt after s d x v o := by
  obtain ⟨store, hstore, rfl⟩ := keep_eq_done hdone
  obtain ⟨o, hdistance, rfl⟩ := Option.map_eq_some_iff.1 hstore
  have ho := h.ancestor hs hdistance
  exact ⟨o, ⟨hdistance, fun t ht y => h.getLocal?_put ho ht, rfl⟩⟩

/-- The laws of reads and writes in a forest that has come of any requests: a walk outward is the
first of the reads at each distance that finds the name; a write that walks outward is seen through
the scopes with the same owner of the name, changes nothing else and binds no new name; it fails
where a read does; a write at a distance changes one name in one scope; and a write that fails
changes nothing. -/
theorem scope_laws (hforest : forest.Grown) (hs : s ∈ forest.scopes) :
    (∀ x u, forest.store.get? s x = some u ↔
      ∃ d, forest.store.getAt? s d x = some u ∧ ∀ e < d, forest.store.getAt? s e x = none) ∧
    (∀ x v after, forest.answer (.assign s x v) = (after, true) →
      ∃ o, forest.Assigned after s x v o) ∧
    (∀ x v, (forest.answer (.assign s x v)).2 = false ↔ forest.store.get? s x = none) ∧
    (∀ x v after, forest.answer (.assign s x v) = (after, false) → after = forest) ∧
    (∀ d x v after, forest.answer (.assignAt s d x v) = (after, true) →
      ∃ o, forest.AssignedAt after s d x v o) ∧
    (∀ d x v, (forest.answer (.assignAt s d x v)).2 = false ↔ Scope.ancestor? d s = none) ∧
    (∀ d x v after, forest.answer (.assignAt s d x v) = (after, false) → after = forest) := by
  have h := hforest.formed
  refine ⟨fun x u => forest.store.get?_eq_some_iff_getAt? s x u, fun x v after => h.assigned hs,
    fun x v => keep_failed_iff.trans (forest.store.assign?_eq_none_iff s x v),
    fun x v after => keep_eq_failed, fun d x v after => h.assignedAt hs,
    fun d x v => keep_failed_iff.trans Option.map_eq_none_iff, fun d x v after => keep_eq_failed⟩

/-- One scope with two more inside it; the first of these has a binding of its own for a name of the
outermost. -/
def siblings : Forest Nat :=
  ⟨[⟨2, [0]⟩, ⟨1, [0]⟩, ⟨0, []⟩], ⟨#[[("a", 1), ("b", 2)], [("a", 3)], []]⟩⟩

theorem siblings_grown : siblings.Grown :=
  .answer (.newInside ⟨0, []⟩ [])
    (.answer (.define ⟨1, [0]⟩ "a" 3)
      (.answer (.newInside ⟨0, []⟩ [])
        (.answer (.newRoot [("a", 1), ("b", 2)]) .empty nofun) (by decide)) (by decide)) (by decide)

/-- What is written to `b` through one of two scopes is read through the other, and what is written
to `a` is not. -/
theorem siblings_share : siblings.Grown ∧ (⟨1, [0]⟩ : Scope) ∈ siblings.scopes ∧
    (∃ o, siblings.Assigned (siblings.answer (.assign ⟨1, [0]⟩ "b" 5)).1 ⟨1, [0]⟩ "b" 5 o) ∧
    (∃ o, siblings.Assigned (siblings.answer (.assign ⟨1, [0]⟩ "a" 5)).1 ⟨1, [0]⟩ "a" 5 o) :=
  have hs : (⟨1, [0]⟩ : Scope) ∈ siblings.scopes := by decide
  have laws := (scope_laws siblings_grown hs).2.1
  ⟨siblings_grown, hs, laws "b" 5 _ rfl, laws "a" 5 _ rfl⟩

end Forest

end LoxLang
