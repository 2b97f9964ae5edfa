import LoxLang.Proofs.Renaming.Trees
import LoxLang.Proofs.Scoping.Soundness

/-!
# Resolutions of renamed programs

A resolution of a program in which a local variable is renamed goes through the same scopes, but
for the name in the scope of the variable. This module has the steps of such a resolution, one by
one.

1. `Resolution.locate?_rename`: where names are found.
2. `Resolution.Renamed`: what two such resolutions have in common.
-/

namespace LoxLang

variable {x y : String}

namespace Bindings

variable {α : Type}

/-- The name `x` becomes `y`. -/
def rename (x y : String) (b : Bindings α) : Bindings α :=
  b.map fun p => (if p.1 = x then y else p.1, p.2)

theorem get?_cons_eq_none {p : String × α} {b : Bindings α} {z : String}
    (h : get? (p :: b) z = none) : z ≠ p.1 ∧ b.get? z = none := by
  rw [get?_cons] at h
  split at h
  · exact nomatch h
  · next hp => exact ⟨hp, h⟩

theorem get?_rename {b : Bindings α} (hfresh : b.get? y = none) {z : String} (hz : z ≠ y) :
    (b.rename x y).get? (if z = x then y else z) = b.get? z := by
  induction b with
  | nil => rfl
  | cons p b ih =>
    obtain ⟨hp, hb⟩ := get?_cons_eq_none hfresh
    specialize ih hb
    simp only [rename, List.map_cons, get?_cons] at ih ⊢
    by_cases hpx : p.1 = x <;> by_cases hzx : z = x <;> simp_all [eq_comm]

theorem get?_rename_old {b : Bindings α} (hxy : x ≠ y) : (b.rename x y).get? x = none := by
  induction b with
  | nil => rfl
  | cons p b ih =>
    simp only [rename, List.map_cons, get?_cons] at ih ⊢
    by_cases hpx : p.1 = x
    · simpa [hpx, hxy] using ih
    · simpa [hpx, Ne.symm hpx] using ih

theorem rename_put {b : Bindings α} (hfresh : b.get? y = none) {z : String} (hz : z ≠ y)
    (value : α) :
    (b.put z value).rename x y = (b.rename x y).put (if z = x then y else z) value := by
  induction b with
  | nil => rfl
  | cons p b ih =>
    obtain ⟨hp, hb⟩ := get?_cons_eq_none hfresh
    specialize ih hb
    simp only [rename, List.map_cons, put] at ih ⊢
    by_cases hpx : p.1 = x <;> by_cases hzx : z = x <;> by_cases hpz : z = p.1 <;>
      simp_all [eq_comm]

end Bindings

namespace Resolution

/-- No scope has the name. -/
def Lacks (y : String) (scopes : List LexicalScope) : Prop :=
  ∀ scope ∈ scopes, Bindings.get? scope y = none

theorem locate?_cons (scope : LexicalScope) (outer : List LexicalScope) (z : String) :
    locate? (scope :: outer) z =
      if (Bindings.get? scope z).isSome then some 0 else (locate? outer z).map (· + 1) :=
  List.findIdx?_cons

/-- A name is found where it was, if it is renamed where it means the variable, and nowhere else. -/
theorem locate?_rename (hxy : x ≠ y) {scopes : List LexicalScope} (hlacks : Lacks y scopes)
    {z : String} (hz : z ≠ y) (n : Nat) :
    locate? (scopes.modify n (Bindings.rename x y))
        (if locate? scopes z = some n ∧ z = x then y else z) = locate? scopes z := by
  induction scopes generalizing n with
  | nil => simp [locate?]
  | cons scope outer ih =>
    obtain ⟨hscope, houter⟩ := List.forall_mem_cons.1 hlacks
    specialize ih houter
    cases n with
    | zero =>
      have hget := Bindings.get?_rename (x := x) hscope hz
      by_cases hx : z = x
      · subst hx
        by_cases hhas : (Bindings.get? scope z).isSome
        · simp_all [locate?_cons]
        · simp_all [locate?_cons, Bindings.get?_rename_old hxy]
      · simp_all [locate?_cons]
    | succ n =>
      by_cases hhas : (Bindings.get? scope z).isSome
      · simp_all [locate?_cons]
      · have hnone : (Bindings.get? scope
            (if locate? outer z = some n ∧ z = x then y else z)).isSome = false := by
          split
          · simp [hscope]
          · simpa using hhas
        have hmap : (locate? outer z).map (· + 1) = some (n + 1) ↔ locate? outer z = some n := by
          simp
        rw [locate?_cons scope outer, if_neg hhas]
        simp only [hmap, List.modify_succ_cons]
        rw [locate?_cons, hnone, ih n, if_neg Bool.false_ne_true]

/-- Two resolutions at the same place, `n` scopes inside the scope of the variable, of a program
and of the program in which it is renamed. -/
structure Renamed (x y : String) (n : Nat) (r r' : Resolution) : Prop where
  scopes : r'.scopes = r.scopes.modify n (Bindings.rename x y)
  inFunction : r'.inFunction = r.inFunction
  inClass : r'.inClass = r.inClass
  distances : r'.distances = r.distances
  errors : r'.errors = r.errors
  lacks : Lacks y r.scopes

namespace Renamed

variable {k : Knowledge} {n : Nat} {r r' : Resolution}

/-- So far out there is no scope. -/
theorem self (hlacks : Lacks y r.scopes) : Renamed x y (r.scopes.length + 1) r r :=
  ⟨(List.modify_eq_self (Nat.le_succ _)).symm, rfl, rfl, rfl, rfl, hlacks⟩

/-- Into the scope of the variable. -/
theorem start (hlacks : Lacks y r.scopes) : Renamed x y 0 r.enter r.enter :=
  ⟨rfl, rfl, rfl, rfl, rfl, List.forall_mem_cons.2 ⟨rfl, hlacks⟩⟩

theorem enter (h : Renamed x y n r r') : Renamed x y (n + 1) r.enter r'.enter :=
  { h with
    scopes := congrArg (List.cons []) h.scopes
    lacks := List.forall_mem_cons.2 ⟨rfl, h.lacks⟩ }

theorem leave (h : Renamed x y (n + 1) r r') : Renamed x y n r.leave r'.leave where
  scopes := by
    have hscopes := congrArg List.tail h.scopes
    cases hr : r.scopes <;> simpa [Resolution.leave, hr] using hscopes
  inFunction := h.inFunction
  inClass := h.inClass
  distances := h.distances
  errors := h.errors
  lacks scope hm := h.lacks scope (List.mem_of_mem_tail hm)

/-- Out of the scope of the variable. -/
theorem leave_eq (h : Renamed x y 0 r r') : r'.leave = r.leave := by
  have hscopes : r'.leave.scopes = r.leave.scopes := by
    have hscopes := congrArg List.tail h.scopes
    cases hr : r.scopes <;> simpa [Resolution.leave, hr] using hscopes
  obtain ⟨-, hfunction, hclass, hdistances, herrors, -⟩ := h
  unfold Resolution.leave at hscopes ⊢
  simp_all

theorem report (h : Renamed x y n r r') (t : Token) (fault : ScopingFault) :
    Renamed x y n (r.report t fault) (r'.report t fault) :=
  { h with errors := congrArg (· ++ [_]) h.errors }

theorem put (h : Renamed x y n r r') {z : String} (hz : z ≠ y) (status : Status) :
    Renamed x y n (r.put z status) (r'.put (if n = 0 ∧ z = x then y else z) status) := by
  unfold Resolution.put
  rw [h.scopes]
  have hlacks := h.lacks
  cases hr : r.scopes with
  | nil =>
    rw [List.modify_nil]
    exact h
  | cons scope outer =>
    rw [hr] at hlacks
    obtain ⟨hscope, houter⟩ := List.forall_mem_cons.1 hlacks
    have hput : ∀ scope' ∈ Bindings.put z status scope :: outer, Bindings.get? scope' y = none := by
      refine List.forall_mem_cons.2 ⟨?_, houter⟩
      rw [Bindings.get?_put, if_neg hz.symm, hscope]
    cases n with
    | zero =>
      refine { h with scopes := ?_, lacks := hput }
      simp only [List.modify_zero_cons, true_and, Bindings.rename_put hscope hz]
    | succ n => exact { h with scopes := by simp, lacks := hput }

/-- A declaration that is no fault is none where the variable is renamed. -/
theorem declare (h : Renamed x y n r r') {t : Token} (ht : t.lexeme ≠ y)
    (hc : (r.declare t).errors = []) :
    Renamed x y n (r.declare t) (r'.declare (t.renameAt x y n)) := by
  have hput := h.put ht .declared
  rw [← Token.lexeme_renameAt] at hput
  have hlacks := h.lacks
  unfold Resolution.declare at hc ⊢
  rw [h.scopes]
  cases hr : r.scopes with
  | nil =>
    rw [List.modify_nil]
    exact h
  | cons scope outer =>
    simp only [hr] at hc
    obtain ⟨hscope, -⟩ := List.forall_mem_cons.1 (hr ▸ hlacks)
    split at hc
    · exact absurd hc (not_clean_report _ _ _)
    · next hnew =>
      simp only [hnew, if_false, Bool.false_eq_true]
      cases n with
      | zero =>
        have hget := Bindings.get?_rename (x := x) hscope ht
        have hnew' : ¬Bindings.has (Bindings.rename x y scope) (t.renameAt x y 0).lexeme := by
          rw [Token.lexeme_renameAt, Bindings.has]
          simpa [hget, Bindings.has] using hnew
        simpa only [List.modify_zero_cons, hnew', if_false, Bool.false_eq_true] using hput
      | succ n =>
        have hsame : t.renameAt x y (n + 1) = t :=
          Token.renameAt_of_ne fun hn => absurd hn (Nat.succ_ne_zero n)
        rw [hsame] at hput ⊢
        simpa only [List.modify_succ_cons, hnew, if_false, Bool.false_eq_true] using hput

/-- A name that is not the variable's. -/
theorem put_other (h : Renamed x y n r r') {z : String} (hz : z ≠ y) (hx : z = x → n ≠ 0)
    (status : Status) : Renamed x y n (r.put z status) (r'.put z status) := by
  have hput := h.put hz status
  rwa [if_neg fun hc => hx hc.2 hc.1] at hput

theorem define (h : Renamed x y n r r') {t : Token} (ht : t.lexeme ≠ y) :
    Renamed x y n (r.define t) (r'.define (t.renameAt x y n)) := by
  have hput := h.put ht .defined
  rwa [← Token.lexeme_renameAt] at hput

theorem introduce (h : Renamed x y n r r') {t : Token} (ht : t.lexeme ≠ y)
    (hc : (r.introduce t).errors = []) :
    Renamed x y n (r.introduce t) (r'.introduce (t.renameAt x y n)) :=
  (h.declare ht ((put_leads _ _ _).clean hc)).define ht

theorem introduce_other (h : Renamed x y n r r') {t : Token} (ht : t.lexeme ≠ y)
    (hx : n = 0 → t.lexeme ≠ x) (hc : (r.introduce t).errors = []) :
    Renamed x y n (r.introduce t) (r'.introduce t) := by
  have hintroduce := h.introduce ht hc
  rwa [Token.renameAt_of_ne hx] at hintroduce

theorem refer (h : Renamed x y n r r') {o o' : Occurrence} (hid : o'.id = o.id)
    (hlocate : locate? r'.scopes o'.name = locate? r.scopes o.name) :
    Renamed x y n (r.refer o) (r'.refer o') := by
  unfold Resolution.refer
  rw [hlocate, hid]
  split
  · next distance _ =>
    exact { h with distances := congrArg (·.insert o.id distance) h.distances }
  · exact h

/-- A name other than the two is found where it was. -/
theorem refer_other (hxy : x ≠ y) (h : Renamed x y n r r') {o : Occurrence} (hx : o.name ≠ x)
    (hy : o.name ≠ y) : Renamed x y n (r.refer o) (r'.refer o) := by
  have hlocate := locate?_rename hxy h.lacks hy n
  rw [if_neg fun hc => hx hc.2] at hlocate
  exact h.refer rfl (h.scopes ▸ hlocate)

theorem name_rename {distances : Distances} {o : Occurrence} :
    (o.rename distances x y n).name =
      if distances[o.id]? = some n ∧ o.name = x then y else o.name := by
  unfold Occurrence.rename
  by_cases hn : distances[o.id]? = some n
  · simp only [hn, if_true, true_and]
    exact Token.lexeme_rename o.token
  · simp [hn]

theorem id_rename {distances : Distances} {o : Occurrence} :
    (o.rename distances x y n).id = o.id := by
  unfold Occurrence.rename
  split <;> rfl

/-- A mention that is recorded where it is found. -/
theorem mention (hxy : x ≠ y) (h : Renamed x y n r r') {o : Occurrence}
    (ht : k.Traces r.around o) (hy : o.name ≠ y) :
    Renamed x y n (r.refer o) (r'.refer (o.rename k.distances x y n)) := by
  refine h.refer id_rename ?_
  rw [name_rename, ht.2, ← locate?_scopes, h.scopes]
  exact locate?_rename hxy h.lacks hy n

/-- A name whose initial value is not being computed is none where the variable is renamed. -/
theorem not_initializing (hxy : x ≠ y) (h : Renamed x y n r r') {z : String} (hz : z ≠ y)
    (hi : ¬r.initializing z) :
    ¬r'.initializing (if locate? r.scopes z = some n ∧ z = x then y else z) := by
  have hlacks := h.lacks
  unfold initializing at hi ⊢
  rw [h.scopes]
  cases hr : r.scopes with
  | nil => simp
  | cons scope outer =>
    obtain ⟨hscope, -⟩ := List.forall_mem_cons.1 (hr ▸ hlacks)
    simp only [hr, decide_eq_true_eq] at hi
    cases n with
    | zero =>
      have hget := Bindings.get?_rename (x := x) hscope hz
      by_cases hx : z = x
      · subst hx
        by_cases hhas : (Bindings.get? scope z).isSome
        · simp_all [locate?_cons]
        · simp_all [locate?_cons, Bindings.get?_rename_old hxy]
      · simp_all
    | succ n =>
      rw [List.modify_succ_cons]
      simp only [decide_eq_true_eq]
      split
      · simp [hscope]
      · exact hi

theorem read (hxy : x ≠ y) (h : Renamed x y n r r') {o : Occurrence} (hy : o.name ≠ y)
    (hk : Records k [o] r (r.read o)) (hc : (r.read o).errors = []) :
    Renamed x y n (r.read o) (r'.read (o.rename k.distances x y n)) := by
  obtain ⟨ht, hi⟩ := traces_of_read hk hc
  have hi' : ¬r'.initializing (o.rename k.distances x y n).name := by
    rw [name_rename, ht.2, ← locate?_scopes]
    exact h.not_initializing hxy hy hi
  rw [Resolution.read, if_neg hi, Resolution.read, if_neg hi']
  exact h.mention hxy ht hy

theorem this (hxy : x ≠ y) (hx : IsName x) (hy : IsName y) (h : Renamed x y n r r')
    {o : Occurrence} (ho : o.name = "this") : Renamed x y n (r.this o) (r'.this o) := by
  have hrefer := h.refer_other hxy (o := o) (ho ▸ hx.ne_this.symm) (ho ▸ hy.ne_this.symm)
  unfold Resolution.this
  rw [h.inClass]
  split
  · exact h.report _ _
  · exact hrefer

theorem super (hxy : x ≠ y) (hx : IsName x) (hy : IsName y) (h : Renamed x y n r r')
    {o : Occurrence} (ho : o.name = "super") : Renamed x y n (r.super o) (r'.super o) := by
  have hrefer {r r' : Resolution} (h : Renamed x y n r r') :=
    h.refer_other hxy (o := o) (ho ▸ hx.ne_super.symm) (ho ▸ hy.ne_super.symm)
  unfold Resolution.super
  rw [h.inClass]
  split
  · exact hrefer (h.report _ _)
  · exact hrefer (h.report _ _)
  · exact hrefer h

theorem leaveFunction (h : Renamed x y n r r') (keyword : Token) (hasValue : Bool) :
    Renamed x y n (r.leaveFunction keyword hasValue) (r'.leaveFunction keyword hasValue) := by
  unfold Resolution.leaveFunction
  rw [h.inFunction]
  split
  · exact h.report _ _
  · exact h.report _ _
  · exact h

theorem inside (h : Renamed x y n r r') {c c' : ClassContext} (hc : c' = c) :
    Renamed x y n { r with inClass := c } { r' with inClass := c' } :=
  { h with inClass := hc }

theorem within (h : Renamed x y n r r') {c c' : FunctionContext} (hc : c' = c) :
    Renamed x y n { r with inFunction := c } { r' with inFunction := c' } :=
  { h with inFunction := hc }

theorem inherit (hxy : x ≠ y) (h : Renamed x y n r r') {name : Token} {o : Occurrence}
    (hname : name.lexeme ≠ y) (hy : o.name ≠ y) (hk : Records k [o] r (r.inherit name o))
    (hc : (r.inherit name o).errors = []) :
    Renamed x y n (r.inherit name o) (r'.inherit name (o.rename k.distances x y n)) := by
  obtain ⟨⟨hne, -⟩, -⟩ := scoped_of_inherit hk hc
  have hne' : (o.rename k.distances x y n).name ≠ name.lexeme := by
    rw [name_rename]
    split
    · exact hname.symm
    · exact hne
  unfold Resolution.inherit at hk hc ⊢
  rw [if_neg hne] at hk hc ⊢
  rw [if_neg hne']
  exact (h.inside rfl).read hxy hy (hk.inner (inClass_leads r .subclass) (.refl _)) hc

theorem introduceAll (h : Renamed x y n r r') {params : List Token}
    (hy : ∀ p ∈ params, p.lexeme ≠ y) (hc : (params.foldl Resolution.introduce r).errors = []) :
    Renamed x y n (params.foldl Resolution.introduce r)
      ((params.map (Token.renameAt x y n)).foldl Resolution.introduce r') := by
  induction params generalizing r r' with
  | nil => exact h
  | cons p params ih =>
    obtain ⟨hp, hparams⟩ := List.forall_mem_cons.1 hy
    exact ih (h.introduce hp ((introduceAll_leads params _).clean hc)) hparams hc

end Renamed

end Resolution

end LoxLang
