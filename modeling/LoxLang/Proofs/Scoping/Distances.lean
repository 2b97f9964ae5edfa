import Mathlib
import LoxLang.Proofs.Grammar.Sources
import LoxLang.Proofs.Numbers.Rules
import LoxLang.Proofs.Scanning.Items
import LoxLang.Proofs.Scoping.Violations

/-!
# Distances are lexical

What a walk records of a mention is how far out the innermost scope is that has declared its name
before. No two mentions have the same number, so no record is overwritten: in the end the distances
are those of all mentions that a local scope has declared, and nothing else is recorded.

1. `Stmt.mentioned_encounters`: the mentions that are looked up are all mentions of a tree.
2. `distances_eq_lexical`: what is recorded for a program.
-/

namespace LoxLang

namespace Encounter

/-- The mentions that are looked up. -/
def mentioned (vs : List Encounter) : List Occurrence :=
  vs.filterMap fun v => v.act.mention?

@[simp]
theorem mentioned_append (vs vs' : List Encounter) :
    mentioned (vs ++ vs') = mentioned vs ++ mentioned vs' :=
  List.filterMap_append

@[simp]
theorem mentioned_cons (v : Encounter) (vs : List Encounter) :
    mentioned (v :: vs) = v.act.mention?.toList ++ mentioned vs := by
  cases h : v.act.mention? <;> simp [mentioned, h]

end Encounter

open Encounter (mentioned)

theorem mentioned_declarations (around : List LocalScope) (params : List Token) :
    mentioned (LocalScope.declarations around params) = [] := by
  induction params generalizing around with
  | nil => rfl
  | cons t params ih => simp [LocalScope.declarations, Act.mention?, ih]

mutual

theorem Expr.mentioned_encounters (p : Place) : (e : Expr) →
    (mentioned (e.encounters p)).Perm e.mentions
  | .literal _ => .refl _
  | .grouping inner => inner.mentioned_encounters p
  | .unary _ operand => operand.mentioned_encounters p
  | .binary left _ right => by
    rw [Expr.encounters, Encounter.mentioned_append]
    exact (left.mentioned_encounters p).append (right.mentioned_encounters p)
  | .logical left _ right => by
    rw [Expr.encounters, Encounter.mentioned_append]
    exact (left.mentioned_encounters p).append (right.mentioned_encounters p)
  | .var name => .refl _
  | .assign target value => by
    rw [Expr.encounters, Encounter.mentioned_append]
    exact (value.mentioned_encounters p).append (.refl _)
  | .call callee _ arguments => by
    rw [Expr.encounters, Encounter.mentioned_append]
    exact (callee.mentioned_encounters p).append (Expr.mentioned_allEncounters p arguments)
  | .get object _ => object.mentioned_encounters p
  | .set object _ value => by
    rw [Expr.encounters, Encounter.mentioned_append]
    exact ((value.mentioned_encounters p).append (object.mentioned_encounters p)).trans
      List.perm_append_comm
  | .this keyword => .refl _
  | .super keyword _ => .refl _

theorem Expr.mentioned_allEncounters (p : Place) : (es : List Expr) →
    (mentioned (Expr.allEncounters p es)).Perm (Expr.allMentions es)
  | [] => .refl _
  | e :: rest => by
    rw [Expr.allEncounters, Encounter.mentioned_append]
    exact (e.mentioned_encounters p).append (Expr.mentioned_allEncounters p rest)

end

mutual

/-- The mentions that are looked up are all there are, each once. -/
theorem Stmt.mentioned_encounters : (s : Stmt) → (around : List LocalScope) →
    (mentioned (s.encounters around)).Perm s.mentions
  | .expression value, around => value.mentioned_encounters _
  | .print value, around => value.mentioned_encounters _
  | .varDecl name (some value), around => value.mentioned_encounters _
  | .varDecl name none, around => .refl _
  | .block body, around => Stmt.mentioned_allEncounters body _
  | .ifThen condition thenBranch, around => by
    rw [Stmt.encounters, Encounter.mentioned_append]
    exact (condition.mentioned_encounters _).append (thenBranch.mentioned_encounters _)
  | .ifElse condition thenBranch elseBranch, around => by
    rw [Stmt.encounters, Encounter.mentioned_append, Encounter.mentioned_append]
    exact (condition.mentioned_encounters _).append
      ((thenBranch.mentioned_encounters _).append (elseBranch.mentioned_encounters _))
  | .whileDo condition body, around => by
    rw [Stmt.encounters, Encounter.mentioned_append]
    exact (condition.mentioned_encounters _).append (body.mentioned_encounters _)
  | .funDecl decl, around => decl.mentioned_encounters .function _
  | .ret keyword (some value), around => value.mentioned_encounters _
  | .ret keyword none, around => .refl _
  | .classDecl name none methods, around => FunctionDecl.mentioned_allEncounters methods _
  | .classDecl name (some parent) methods, around =>
    (FunctionDecl.mentioned_allEncounters methods _).cons parent

theorem FunctionDecl.mentioned_encounters (role : Role) : (decl : FunctionDecl) →
    (around : List LocalScope) → (mentioned (decl.encounters role around)).Perm decl.mentions
  | ⟨name, params, body⟩, around => by
    rw [FunctionDecl.encounters, Encounter.mentioned_append, mentioned_declarations]
    exact Stmt.mentioned_allEncounters body _

theorem Stmt.mentioned_allEncounters : (body : List Stmt) → (around : List LocalScope) →
    (mentioned (Stmt.allEncounters around body)).Perm (Stmt.allMentions body)
  | [], _ => .refl _
  | s :: rest, around => by
    rw [Stmt.allEncounters, Encounter.mentioned_append]
    exact (s.mentioned_encounters _).append (Stmt.mentioned_allEncounters rest _)

theorem FunctionDecl.mentioned_allEncounters : (methods : List FunctionDecl) →
    (around : List LocalScope) →
    (mentioned (FunctionDecl.allEncounters around methods)).Perm
      (FunctionDecl.allMentions methods)
  | [], _ => .refl _
  | m :: rest, around => by
    rw [FunctionDecl.allEncounters, Encounter.mentioned_append]
    exact (m.mentioned_encounters .method _).append
      (FunctionDecl.mentioned_allEncounters rest _)

end

/-! ## Records -/

namespace Encounter

/-- What is recorded of a mention says how far out it finds its variable. -/
def Tells (v : Encounter) (id distance : Nat) : Prop :=
  ∃ o, v.act.mention? = some o ∧ o.id = id ∧ v.place.Finds o.name distance

/-- One record is added to those that are known, if its number is new. -/
theorem getElem?_record (v : Encounter) (known : Distances) (id : Nat)
    (hnew : ∀ o, v.act.mention? = some o → o.id = id → known[id]? = none) (distance : Nat) :
    (record known v)[id]? = some distance ↔ known[id]? = some distance ∨ v.Tells id distance := by
  unfold record Tells
  cases hmention : v.act.mention? with
  | none => simp
  | some o =>
    simp only [Option.some.injEq, exists_eq_left', ← Place.distance?_eq_some_iff]
    cases hdistance : v.place.distance? o.name with
    | none => simp
    | some found =>
      by_cases hid : o.id = id
      · simp [hid, hnew o hmention hid]
      · simp [Std.TreeMap.getElem?_insert, hid]

/-- If no two mentions have the same number, all of them that find their variable are recorded. -/
theorem getElem?_foldl_record (vs : List Encounter) (known : Distances)
    (hids : ((mentioned vs).map Occurrence.id).Nodup) {id : Nat}
    (hnew : id ∈ (mentioned vs).map Occurrence.id → known[id]? = none) (distance : Nat) :
    (vs.foldl record known)[id]? = some distance ↔
      known[id]? = some distance ∨ ∃ v ∈ vs, v.Tells id distance := by
  induction vs generalizing known with
  | nil => simp
  | cons v vs ih =>
    rw [mentioned_cons, List.map_append, List.nodup_append] at hids
    rw [mentioned_cons, List.map_append, List.mem_append] at hnew
    have hfirst := getElem?_record v known id
      fun o ho hid => hnew (.inl (by simp [ho, hid]))
    have hrest : id ∈ (mentioned vs).map Occurrence.id → (record known v)[id]? = none := by
      intro hmem
      rw [Option.eq_none_iff_forall_ne_some]
      intro distance hrecord
      rcases (hfirst distance).1 hrecord with hknown | ⟨o, ho, hid, -⟩
      · exact nomatch (hnew (.inr hmem)).symm.trans hknown
      · exact hids.2.2 id (by simp [ho, hid]) id hmem rfl
    rw [List.foldl_cons, ih _ hids.2.1 hrest, hfirst, or_assoc, List.exists_mem_cons_iff]

end Encounter

open Resolution in
/-- In what is found out about the text of a program there is a distance for the number of a mention
just if a local scope around the mention has declared its name before. The distance is how many
scopes lie within the innermost such scope and around the mention. -/
theorem distances_eq_lexical (source : String) (first : Nat) {distances : Distances}
    (h : resolve (Reading.ofSource source first).statements = .ok distances) (id distance : Nat) :
    distances[id]? = some distance ↔
      ∃ v ∈ Stmt.allEncounters [] (Reading.ofSource source first).statements,
        ∃ o, v.act.mention? = some o ∧ o.id = id ∧ v.place.Finds o.name distance := by
  let statements := (Reading.ofSource source first).statements
  obtain ⟨hclean, rfl⟩ := resolve_eq_ok.1 h
  rw [(Stmt.resolveAll_meets statements start_at).1.distances hclean]
  have hnumbered : Numbered first (Stmt.allMentions statements) _ := Parsed.numbered _ first
  have hids := (hnumbered.perm (Stmt.mentioned_allEncounters statements []).symm).nodup
  have hstart : start.distances[id]? = none := Std.TreeMap.getElem?_emptyc
  rw [Encounter.getElem?_foldl_record _ _ hids fun _ => hstart, hstart]
  simp [Encounter.Tells, statements]

/-- In `{var a;a;}` the mention of `a` is in the scope that declares it. -/
theorem distances_eq_lexical_block :
    ∃ distances : Distances, resolve (Reading.ofSource "{var a;a;}" 0).statements = .ok distances ∧
      distances[0]? = some 0 ∧
      ∃ v ∈ Stmt.allEncounters [] (Reading.ofSource "{var a;a;}" 0).statements,
        ∃ o, v.act.mention? = some o ∧ o.id = 0 ∧ v.place.Finds o.name 0 := by
  have hstatements : (Reading.ofSource "{var a;a;}" 0).statements =
      [.block [.varDecl ⟨.identifier, "a", 1⟩ none,
        .expression (.var ⟨0, ⟨.identifier, "a", 1⟩⟩)]] := by
    rw [Reading.ofSource, scan_eq]
    cbv
  have hresolve : resolve (Reading.ofSource "{var a;a;}" 0).statements =
      .ok ((∅ : Distances).insert 0 0) := by
    rw [hstatements]
    rfl
  have hrecorded : ((∅ : Distances).insert 0 0)[0]? = some 0 := rfl
  exact ⟨_, hresolve, hrecorded, (distances_eq_lexical _ 0 hresolve 0 0).1 hrecorded⟩

end LoxLang
