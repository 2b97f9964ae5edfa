import Mathlib.Data.List.Forall2
import LoxLang.Proofs.Scoping.Encounters

/-!
# The errors of a walk are the rules that are broken

A walk through a program remembers the names in each scope around it, how far the innermost of them
has come, and what kind of function and class is around it. All of this is what the place it stands
at says. So the walk takes note of each thing that the program does as the rules ask for it, and
goes on after an error as if there had been none.

1. `Stmt.resolve_meets`: a walk meets all that a statement does.
2. `errors_eq_violations`: there is an error for each rule that is broken, and for nothing else.
-/

namespace LoxLang

/-! ## Declarations in the innermost scope -/

namespace LocalScope

@[simp]
theorem declare_nil (around : List LocalScope) : declare [] around = around := by
  cases around with
  | nil => rfl
  | cons here outer => simp [declare]

theorem declare_append (names names' : List String) (around : List LocalScope) :
    declare (names ++ names') around = declare names' (declare names around) := by
  cases around with
  | nil => rfl
  | cons here outer => simp [declare]

end LocalScope

open LocalScope (declare declarations)

/-! ## What is known at a place -/

/-- What kind of function body it is, to a walk. -/
def Role.context : Role → FunctionDecl → FunctionContext
  | .function, _ => .function
  | .method, decl => if decl.isInitializer then .initializer else .method

namespace Place

/-- The function and class bodies around a place, to a walk. -/
def bodies (p : Place) : FunctionContext × ClassContext :=
  (match p.function? with
    | none => .outside
    | some (role, decl) => role.context decl,
   match p.hasSuperclass? with
    | none => .outside
    | some false => .plain
    | some true => .subclass)

/-- How many scopes out the innermost declaration of a name is. -/
def distance? (p : Place) (name : String) : Option Nat :=
  p.scopes.findIdx? fun scope => scope.names.contains name

theorem distance?_eq_some_iff {p : Place} {name : String} {distance : Nat} :
    p.distance? name = some distance ↔ p.Finds name distance := by
  constructor
  · intro h
    obtain ⟨hbound, hhere, hinner⟩ := List.findIdx?_eq_some_iff_getElem.1 h
    refine ⟨p.scopes.take distance, p.scopes[distance], p.scopes.drop (distance + 1), by simp,
      by simp [Nat.le_of_lt hbound], by simpa using hhere, fun scope hscope => ?_⟩
    obtain ⟨i, hi, rfl⟩ := List.mem_take_iff_getElem.1 hscope
    simpa using hinner i (by omega)
  · rintro ⟨inner, here, outer, hscopes, rfl, hhere, hinner⟩
    have hnone : inner.findIdx? (fun scope => scope.names.contains name) = none :=
      List.findIdx?_eq_none_iff.2 fun scope hscope => by simpa using hinner scope hscope
    have hfound : here.names.contains name = true := by simpa using hhere
    rw [distance?, hscopes, List.findIdx?_append, hnone, List.findIdx?_cons, hfound]
    simp

/-- A variable that is declared for the first time is pending in its initial value. -/
theorem pending?_of_notMem {name : String} {here : LocalScope} {outer : List LocalScope}
    (h : name ∉ here.names) :
    (⟨declare [name] (here :: outer), some name⟩ : Place).pending? = some name := by
  have hcount : (here.names ++ [name]).count name = 1 := by
    simp [List.count_append, List.count_eq_zero.2 h]
  exact if_pos hcount

theorem pending?_of_mem {name : String} {here : LocalScope} {outer : List LocalScope}
    (h : name ∈ here.names) :
    (⟨declare [name] (here :: outer), some name⟩ : Place).pending? = none := by
  have hcount : (here.names ++ [name]).count name ≠ 1 := by
    simp [List.count_append, List.count_eq_zero, h]
  exact if_neg hcount

theorem mem_of_pending? {name : String} {here : LocalScope} {outer : List LocalScope}
    {x : Option String} (h : (⟨here :: outer, x⟩ : Place).pending? = some name) :
    name ∈ here.names := by
  cases x with
  | none => exact nomatch h
  | some x =>
    obtain ⟨hcount, rfl⟩ : here.names.count x = 1 ∧ x = name := by simpa [pending?] using h
    exact List.count_pos_iff.1 (by omega)

theorem pending?_initial (name : String) (around : List LocalScope) :
    (⟨around, some name⟩ : Place).pending? = none ∨
      (⟨around, some name⟩ : Place).pending? = some name := by
  cases around with
  | nil => exact .inl rfl
  | cons here outer =>
    by_cases hcount : here.names.count name = 1
    · exact .inr (if_pos hcount)
    · exact .inl (if_neg hcount)

@[simp]
theorem pending?_none (around : List LocalScope) : (⟨around, none⟩ : Place).pending? = none := by
  cases around <;> rfl

theorem bodies_declare (names : List String) (around : List LocalScope) (x y : Option String) :
    (⟨declare names around, x⟩ : Place).bodies = (⟨around, y⟩ : Place).bodies := by
  cases around <;> rfl

theorem bodies_classBody (hasSuperclass : Bool) (names : List String) (around : List LocalScope)
    (x y : Option String) :
    (⟨⟨.classBody hasSuperclass, names⟩ :: around, x⟩ : Place).bodies =
      ((⟨around, y⟩ : Place).bodies.1, if hasSuperclass then .subclass else .plain) := by
  cases hasSuperclass <;> rfl

end Place

namespace Encounter

/-- What is recorded of a mention: how far out its variable is. -/
def record (known : Distances) (v : Encounter) : Distances :=
  match v.act.mention? with
  | none => known
  | some o =>
    match v.place.distance? o.name with
    | none => known
    | some distance => known.insert o.id distance

end Encounter

namespace Resolution

/-- In a scope of a walk are the names that the scope of the program has, all of them defined but
the one that is pending. -/
def Lists (pending : Option String) (scope : LexicalScope) (here : LocalScope) : Prop :=
  ∀ x, Bindings.get? scope x =
    if x ∈ here.names then some (if pending = some x then .declared else .defined) else none

/-- The scopes of a walk are those around a place. Only in the innermost can a name be pending. -/
inductive Tracks : Option String → List LexicalScope → List LocalScope → Prop
  | globals : Tracks none [] []
  | scope {pending : Option String} {scope : LexicalScope} {scopes : List LexicalScope}
      {here : LocalScope} {outer : List LocalScope} :
      Lists pending scope here → Tracks none scopes outer →
      Tracks pending (scope :: scopes) (here :: outer)

/-- A walk stands at a place. -/
structure At (r : Resolution) (p : Place) : Prop where
  scopes : Tracks p.pending? r.scopes p.scopes
  bodies : r.bodies = p.bodies

/-- From `r` to `r'` a walk takes note of all that is done, in order. Where an error is found, the
distances do not matter any more. -/
structure Meets (vs : List Encounter) (r r' : Resolution) : Prop where
  errors : r'.errors = r.errors ++ vs.filterMap Encounter.error?
  distances : r'.errors = [] → r'.distances = vs.foldl Encounter.record r.distances

namespace Meets

variable {vs vs' : List Encounter} {r r' r'' : Resolution}

theorem refl (r : Resolution) : Meets [] r r :=
  ⟨by simp, fun _ => rfl⟩

theorem trans (h : Meets vs r r') (h' : Meets vs' r' r'') : Meets (vs ++ vs') r r'' where
  errors := by rw [h'.errors, h.errors, List.filterMap_append, List.append_assoc]
  distances := by
    intro hclean
    have hclean' : r'.errors = [] := (List.append_eq_nil_iff.1 (h'.errors ▸ hclean)).1
    rw [h'.distances hclean, h.distances hclean', List.foldl_append]

theorem cons {v : Encounter} (h : Meets [v] r r') (h' : Meets vs r' r'') : Meets (v :: vs) r r'' :=
  h.trans h'

/-- What a walk remembers besides does not matter to what it takes note of. -/
theorem congr {s s' : Resolution} (h : Meets vs r r') (herrors : s.errors = r.errors)
    (hdistances : s.distances = r.distances) (herrors' : s'.errors = r'.errors)
    (hdistances' : s'.distances = r'.distances) : Meets vs s s' where
  errors := by rw [herrors', herrors, h.errors]
  distances := by
    rw [herrors', hdistances', hdistances]
    exact h.distances

end Meets

/-! ## Steps of a walk -/

theorem Lists.has_eq {pending : Option String} {scope : LexicalScope} {here : LocalScope}
    (h : Lists pending scope here) (x : String) :
    Bindings.has scope x = here.names.contains x := by
  rw [Bindings.has, h x]
  by_cases hx : x ∈ here.names <;> simp [hx]

theorem Lists.get?_eq_declared_iff {pending : Option String} {scope : LexicalScope}
    {here : LocalScope} {x : String} (h : Lists pending scope here)
    (hpending : pending = some x → x ∈ here.names) :
    Bindings.get? scope x = some .declared ↔ pending = some x := by
  rw [h x]
  by_cases hx : pending = some x
  · simp [hx, hpending hx]
  · simp [hx]

theorem Tracks.locate?_eq {pending : Option String} {scopes : List LexicalScope}
    {around : List LocalScope} {x : Option String} (h : Tracks pending scopes around)
    (name : String) : locate? scopes name = (⟨around, x⟩ : Place).distance? name := by
  unfold locate? Place.distance?
  induction h with
  | globals => rfl
  | scope hhere _ ih => simp only [List.findIdx?_cons, hhere.has_eq, ih]

theorem Tracks.enter {scopes : List LexicalScope} {around : List LocalScope}
    (h : Tracks none scopes around) (construct : Construct) :
    Tracks none ([] :: scopes) (⟨construct, []⟩ :: around) :=
  .scope (fun _ => by simp [Bindings.get?]) h

theorem Tracks.tail {pending : Option String} {scopes : List LexicalScope} {here : LocalScope}
    {outer : List LocalScope} (h : Tracks pending scopes (here :: outer)) :
    Tracks none scopes.tail outer := by
  cases h with
  | scope _ houter => exact houter

variable {r : Resolution} {p : Place} {around : List LocalScope}

/-- To set a name up in the innermost scope is to declare it there. -/
theorem Tracks.put (h : Tracks none r.scopes around) (name : String) :
    Tracks none (r.put name .defined).scopes (LocalScope.declare [name] around) := by
  unfold Resolution.put
  split
  · next hscopes =>
    rw [hscopes] at h ⊢
    cases h
    exact .globals
  · next scope outer hscopes =>
    rw [hscopes] at h
    cases h with
    | scope hhere houter =>
      refine .scope (fun x => ?_) houter
      rw [Bindings.get?_put, hhere x]
      by_cases hx : x = name <;> simp [hx]

/-- The declaration of a name begins. If the name is new to the scope, it is pending. -/
theorem Tracks.declare (h : Tracks none r.scopes around) (t : Token) :
    Tracks (⟨LocalScope.declare [t.lexeme] around, some t.lexeme⟩ : Place).pending?
      (r.declare t).scopes (LocalScope.declare [t.lexeme] around) := by
  unfold Resolution.declare
  split
  · next hscopes =>
    rw [hscopes] at h ⊢
    cases h
    exact .globals
  · next scope scopes hscopes =>
    rw [hscopes] at h
    cases h with
    | @scope _ _ _ here outer hhere houter =>
      rw [hhere.has_eq]
      by_cases hold : t.lexeme ∈ here.names
      · rw [if_pos (by simpa using hold), Place.pending?_of_mem hold]
        show Tracks none r.scopes _
        rw [hscopes]
        refine .scope (fun x => ?_) houter
        rw [hhere x]
        by_cases hx : x = t.lexeme <;> simp [hx, hold]
      · rw [if_neg (by simpa using hold), Place.pending?_of_notMem hold]
        simp only [Resolution.put, hscopes]
        refine .scope (fun x => ?_) houter
        rw [Bindings.get?_put, hhere x]
        by_cases hx : x = t.lexeme
        · simp [hx]
        · simp [hx, Ne.symm hx]

/-- The declaration of a name is complete, and no name is pending any more. -/
theorem Tracks.define {pending : Option String} {t : Token}
    (h : Tracks pending r.scopes (LocalScope.declare [t.lexeme] around))
    (hpending : pending = none ∨ pending = some t.lexeme) :
    Tracks none (r.define t).scopes (LocalScope.declare [t.lexeme] around) := by
  cases around with
  | nil =>
    generalize hscopes : r.scopes = scopes at h
    cases h
    simp only [Resolution.define, Resolution.put, hscopes]
    exact .globals
  | cons here outer =>
    generalize hscopes : r.scopes = scopes at h
    cases h with
    | scope hhere houter =>
      simp only [Resolution.define, Resolution.put, hscopes]
      refine .scope (fun x => ?_) houter
      rw [Bindings.get?_put, hhere x]
      by_cases hx : x = t.lexeme
      · simp [hx]
      · obtain rfl | rfl := hpending <;> simp [hx, Ne.symm hx]

theorem At.inFunction (h : r.At p) : r.inFunction = p.bodies.1 :=
  congrArg Prod.fst h.bodies

theorem At.inClass (h : r.At p) : r.inClass = p.bodies.2 :=
  congrArg Prod.snd h.bodies

theorem errors_put (r : Resolution) (name : String) (status : Status) :
    (r.put name status).errors = r.errors := by
  unfold Resolution.put
  split <;> rfl

theorem distances_put (r : Resolution) (name : String) (status : Status) :
    (r.put name status).distances = r.distances := by
  unfold Resolution.put
  split <;> rfl

theorem errors_refer (r : Resolution) (o : Occurrence) : (r.refer o).errors = r.errors := by
  unfold Resolution.refer
  split <;> rfl

namespace Meets

/-- An error is noted that is due. -/
theorem report {v : Encounter} {t : Token} {fault : ScopingFault}
    (h : v.error? = some ⟨.ofToken t, fault⟩) {r' : Resolution}
    (herrors : r'.errors = (r.report t fault).errors) : Meets [v] r r' where
  errors := by
    rw [herrors]
    simp [Resolution.report, h]
  distances := by simp [herrors, Resolution.report]

/-- There is nothing to note. -/
theorem pass {v : Encounter} (h : v.error? = none) (hmention : v.act.mention? = none) :
    Meets [v] r r where
  errors := by simp [h]
  distances := by simp [Encounter.record, hmention]

/-- A mention is looked up, behind the error that may be due. -/
theorem refer {act : Act} {o : Occurrence} {pending : Option String} {s : Resolution}
    (h : Tracks pending s.scopes p.scopes) (hmention : act.mention? = some o)
    (herrors : s.errors = r.errors ++ (⟨p, act⟩ : Encounter).error?.toList)
    (hdistances : s.distances = r.distances) : Meets [⟨p, act⟩] r (s.refer o) where
  errors := by
    rw [errors_refer, herrors]
    cases h : (⟨p, act⟩ : Encounter).error? <;> simp [h]
  distances := by
    intro _
    have hplace : locate? s.scopes o.name = p.distance? o.name := h.locate?_eq o.name
    simp only [Resolution.refer, hplace, List.foldl_cons, List.foldl_nil, Encounter.record,
      hmention, ← hdistances]
    cases p.distance? o.name <;> rfl

theorem declare (h : Tracks none r.scopes around) (x : Option String) (t : Token) :
    Meets [⟨⟨around, x⟩, .declares t⟩] r (r.declare t) := by
  unfold Resolution.declare
  split
  · next hscopes =>
    rw [hscopes] at h
    cases h
    exact pass rfl rfl
  · next scope scopes hscopes =>
    rw [hscopes] at h
    cases h with
    | @scope _ _ _ here outer hhere houter =>
      rw [hhere.has_eq]
      split
      · next hold =>
        exact report (by simp_all [Encounter.error?, Encounter.fault?, Place.declaresHere]) rfl
      · next hnew =>
        have hquiet : (⟨⟨here :: outer, x⟩, .declares t⟩ : Encounter).error? = none := by
          simp_all [Encounter.error?, Encounter.fault?, Place.declaresHere]
        refine (pass hquiet rfl).congr rfl rfl ?_ ?_ <;> simp [Resolution.put, hscopes]

theorem introduce (h : Tracks none r.scopes around) (x : Option String) (t : Token) :
    Meets [⟨⟨around, x⟩, .declares t⟩] r (r.introduce t) :=
  (declare h x t).congr rfl rfl (errors_put _ _ _) (distances_put _ _ _)

theorem read (h : Tracks p.pending? r.scopes p.scopes) (o : Occurrence) :
    Meets [⟨p, .reads o⟩] r (r.read o) := by
  have hinitializing : r.initializing o.name = true ↔ p.pending? = some o.name := by
    obtain ⟨around, x⟩ := p
    unfold Resolution.initializing
    cases around with
    | nil =>
      generalize hscopes : r.scopes = scopes at h
      cases h
      simp [Place.pending?]
    | cons here outer =>
      generalize hscopes : r.scopes = scopes at h
      generalize hpending : (⟨here :: outer, x⟩ : Place).pending? = pending at h ⊢
      cases h with
      | scope hhere houter =>
        simpa using hhere.get?_eq_declared_iff fun hx => Place.mem_of_pending? (hpending.trans hx)
  unfold Resolution.read
  split
  · next hpending =>
    refine refer h rfl ?_ rfl
    simp [Resolution.report, Encounter.error?, Encounter.fault?, hinitializing.1 hpending]
  · next hdone =>
    refine refer h rfl ?_ rfl
    simp [Encounter.error?, Encounter.fault?, mt hinitializing.2 hdone]

theorem this (h : r.At p) (o : Occurrence) : Meets [⟨p, .this o⟩] r (r.this o) := by
  unfold Resolution.this
  simp only [h.inClass, Place.bodies]
  cases hp : p.hasSuperclass? with
  | none => exact report (by simp [Encounter.error?, Encounter.fault?, hp]) rfl
  | some hasSuperclass =>
    cases hasSuperclass <;>
      exact refer h.scopes rfl (by simp [Encounter.error?, Encounter.fault?, hp]) rfl

theorem super (h : r.At p) (o : Occurrence) : Meets [⟨p, .super o⟩] r (r.super o) := by
  unfold Resolution.super
  simp only [h.inClass, Place.bodies]
  cases hp : p.hasSuperclass? with
  | none =>
    exact refer h.scopes rfl (by simp [Resolution.report, Encounter.error?, Encounter.fault?, hp])
      rfl
  | some hasSuperclass =>
    cases hasSuperclass
    · exact refer h.scopes rfl
        (by simp [Resolution.report, Encounter.error?, Encounter.fault?, hp]) rfl
    · exact refer h.scopes rfl (by simp [Encounter.error?, Encounter.fault?, hp]) rfl

theorem leaveFunction (h : r.At p) (keyword : Token) (hasValue : Bool) :
    Meets [⟨p, .returns keyword hasValue⟩] r (r.leaveFunction keyword hasValue) := by
  unfold Resolution.leaveFunction
  simp only [h.inFunction, Place.bodies]
  cases hp : p.function? with
  | none => exact report (by simp [Encounter.error?, Encounter.fault?, hp]) rfl
  | some found =>
    obtain ⟨role, decl⟩ := found
    cases role with
    | function => exact pass (by simp [Encounter.error?, Encounter.fault?, hp]) rfl
    | method =>
      simp only [Role.context]
      cases hinit : decl.isInitializer <;> cases hasValue
      case true.true =>
        exact report (by simp [Encounter.error?, Encounter.fault?, hp, hinit]) rfl
      all_goals exact pass (by simp [Encounter.error?, Encounter.fault?, hp, hinit]) rfl

/-- The superclass is named, and then read. -/
theorem inherit (h : Tracks none r.scopes around) (name : Token) (parent : Occurrence) :
    Meets [⟨⟨around, none⟩, .inherits name parent⟩, ⟨⟨around, none⟩, .reads parent⟩] r
      (r.inherit name parent) := by
  have hread (s : Resolution) (hs : s.scopes = r.scopes) :
      Meets [⟨⟨around, none⟩, .reads parent⟩] s ({ s with inClass := .subclass }.read parent) :=
    (read (r := { s with inClass := .subclass }) (by simpa [hs] using h) parent).congr
      rfl rfl rfl rfl
  unfold Resolution.inherit
  split
  · next hself =>
    exact cons (report (by simp [Encounter.error?, Encounter.fault?, hself]) rfl) (hread _ rfl)
  · next hother =>
    exact cons (pass (by simp [Encounter.error?, Encounter.fault?, hother]) rfl) (hread _ rfl)

end Meets

/-- A name is declared that can be used at once. -/
theorem Tracks.introduce (h : Tracks none r.scopes around) (t : Token) :
    Tracks none (r.introduce t).scopes (LocalScope.declare [t.lexeme] around) :=
  (h.declare t).define (Place.pending?_initial _ _)

/-- A scope is opened with a name of its own. -/
theorem Tracks.opened (h : Tracks none r.scopes around) (construct : Construct) (name : String) :
    Tracks none (r.enter.put name .defined).scopes (⟨construct, [name]⟩ :: around) :=
  Tracks.put (r := r.enter) (h.enter construct) name

namespace At

/-- The scopes around a place where no initial value is computed. -/
theorem tracks (h : r.At ⟨around, none⟩) : Tracks none r.scopes around := by
  simpa using h.scopes

theorem of_tracks (h : Tracks none r.scopes around)
    (hbodies : r.bodies = (⟨around, none⟩ : Place).bodies) : r.At ⟨around, none⟩ :=
  ⟨by simpa using h, hbodies⟩

/-- No declaration is passed. -/
theorem still (h : r.At ⟨around, none⟩) : r.At ⟨LocalScope.declare [] around, none⟩ := by
  simpa using h

/-- An expression leaves a walk where it was. -/
theorem after (h : r.At p) (e : Expr) : (e.resolve r).At p :=
  ⟨(e.resolve_stays r).scopes ▸ h.scopes, (e.bodies_resolve r).trans h.bodies⟩

theorem leaveFunction (h : r.At p) (keyword : Token) (hasValue : Bool) :
    (r.leaveFunction keyword hasValue).At p := by
  refine ⟨?_, (bodies_leaveFunction r keyword hasValue).trans h.bodies⟩
  unfold Resolution.leaveFunction
  split <;> exact h.scopes

theorem introduce (h : r.At ⟨around, none⟩) (t : Token) :
    (r.introduce t).At ⟨LocalScope.declare [t.lexeme] around, none⟩ :=
  of_tracks (h.tracks.introduce t) <| by
    rw [bodies_introduce, h.bodies, Place.bodies_declare]

/-- Into the body of a class. -/
theorem classBody (hasSuperclass : Bool) (h : Tracks none r.scopes around)
    (hbodies : r.bodies =
      ((⟨around, none⟩ : Place).bodies.1, if hasSuperclass then .subclass else .plain)) :
    (r.enter.put "this" .defined).At
      ⟨⟨.classBody hasSuperclass, ["this"]⟩ :: around, none⟩ := by
  refine of_tracks (h.opened (.classBody hasSuperclass) "this") ?_
  rw [bodies_put, Place.bodies_classBody hasSuperclass _ _ _ none, ← hbodies]
  rfl

end At

theorem inClass_inherit (r : Resolution) (name : Token) (parent : Occurrence) :
    (r.inherit name parent).inClass = .subclass :=
  (read_stays _ parent).inClass

end Resolution

open Resolution

/-! ## Whole walks -/

mutual

theorem Expr.resolve_meets : (e : Expr) → {r : Resolution} → {p : Place} → r.At p →
    Meets (e.encounters p) r (e.resolve r)
  | .literal _, r, _, _ => .refl r
  | .grouping inner, _, _, h => inner.resolve_meets h
  | .unary _ operand, _, _, h => operand.resolve_meets h
  | .binary left _ right, _, _, h =>
    (left.resolve_meets h).trans (right.resolve_meets (h.after left))
  | .logical left _ right, _, _, h =>
    (left.resolve_meets h).trans (right.resolve_meets (h.after left))
  | .var name, _, _, h => Meets.read h.scopes name
  | .assign target value, _, _, h =>
    have hquiet (p : Place) : (⟨p, .assigns target⟩ : Encounter).error? = none := rfl
    (value.resolve_meets h).trans
      (Meets.refer (h.after value).scopes rfl (by simp [hquiet]) rfl)
  | .call callee _ arguments, _, _, h =>
    (callee.resolve_meets h).trans (Expr.resolveAll_meets arguments (h.after callee))
  | .get object _, _, _, h => object.resolve_meets h
  | .set object _ value, _, _, h =>
    (value.resolve_meets h).trans (object.resolve_meets (h.after value))
  | .this keyword, _, _, h => Meets.this h keyword
  | .super keyword _, _, _, h => Meets.super h keyword

theorem Expr.resolveAll_meets : (es : List Expr) → {r : Resolution} → {p : Place} → r.At p →
    Meets (Expr.allEncounters p es) r (Expr.resolveAll es r)
  | [], r, _, _ => .refl r
  | e :: rest, _, _, h => (e.resolve_meets h).trans (Expr.resolveAll_meets rest (h.after e))

end

/-- The parameters of a function are declared in its scope. -/
theorem declarations_meets (params : List Token) {r : Resolution} {around : List LocalScope}
    (h : r.At ⟨around, none⟩) :
    Meets (declarations around params) r (params.foldl Resolution.introduce r) ∧
      (params.foldl Resolution.introduce r).At
        ⟨declare (params.map Token.lexeme) around, none⟩ := by
  induction params generalizing r around with
  | nil => exact ⟨.refl r, by simpa using h⟩
  | cons t params ih =>
    obtain ⟨hmeets, hat⟩ := ih (h.introduce t)
    refine ⟨.cons (Meets.introduce h.tracks none t) hmeets, ?_⟩
    rwa [← LocalScope.declare_append] at hat

mutual

/-- A walk meets all that a statement does, and then stands behind its declarations. -/
theorem Stmt.resolve_meets : (s : Stmt) → {r : Resolution} → {around : List LocalScope} →
    r.At ⟨around, none⟩ →
    Meets (s.encounters around) r (s.resolve r) ∧
      (s.resolve r).At ⟨declare s.declares around, none⟩
  | .expression value, _, _, h => ⟨value.resolve_meets h, (h.after value).still⟩
  | .print value, _, _, h => ⟨value.resolve_meets h, (h.after value).still⟩
  | .varDecl name (some value), r, around, h => by
    have hat : (r.declare name).At ⟨declare [name.lexeme] around, some name.lexeme⟩ :=
      ⟨h.tracks.declare name, by rw [bodies_declare, h.bodies, Place.bodies_declare]⟩
    have hmeets := (Meets.declare h.tracks none name).trans (value.resolve_meets hat)
    refine ⟨hmeets.congr rfl rfl (errors_put _ _ _) (distances_put _ _ _), .of_tracks ?_ ?_⟩
    · exact (hat.after value).scopes.define (Place.pending?_initial _ _)
    · exact (bodies_put _ _ _).trans ((hat.after value).bodies.trans rfl)
  | .varDecl name none, r, around, h => ⟨Meets.introduce h.tracks none name, h.introduce name⟩
  | .block body, r, around, h => by
    have hin : r.enter.At ⟨⟨.block, []⟩ :: around, none⟩ :=
      .of_tracks (h.tracks.enter .block) h.bodies
    obtain ⟨hmeets, hat⟩ := Stmt.resolveAll_meets body hin
    have hout : (Stmt.block body |>.resolve r).At ⟨around, none⟩ :=
      .of_tracks hat.tracks.tail hat.bodies
    exact ⟨hmeets.congr rfl rfl rfl rfl, hout.still⟩
  | .ifThen condition thenBranch, r, around, h => by
    obtain ⟨hmeets, hat⟩ := thenBranch.resolve_meets (h.after condition)
    exact ⟨(condition.resolve_meets h).trans hmeets, hat⟩
  | .ifElse condition thenBranch elseBranch, r, around, h => by
    obtain ⟨hmeets, hat⟩ := thenBranch.resolve_meets (h.after condition)
    obtain ⟨hmeets', hat'⟩ := elseBranch.resolve_meets hat
    rw [Stmt.declares, LocalScope.declare_append]
    exact ⟨(condition.resolve_meets h).trans (hmeets.trans hmeets'), hat'⟩
  | .whileDo condition body, r, around, h => by
    obtain ⟨hmeets, hat⟩ := body.resolve_meets (h.after condition)
    exact ⟨(condition.resolve_meets h).trans hmeets, hat⟩
  | .funDecl decl, r, around, h => by
    obtain ⟨hmeets, hat⟩ := decl.resolve_meets .function (h.introduce decl.name)
    exact ⟨.cons (Meets.introduce h.tracks none decl.name) hmeets, hat⟩
  | .ret keyword (some value), _, _, h =>
    have hat := h.leaveFunction keyword true
    ⟨.cons (Meets.leaveFunction h keyword true) (value.resolve_meets hat), (hat.after value).still⟩
  | .ret keyword none, _, _, h =>
    ⟨Meets.leaveFunction h keyword false, (h.leaveFunction keyword false).still⟩
  | .classDecl name none methods, r, around, h => by
    let named := { r with inClass := .plain }.introduce name
    have hdeclares : Meets [⟨⟨around, none⟩, .declares name⟩] r named :=
      (Meets.introduce (r := { r with inClass := .plain }) h.tracks none name).congr rfl rfl rfl rfl
    have hnamed : Tracks none named.scopes (declare [name.lexeme] around) :=
      Tracks.introduce (r := { r with inClass := .plain }) h.tracks name
    have hbodies : named.bodies =
        ((⟨declare [name.lexeme] around, none⟩ : Place).bodies.1, .plain) := by
      rw [Place.bodies_declare, ← h.inFunction]
      exact bodies_introduce _ name
    obtain ⟨hmeets, hat⟩ := FunctionDecl.resolveAll_meets methods
      (.classBody false hnamed hbodies)
    refine ⟨.cons hdeclares (hmeets.congr ?_ ?_ rfl rfl), .of_tracks hat.tracks.tail ?_⟩
    · exact (errors_put named.enter "this" .defined).symm
    · exact (distances_put named.enter "this" .defined).symm
    · refine Prod.ext hat.inFunction (h.inClass.trans ?_)
      rw [Stmt.declares, Place.bodies_declare]
  | .classDecl name (some parent) methods, r, around, h => by
    let named := { r with inClass := .plain }.introduce name
    have hdeclares : Meets [⟨⟨around, none⟩, .declares name⟩] r named :=
      (Meets.introduce (r := { r with inClass := .plain }) h.tracks none name).congr rfl rfl rfl rfl
    have hnamed : Tracks none named.scopes (declare [name.lexeme] around) :=
      Tracks.introduce (r := { r with inClass := .plain }) h.tracks name
    let inherited := named.inherit name parent
    have hinherited : Tracks none inherited.scopes (declare [name.lexeme] around) :=
      (scopes_inherit named name parent).symm ▸ hnamed
    have hbodies : (inherited.enter.put "super" .defined).bodies =
        ((⟨⟨.superclass, ["super"]⟩ :: declare [name.lexeme] around, none⟩ : Place).bodies.1,
          .subclass) := by
      rw [bodies_put]
      refine Prod.ext ?_ (inClass_inherit named name parent)
      refine (inFunction_inherit named name parent).trans ?_
      refine (congrArg Prod.fst (bodies_introduce _ name)).trans (h.inFunction.trans ?_)
      show _ = (⟨declare [name.lexeme] around, none⟩ : Place).bodies.1
      rw [Place.bodies_declare]
    obtain ⟨hmeets, hat⟩ := FunctionDecl.resolveAll_meets methods
      (.classBody true (hinherited.opened .superclass "super") hbodies)
    refine ⟨.cons hdeclares ((Meets.inherit hnamed name parent).trans (hmeets.congr ?_ ?_ rfl rfl)),
      .of_tracks hat.tracks.tail.tail ?_⟩
    · rw [errors_put]
      exact (errors_put inherited.enter "super" .defined).symm
    · rw [distances_put]
      exact (distances_put inherited.enter "super" .defined).symm
    · refine Prod.ext hat.inFunction (h.inClass.trans ?_)
      rw [Stmt.declares, Place.bodies_declare]

/-- A walk meets all that a function does, and then stands where it was. -/
theorem FunctionDecl.resolve_meets (role : Role) : (decl : FunctionDecl) → {r : Resolution} →
    {around : List LocalScope} → r.At ⟨around, none⟩ →
    Meets (decl.encounters role around) r (decl.resolve (role.context decl) r) ∧
      (decl.resolve (role.context decl) r).At ⟨around, none⟩
  | ⟨name, params, body⟩, r, around, h => by
    let construct := Construct.function role ⟨name, params, body⟩
    have hin : Resolution.At ({ r with inFunction := role.context ⟨name, params, body⟩ }.enter)
        ⟨⟨construct, []⟩ :: around, none⟩ :=
      .of_tracks (h.tracks.enter construct) (Prod.ext rfl h.inClass)
    obtain ⟨hparams, hat⟩ := declarations_meets params hin
    obtain ⟨hbody, hat'⟩ := Stmt.resolveAll_meets body hat
    refine ⟨(hparams.trans hbody).congr rfl rfl rfl rfl, .of_tracks hat'.tracks.tail ?_⟩
    exact Prod.ext h.inFunction hat'.inClass

/-- A walk meets all that statements do, and then stands behind their declarations. -/
theorem Stmt.resolveAll_meets : (body : List Stmt) → {r : Resolution} →
    {around : List LocalScope} → r.At ⟨around, none⟩ →
    Meets (Stmt.allEncounters around body) r (Stmt.resolveAll body r) ∧
      (Stmt.resolveAll body r).At ⟨declare (body.flatMap Stmt.declares) around, none⟩
  | [], r, _, h => ⟨.refl r, h.still⟩
  | s :: rest, r, around, h => by
    obtain ⟨hmeets, hat⟩ := s.resolve_meets h
    obtain ⟨hmeets', hat'⟩ := Stmt.resolveAll_meets rest hat
    rw [List.flatMap_cons, LocalScope.declare_append]
    exact ⟨hmeets.trans hmeets', hat'⟩

/-- A walk meets all that the methods of a class do, and then stands where it was. -/
theorem FunctionDecl.resolveAll_meets : (methods : List FunctionDecl) → {r : Resolution} →
    {around : List LocalScope} → r.At ⟨around, none⟩ →
    Meets (FunctionDecl.allEncounters around methods) r (FunctionDecl.resolveAll methods r) ∧
      (FunctionDecl.resolveAll methods r).At ⟨around, none⟩
  | [], r, around, h => ⟨.refl r, h⟩
  | m :: rest, r, around, h => by
    obtain ⟨hmeets, hat⟩ := m.resolve_meets .method h
    obtain ⟨hmeets', hat'⟩ := FunctionDecl.resolveAll_meets rest hat
    exact ⟨hmeets.trans hmeets', hat'⟩

end

/-! ## Whole programs -/

namespace Encounter

/-- The errors that are due, each with what breaks a rule. -/
theorem forall₂_breaks (vs : List Encounter) :
    List.Forall₂ Breaks (vs.filter fun v => ∃ e, v.Breaks e) (vs.filterMap error?) := by
  induction vs with
  | nil => exact .nil
  | cons v vs ih =>
    cases h : v.error? with
    | none =>
      have hkept : ¬ ∃ e, v.Breaks e := by
        rintro ⟨e, he⟩
        exact nomatch h.symm.trans he.error?
      rwa [List.filter_cons_of_neg (by simpa using hkept), List.filterMap_cons_none h]
    | some e =>
      have he : v.Breaks e := breaks_of_error? h
      rw [List.filter_cons_of_pos (by simpa using ⟨e, he⟩), List.filterMap_cons_some h]
      exact .cons he ih

end Encounter

/-- At the start a walk stands outside of everything. -/
theorem start_at : start.At ⟨[], none⟩ :=
  ⟨.globals, rfl⟩

theorem errors_resolveAll (statements : List Stmt) :
    (Stmt.resolveAll statements start).errors =
      (Stmt.allEncounters [] statements).filterMap Encounter.error? :=
  (Stmt.resolveAll_meets statements start_at).1.errors

/-- A program is refused just if it breaks a rule somewhere. Then there is an error for each place
where it does, in the order in which the places come, and that error is the one of the rule that is
broken there. -/
theorem errors_eq_violations (statements : List Stmt) :
    ((∃ errors, resolve statements = .error errors) ↔
        ∃ v ∈ Stmt.allEncounters [] statements, ∃ e, v.Breaks e) ∧
      ∀ errors, resolve statements = .error errors →
        List.Forall₂ Encounter.Breaks
          ((Stmt.allEncounters [] statements).filter fun v => ∃ e, v.Breaks e) errors := by
  constructor
  · have hnil : (Stmt.allEncounters [] statements).filterMap Encounter.error? = [] ↔
        ∀ v ∈ Stmt.allEncounters [] statements, v.error? = none := List.filterMap_eq_nil_iff
    simp only [resolve_eq_error, errors_resolveAll, exists_and_left, exists_eq', and_true, ne_eq,
      hnil]
    simp [← Encounter.error?_eq_some_iff, Option.ne_none_iff_exists']
  · rintro errors h
    obtain ⟨-, rfl⟩ := resolve_eq_error.1 h
    rw [errors_resolveAll]
    exact Encounter.forall₂_breaks _

end LoxLang
