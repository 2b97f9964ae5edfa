import LoxLang.Proofs.Locations.Steps

/-!
# New scopes in step

Where one evaluation makes a frame, the other makes a location for each variable in it: for the
parameters of a function, for `this` and for `super`. When the scope is left, the spot around it is
as it was before.

1. `simulates_apply`: calls of functions.
2. `simulates_superMethod`: `super` is found one scope outside of `this`.
3. `simulates_call`: calls of any value.
-/

namespace LoxLang

open Located (Places)

variable {w : World} {p : Spot} {m : Machine} {m' : Located.Machine}

/-! ## Frames and their variables -/

/-- A new frame is a scope in which nothing is declared. -/
theorem Corresponds.openScope (hc : Corresponds w m m') {around : Surroundings} {scope : Scope}
    {places : Places} (h : w.Holds around none scope places) (contents : Bindings Value) :
    Corresponds w.openFrame { m with store := (m.store.newInside scope contents).2 } m' ∧
      Present w.openFrame ⟨⟨m.store.frames.size, scope.chain⟩, [] :: around, none⟩
        (some places) := by
  have hw := w.grows_openFrame 0
  refine ⟨hc.grow hw (hc.memory.openFrame scope contents),
    .inside ((h.mono hw.le).enter _) ⟨?_, ?_⟩ (fun ha => ?_) nofun⟩
  · exact hc.memory.frames ▸ hc.memory.root
  · exact hc.memory.frames ▸ Nat.lt_succ_self _
  · have hlt := (hc.memory.inside ha).2
    exact absurd hlt (hc.memory.frames ▸ Nat.lt_irrefl _)

theorem frame_newInside (store : Store Value) (around : Scope) (contents : Bindings Value) :
    (store.newInside around contents).2.frame store.frames.size = contents := by
  simp [Store.newInside, Store.frame]

/-- A variable that has its value in its frame from the beginning gets a location. -/
theorem Corresponds.bind (hc : Corresponds w m m') {scope : Scope} {names : List String}
    {around : Surroundings} {places : Places}
    (h : Present w ⟨scope, names :: around, none⟩ (some places)) {x : String} (hx : x ∉ names)
    {v : Value} {v' : Value Places}
    (hstore : Bindings.get? (m.store.frame scope.frame) x = some v) (hv : w.Same v v') :
    ∃ w', w.Grows scope.frame w' ∧ Corresponds w' m { m' with cells := m'.cells.push v' } ∧
      Present w' ⟨scope, (names ++ [x]) :: around, none⟩ (some ((x, m'.cells.size) :: places)) := by
  cases h with
  | inside h hframe hnames _ =>
    have hnew : ∀ l, ¬w.At l scope.frame x := fun l ha => hx (hnames ha)
    have ha : (w.allocate scope.frame x).At m'.cells.size scope.frame x :=
      (w.at_allocate _ _).2 (.inr ⟨hc.memory.size, rfl, rfl⟩)
    have hw := w.grows_allocate scope.frame x
    have hw' := (w.allocate scope.frame x).grows_bind scope.frame m'.cells.size
    have hmemory := (hc.memory.allocate hframe hnew v').fill ha (hv.mono hw.le.likeness) hstore
      (by simp)
    refine ⟨(w.allocate scope.frame x).bind m'.cells.size, hw.trans hw', ?_,
      .inside ?_ hframe ?_ nofun⟩
    · exact { hc.grow (hw.trans hw') hmemory with }
    · refine (((h.mono hw.le).declare ha).mono hw'.le).define fun y l hy hl => .inr ?_
      obtain rfl := Option.some.inj hy
      simpa [Bindings.get?_cons, eq_comm] using hl
    · intro l y ha'
      rcases (w.at_allocate _ _).1 ha' with ha' | ⟨-, -, rfl⟩
      · exact List.mem_append_left _ (hnames ha')
      · simp

/-- Variables that have their values in their frame from the beginning get locations. -/
theorem Corresponds.bindAll {scope : Scope} {around : Surroundings} :
    (pairs : List (String × Value Places)) → {w : World} → {m' : Located.Machine} →
      {names : List String} → {places : Places} → Corresponds w m m' →
      Present w ⟨scope, names :: around, none⟩ (some places) →
      (names ++ pairs.map Prod.fst).Nodup →
      (∀ x v', (x, v') ∈ pairs →
        ∃ v, Bindings.get? (m.store.frame scope.frame) x = some v ∧ w.Same v v') →
      ∃ w' places' n', Located.Eval.bindAll pairs places m' = .done places' n' ∧
        w.Grows scope.frame w' ∧ Corresponds w' m n' ∧ n'.places = m'.places ∧
        Present w' ⟨scope, (names ++ pairs.map Prod.fst) :: around, none⟩ (some places')
  | [], w, m', names, places, hc, h, _, _ =>
    ⟨w, places, m', rfl, .refl w _, hc, rfl, by simpa using h⟩
  | (x, v') :: rest, w, m', names, places, hc, h, hn, hv => by
    obtain ⟨v, hstore, hsame⟩ := hv x v' List.mem_cons_self
    have hx : x ∉ names := fun hm =>
      (List.nodup_append.1 hn).2.2 x hm x List.mem_cons_self rfl
    obtain ⟨w₁, hw₁, hc₁, h₁⟩ := hc.bind h hx hstore hsame
    have hsplit : names ++ ((x, v') :: rest).map Prod.fst =
        (names ++ [x]) ++ rest.map Prod.fst := by simp
    obtain ⟨w₂, places₂, n', hrun, hw₂, hc₂, hp, h₂⟩ :=
      Corresponds.bindAll rest hc₁ h₁ (hsplit ▸ hn) fun y u' hm => by
        obtain ⟨u, hu, hsame⟩ := hv y u' (List.mem_cons_of_mem _ hm)
        exact ⟨u, hu, hsame.mono hw₁.le.likeness⟩
    exact ⟨w₂, places₂, n', hrun, hw₁.trans hw₂, hc₂, hp, hsplit ▸ h₂⟩

/-! ## The scopes of functions -/

theorem get?_putAll_of_not_mem {x : String} : (pairs : List (String × Value)) →
    (b : Bindings Value) → x ∉ pairs.map Prod.fst →
      Bindings.get? (pairs.foldl (fun b (name, value) => Bindings.put name value b) b) x =
        Bindings.get? b x
  | [], _, _ => rfl
  | (y, v) :: rest, b, hx => by
    have hy : x ≠ y ∧ x ∉ rest.map Prod.fst := by simpa using hx
    rw [List.foldl_cons, get?_putAll_of_not_mem rest _ hy.2, Bindings.get?_put, if_neg hy.1]

theorem get?_putAll {x : String} {v : Value} : (pairs : List (String × Value)) →
    (b : Bindings Value) → (pairs.map Prod.fst).Nodup → (x, v) ∈ pairs →
      Bindings.get? (pairs.foldl (fun b (name, value) => Bindings.put name value b) b) x = some v
  | (y, u) :: rest, b, hn, hm => by
    obtain ⟨hy, hn⟩ := List.nodup_cons.1 (show (y :: rest.map Prod.fst).Nodup from hn)
    rw [List.foldl_cons]
    rcases List.mem_cons.1 hm with he | hm
    · obtain ⟨rfl, rfl⟩ : x = y ∧ v = u := by simpa using he
      rw [get?_putAll_of_not_mem rest _ hy, Bindings.get?_put, if_pos rfl]
    · exact get?_putAll rest _ hn hm

theorem mem_zip_alike {x : String} {u' : Value Places} : {names : List String} →
    {vs : List Value} → {vs' : List (Value Places)} → List.Forall₂ w.Same vs vs' →
      (x, u') ∈ names.zip vs' → ∃ u, (x, u) ∈ names.zip vs ∧ w.Same u u'
  | [], _, _, _, hm => by simp at hm
  | _ :: _, _, _, .nil, hm => by simp at hm
  | y :: names, v :: vs, v' :: vs', .cons hv hrest, hm => by
    rcases List.mem_cons.1 hm with he | hm
    · obtain ⟨rfl, rfl⟩ : x = y ∧ u' = v' := by simpa using he
      exact ⟨v, List.mem_cons_self, hv⟩
    · obtain ⟨u, hu, hsame⟩ := mem_zip_alike hrest hm
      exact ⟨u, List.mem_cons_of_mem _ hu, hsame⟩

/-- The scope of a function's body, before its first statement. -/
theorem Corresponds.enterFunction (hc : Corresponds w m m') {c : Closure} {c' : Closure Places}
    (h : w.SameFunction c c') {vs : List Value} {vs' : List (Value Places)}
    (hvs : List.Forall₂ w.Same vs vs') (hlength : vs.length = c.arity) :
    ∃ w' places around n',
      Located.Eval.bindAll ((c'.decl.params.map Token.lexeme).zip vs') c'.scope m' =
        .done places n' ∧
      w.Grows m.store.frames.size w' ∧
      Corresponds w' { m with store := (m.store.newInside c.scope (c.contents vs)).2 } n' ∧
      n'.places = m'.places ∧
      Present w' ⟨⟨m.store.frames.size, c.scope.chain⟩, around, none⟩ (some places) ∧
      Stmt.AllScoped w'.knowledge around c.decl.body := by
  obtain ⟨hdecl, -, around, hholds, hscoped, -⟩ := h
  obtain ⟨⟨name, params, body⟩, scope, isInitializer⟩ := c
  obtain ⟨hnodup, -, hbody⟩ := hscoped
  obtain ⟨hc₁, h₁⟩ := hc.openScope hholds (Closure.contents ⟨⟨name, params, body⟩, scope,
    isInitializer⟩ vs)
  have hfst : ((params.map Token.lexeme).zip vs).map Prod.fst = params.map Token.lexeme :=
    List.map_fst_zip (by simpa [Closure.arity] using Nat.le_of_eq hlength.symm)
  have hfst' : ((params.map Token.lexeme).zip vs').map Prod.fst = params.map Token.lexeme :=
    List.map_fst_zip (by simpa [Closure.arity, ← hvs.length_eq] using Nat.le_of_eq hlength.symm)
  obtain ⟨w', places, n', hrun, hw, hc₂, hp, h₂⟩ :=
    Corresponds.bindAll ((params.map Token.lexeme).zip vs') hc₁ h₁ (by simpa [hfst'] using hnodup)
      fun x u' hm => by
        obtain ⟨u, hu, hsame⟩ := mem_zip_alike hvs hm
        refine ⟨u, ?_, hsame.mono (w.grows_openFrame 0).le.likeness⟩
        change Bindings.get? ((m.store.newInside scope _).2.frame m.store.frames.size) x = some u
        rw [frame_newInside]
        exact get?_putAll _ _ (by rw [hfst]; exact hnodup) hu
  have hw' := (w.grows_openFrame m.store.frames.size).trans hw
  refine ⟨w', places, params.map Token.lexeme :: around, n', hdecl ▸ hrun, hw', hc₂, hp, ?_,
    hw'.knowledge.symm ▸ hbody⟩
  simpa [hfst'] using h₂

/-! ## Leaving a scope -/

/-- Two completions of the same kind, with values that are alike. -/
inductive SameCompletion (w : World) : Completion → Located.Completion → Prop
  | normal : SameCompletion w .normal .normal
  | returned {v : Value} {v' : Value Places} :
      w.Same v v' → SameCompletion w (.returned v) (.returned v')

/-- A step in a new scope; the spot around is as before when it is over. -/
theorem within_alike {α β : Type} {w₀ : World} {q : Spot} {R : World → α → β → Prop}
    {step : Eval α} {step' : Located.Eval β} {places : Places}
    (h₀ : Present w₀ p m'.places) (hw : w₀.Grows q.scope.frame w)
    (hq : w₀.frames ≤ q.scope.frame) (hc : Corresponds w m m') (hscope : m.scope = p.scope)
    (h : Present w q (some places)) (hs : Simulates w q (fun w' _ => R w') step step') :
    Ending.Alike
      (fun a n b n' => ∃ w' p', w₀.Grows p.scope.frame w' ∧ p'.scope = p.scope ∧
        Related w' p' n n' ∧ Stays p R w' p' a b)
      Eq (Broken w₀.knowledge p.scope) (Eval.within q.scope step m)
      (Located.Eval.within places step' m') := by
  have hin : Related w q { m with scope := q.scope } { m' with places := some places } :=
    ⟨{ hc with }, rfl, h⟩
  refine (hs _ _ hin).mapMachine ?_ ?_
  · rintro a n b n' ⟨w', q', hw', -, ⟨hc', -, -⟩, hr⟩
    have hgrows := hw.trans hw'
    exact ⟨w', p, hgrows.outside hq, rfl, ⟨{ hc' with }, hscope, h₀.grow hgrows hq⟩, rfl, hr⟩
  · rintro n n' ⟨⟨w', hk, hc'⟩, -, -⟩
    exact ⟨⟨w', hk.trans hw.knowledge, { hc' with }⟩, hscope, h₀.eq_none⟩

/-- `run` and `run'` do the same with statements whose mentions are traced. -/
def RunAlike (run : List Stmt → Eval Completion)
    (run' : List Stmt → Located.Eval Located.Completion) : Prop :=
  ∀ {w : World} {q : Spot} {body : List Stmt}, q.pending = none →
    Stmt.AllScoped w.knowledge q.around body →
      Simulates w q (fun w' _ => SameCompletion w') (run body) (run' body)

theorem simulates_block {run : List Stmt → Eval Completion}
    {run' : List Stmt → Located.Eval Located.Completion} (hrun : RunAlike run run')
    (hp : p.pending = none) {body : List Stmt}
    (h : Stmt.AllScoped w.knowledge ([] :: p.around) body) :
    Simulates w p (Stays p SameCompletion)
      (do
        let scope ← Eval.openScope (← Step.look Machine.scope) []
        Eval.within scope (run body))
      (do Located.Eval.within (← Located.Eval.known) (run' body)) := by
  intro m m' hm
  obtain ⟨hc, hscope, hpresent⟩ := hm
  have hholds := hpresent.holds
  rw [hp, ← hscope] at hholds
  obtain ⟨hc₁, h₁⟩ := hc.openScope hholds []
  exact within_alike hpresent (w.grows_openFrame _) (Nat.le_of_eq hc.memory.frames.symm) hc₁ hscope
    h₁ (hrun rfl h)

/-! ## Calls -/

/-- What the scope of an initializer binds `this` to. -/
theorem Related.this_of_initializer (hm : Related w p m m') {c : Closure} {c' : Closure Places}
    (h : w.SameFunction c c') (hi : c.isInitializer) :
    ∃ l v v', m.store.getLocal? c.scope "this" = some v ∧
      Bindings.get? c'.scope "this" = some l ∧ m'.cells[l]? = some v' ∧ w.Same v v' := by
  obtain ⟨-, -, around, hholds, -, hthis⟩ := h
  obtain ⟨l, g, hl, hg, ha, hb⟩ := hholds.found (hthis hi)
  obtain rfl : c.scope.frame = g := Option.some.inj hg
  obtain ⟨v, v', hv, hv', hsame⟩ := hm.corresponds.memory.values ha (hb.resolve_right nofun)
  exact ⟨l, v, v', hv, hl, hv', hsame⟩

theorem simulates_apply {run : List Stmt → Eval Completion}
    {run' : List Stmt → Located.Eval Located.Completion} (hrun : RunAlike run run') {c : Closure}
    {c' : Closure Places} (h : w.SameFunction c c') {vs : List Value} {vs' : List (Value Places)}
    (hvs : List.Forall₂ w.Same vs vs') (hlength : vs.length = c.arity) :
    Simulates w p (Stays p World.Same) (Eval.apply run c vs) (Located.Eval.apply run' c' vs') := by
  intro m m' hm
  obtain ⟨hc, hscope, hpresent⟩ := hm
  obtain ⟨w₁, places, around, n', hbind, hw₁, hc₁, hplaces, h₁, hbody⟩ :=
    hc.enterFunction h hvs hlength
  have hopen : Eval.openScope c.scope (c.contents vs) m =
      .done ⟨m.store.frames.size, c.scope.chain⟩
        { m with store := (m.store.newInside c.scope (c.contents vs)).2 } := rfl
  unfold Eval.apply Located.Eval.apply
  -- One side opens a scope with all parameters in it, the other makes a location for each.
  rw [Step.bind_of_done hopen, Step.bind_of_done hbind]
  refine Ending.Alike.bind (within_alike (hplaces ▸ hpresent) hw₁
    (Nat.le_of_eq hc.memory.frames.symm) hc₁ hscope h₁
    (by rw [← h.decl]; exact hrun rfl hbody)) ?_
  rintro completion k completion' k' ⟨w', p', hw', -, hk, rfl, hcompletion⟩
  have h' := (hw'.le.likeness).function h
  rw [← h.isInitializer]
  split
  · next hi =>
    obtain ⟨l, v, v', hv, hl, hv', hsame⟩ := hk.this_of_initializer h' hi
    simp only [Step.look, hv, hl, Located.Eval.read, hv', Option.getD_some]
    exact .done ⟨w', p', hw', rfl, hk, rfl, hsame⟩
  · cases hcompletion with
    | normal => exact .done ⟨w', p', hw', rfl, hk, rfl, .nil⟩
    | returned hsame => exact .done ⟨w', p', hw', rfl, hk, rfl, hsame⟩

/-! ## Objects and their methods -/

/-- A new scope with one variable. -/
theorem Related.openWith (hm : Related w p m m') {around : Surroundings} {scope : Scope}
    {places : Places} (h : w.Holds around none scope places) (x : String) {v : Value}
    {v' : Value Places} (hv : w.Same v v') :
    ∃ w', w.Grows p.scope.frame w' ∧
      Related w' p { m with store := (m.store.newInside scope [(x, v)]).2 }
        { m' with cells := m'.cells.push v' } ∧
      w'.Holds ([x] :: around) none ⟨m.store.frames.size, scope.chain⟩
        ((x, m'.cells.size) :: places) := by
  obtain ⟨hc, hscope, hpresent⟩ := hm
  obtain ⟨hc₁, h₁⟩ := hc.openScope h [(x, v)]
  have hx : Bindings.get? ((m.store.newInside scope [(x, v)]).2.frame m.store.frames.size) x =
      some v := by
    rw [frame_newInside, Bindings.get?_cons, if_pos rfl]
  obtain ⟨w', hw, hc₂, h₂⟩ := hc₁.bind h₁ (x := x) List.not_mem_nil hx
    (hv.mono (w.grows_openFrame 0).le.likeness)
  have hgrows := (w.grows_openFrame m.store.frames.size).trans hw
  have hframes := Nat.le_of_eq hc.memory.frames.symm
  exact ⟨w', hgrows.outside hframes, ⟨hc₂, hscope, hpresent.grow hgrows hframes⟩, h₂.holds⟩

theorem simulates_bindThis {c : Closure} {c' : Closure Places} (h : w.SameMethod c c') {v : Value}
    {v' : Value Places} (hv : w.Same v v') :
    Simulates w p (Stays p fun w' f f' => w'.SameFunction f f' ∧ f.decl = c.decl)
      (Eval.bindThis c v) (Located.Eval.bindThis c' v') := by
  intro m m' hm
  obtain ⟨hdecl, hi, around, hholds, hscoped⟩ := h
  obtain ⟨w', hw, hm', hholds'⟩ := hm.openWith hholds "this" hv
  exact .done ⟨w', p, hw, rfl, hm', rfl, ⟨hdecl, hi, ["this"] :: around, hholds',
    hw.knowledge.symm ▸ hscoped, fun _ => by simp [Surroundings.locate?_cons]⟩, rfl⟩

/-- A method as a function that belongs to an object. -/
theorem simulates_method {c : Closure} {c' : Closure Places} (h : w.SameMethod c c') {v : Value}
    {v' : Value Places} (hv : w.Same v v') :
    Simulates w p (Stays p World.Same) (do Eval.function (← Eval.bindThis c v))
      (do Located.Eval.function (← Located.Eval.bindThis c' v')) := by
  refine (simulates_bindThis h hv).bind ?_
  rintro w' p' f f' - - ⟨rfl, hf, -⟩
  refine (simulates_function f f').mono ?_
  rintro w'' p'' v v' ⟨rfl, rfl, id, rfl, rfl⟩
  exact ⟨rfl, .function id hf⟩

theorem simulates_property (address : Nat) {c : Class} {c' : Class Places}
    (h : c.Alike w.likeness c') (name : Token) :
    Simulates w p (Stays p World.Same) (Eval.property address c name)
      (Located.Eval.property address c' name) := by
  refine (simulates_field? address name.lexeme).bind ?_
  rintro w' p' v v' - - ⟨rfl, rfl, hv⟩
  cases hv with
  | some hv => exact .pure ⟨rfl, hv⟩
  | none =>
    refine (simulates_require name.line _ (h.method? name.lexeme)).bind ?_
    rintro w'' p'' f f' - - ⟨rfl, rfl, hf⟩
    exact simulates_method hf (.object address h)

/-- The scope that binds `super` is the one outside of that which binds `this`. -/
theorem Related.super {o : Occurrence} (hm : Related w p m m')
    (h : w.knowledge.Traces p.around o) (hname : o.name = "super")
    (hthis : ∃ d, p.around.locate? "this" = some d ∧ p.around.locate? "super" = some (d + 1)) :
    ∃ d, m.distances[o.id]? = some (d + 1) ∧
      (∃ v v' l, m.store.getAt? m.scope (d + 1) "super" = some v ∧
        Bindings.get? (m'.places.getD []) "super" = some l ∧ m'.cells[l]? = some v' ∧
        w.Same v v') ∧
      ∃ v v' l, m.store.getAt? m.scope d "this" = some v ∧
        Bindings.get? (m'.places.getD []) "this" = some l ∧ m'.cells[l]? = some v' ∧
        w.Same v v' := by
  obtain ⟨d, hd, hd'⟩ := hthis
  have hdistance : m.distances[o.id]? = some (d + 1) := by
    rw [hm.corresponds.distances, h.2, hname, hd']
  have hbinds : ∀ {x e}, p.around.locate? x = some e → ¬IsName x →
      ∃ v v' l, m.store.getAt? m.scope e x = some v ∧
        Bindings.get? (m'.places.getD []) x = some l ∧ m'.cells[l]? = some v' ∧ w.Same v v' := by
    intro x e he hx
    obtain ⟨l, g, hl, hg, ha, hb⟩ := hm.present.holds.found he
    obtain ⟨v, v', hv, hv', hsame⟩ :=
      hm.corresponds.memory.values ha (hb.resolve_right fun hp => hx (hm.present.isName hp))
    rw [← hm.scope, ← Scope.frame_ancestor?] at hg
    obtain ⟨around, haround, rfl⟩ := Option.map_eq_some_iff.1 hg
    exact ⟨v, v', l, by simpa [Store.getAt?, haround, Store.getLocal?] using hv, hl, hv', hsame⟩
  exact ⟨d, hdistance, hbinds hd' fun h => h.ne_super rfl, hbinds hd fun h => h.ne_this rfl⟩

theorem superMethod_of_distance {o : Occurrence} {d : Nat} {parent this : Value}
    (hd : m.distances[o.id]? = some (d + 1))
    (hparent : m.store.getAt? m.scope (d + 1) "super" = some parent)
    (hthis : m.store.getAt? m.scope d "this" = some this) (method : Token) :
    Eval.superMethod o method m = Eval.inherited o.token.line method parent this m := by
  simp only [Eval.superMethod, bind, Step.bind, Step.look, hd, Step.require, Eval.implicit, hparent,
    Nat.add_sub_cancel, hthis, Step.pure]

theorem simulates_inherited (line : Nat) (method : Token) {parent this : Value}
    {parent' this' : Value Places} (hparent : w.Same parent parent') (hthis : w.Same this this') :
    Simulates w p (Stays p World.Same) (Eval.inherited line method parent this)
      (Located.Eval.inherited line method parent' this') := by
  cases hparent with
  | classValue hclass =>
    cases hthis with
    | object address hobject =>
      refine (simulates_require method.line _ (hclass.method? method.lexeme)).bind ?_
      rintro w' p' f f' - - ⟨rfl, rfl, hf⟩
      exact simulates_method hf (.object address hobject)
    | _ => exact simulates_fail _ _
  | _ => exact simulates_fail _ _

theorem simulates_superMethod {o : Occurrence} (h : w.knowledge.Traces p.around o)
    (hname : o.name = "super")
    (hthis : ∃ d, p.around.locate? "this" = some d ∧ p.around.locate? "super" = some (d + 1))
    (method : Token) :
    Simulates w p (Stays p World.Same) (Eval.superMethod o method)
      (Located.Eval.superMethod o method) := by
  intro m m' hm
  obtain ⟨d, hd, ⟨parent, parent', l, hparent, hl, hl', hsame⟩, this, this', k, hthis, hk, hk',
    hsame'⟩ := hm.super h hname hthis
  have hlocated : Located.Eval.superMethod o method m' =
      Located.Eval.inherited o.token.line method parent' this' m' := by
    simp only [Located.Eval.superMethod, bind, Step.bind, Step.look, Step.require, Step.pure,
      Located.Eval.known, pure, hl, hk, Located.Eval.read, hl', hk', Option.getD_some]
  rw [superMethod_of_distance hd hparent hthis, hlocated]
  exact simulates_inherited _ method hsame hsame' m m' hm

/-! ## Calls of any value -/

theorem simulates_arity? {v : Value} {v' : Value Places} (hv : w.Same v v') :
    Simulates w p (Keeps w p (Option.Rel fun n n' => n = n' ∧ Takes n v)) (Eval.arity? v)
      (Located.Eval.arity? v') := by
  cases hv with
  | native index =>
    refine simulates_look fun m m' hm => ?_
    rcases rel_cases (hm.corresponds.natives index) with ⟨hf, hf'⟩ | ⟨f, f', hf, hf', hsame⟩
    · rw [hf, hf']
      exact .none
    · rw [hf, hf']
      exact .some ⟨hsame.arity, trivial⟩
  | function id hf => exact .pure ⟨rfl, rfl, .some ⟨w.likeness.function_arity hf, rfl⟩⟩
  | classValue hc => exact .pure ⟨rfl, rfl, .some ⟨hc.arity_eq, rfl⟩⟩
  | _ => exact .pure ⟨rfl, rfl, .none⟩

theorem simulates_native (index line : Nat) {vs : List Value} {vs' : List (Value Places)}
    (hvs : List.Forall₂ w.Same vs vs') :
    Simulates w p (Stays p World.Same) (Eval.native index line vs)
      (Located.Eval.native index line vs') := by
  have hlook : Simulates w p (Keeps w p (Option.Rel NativeBody.Alike))
      (Step.look fun m => m.natives[index]?.map Native.body)
      (Step.look fun m => m.natives[index]?.map Native.body) := by
    refine simulates_look fun m m' hm => ?_
    rcases rel_cases (hm.corresponds.natives index) with ⟨hf, hf'⟩ | ⟨f, f', hf, hf', hsame⟩
    · rw [hf, hf']
      exact .none
    · rw [hf, hf']
      exact .some hsame.body
  refine hlook.bind ?_
  rintro w' p' o o' - - ⟨rfl, rfl, ho⟩
  cases ho with
  | none => exact simulates_fail line _
  | some hbody =>
    cases hbody with
    | clock => exact simulates_tell.mono fun ⟨hw, hp, hsame⟩ => ⟨hp, hw ▸ hsame⟩
    | @host run run' hhost =>
      have hmapped := SameResult.mapError (hhost w'.likeness vs vs' hvs) RuntimeFault.host
      exact (simulates_lift line hmapped).mono fun ⟨hw, hp, hsame⟩ => ⟨hp, hw ▸ hsame⟩

theorem simulates_counted {α β : Type} {R : World → α → β → Prop} {step : Eval α}
    {step' : Located.Eval β} (h : Simulates w p (Stays p R) step step') :
    Simulates w p (Stays p R) (Eval.counted step) (Located.Eval.counted step') := by
  intro m m' hm
  obtain ⟨hc, hscope, hpresent⟩ := hm
  have hin : Related w p { m with depth := m.depth + 1 } { m' with depth := m'.depth + 1 } :=
    ⟨{ hc with depth := congrArg Nat.succ hc.depth }, hscope, hpresent⟩
  refine (h _ _ hin).mapMachine ?_ ?_
  · rintro a n b n' ⟨w', p', hw', hp', ⟨hc', hscope', hpresent'⟩, hr⟩
    exact ⟨w', p', hw', hp',
      ⟨{ hc' with depth := congrArg (· - 1) hc'.depth }, hscope', hpresent'⟩, hr⟩
  · rintro n n' ⟨⟨w', hk, hc'⟩, hscope', hout⟩
    exact ⟨⟨w', hk, { hc' with depth := congrArg (· - 1) hc'.depth }⟩, hscope', hout⟩

variable {run : List Stmt → Eval Completion}
  {run' : List Stmt → Located.Eval Located.Completion}

theorem simulates_construct (hrun : RunAlike run run') {c : Class} {c' : Class Places}
    (h : c.Alike w.likeness c') {vs : List Value} {vs' : List (Value Places)}
    (hvs : List.Forall₂ w.Same vs vs') (hlength : vs.length = c.arity) :
    Simulates w p (Stays p World.Same) (Eval.construct run c vs)
      (Located.Eval.construct run' c' vs') := by
  refine (simulates_newObject h).bind ?_
  rintro w' p' object object' - - ⟨rfl, rfl, hobject⟩
  rcases rel_cases (h.method? FunctionDecl.initializerName) with ⟨hi, hi'⟩ | ⟨f, f', hi, hi', hf⟩
  · simp only [Class.initializer?, hi, hi']
    exact .pure ⟨rfl, hobject⟩
  · simp only [Class.initializer?, hi, hi']
    refine (simulates_bindThis hf hobject).bind ?_
    rintro w₁ p₁ g g' hw₁ - ⟨rfl, hg, hdecl⟩
    have harity : vs.length = g.arity := by
      rw [hlength]
      simp [Class.arity, Class.initializer?, hi, Closure.arity, hdecl]
    refine (simulates_apply hrun hg (hvs.imp fun _ _ hv => hv.mono hw₁.le.likeness) harity).bind ?_
    rintro w₂ p₂ v v' hw₂ - ⟨rfl, -⟩
    exact .pure ⟨rfl, hobject.mono (hw₁.trans hw₂).le.likeness⟩

theorem simulates_call (hrun : RunAlike run run') {v : Value} {v' : Value Places}
    (hv : w.Same v v') (line : Nat) {vs : List Value} {vs' : List (Value Places)}
    (hvs : List.Forall₂ w.Same vs vs') :
    Simulates w p (Stays p World.Same) (Eval.call run v line vs)
      (Located.Eval.call run' v' line vs') := by
  refine (simulates_arity? hv).bind ?_
  rintro w₁ p₁ o o' - - ⟨rfl, rfl, ho⟩
  refine (simulates_require line _ ho).bind ?_
  rintro w₂ p₂ arity arity' - - ⟨rfl, rfl, rfl, htakes⟩
  refine (simulates_look (R := Eq) fun m m' hm => hm.corresponds.depth).bind ?_
  rintro w₃ p₃ depth depth' - - ⟨rfl, rfl, rfl⟩
  rw [← hvs.length_eq]
  split
  · exact simulates_fail line _
  · next hlength =>
    have hlength : vs.length = arity := Decidable.of_not_not hlength
    split
    · exact simulates_fail line _
    · refine simulates_counted ?_
      cases hv with
      | native index => exact simulates_native index line hvs
      | function id hf => exact simulates_apply hrun hf hvs (hlength.trans htakes.symm)
      | classValue hc => exact simulates_construct hrun hc hvs (hlength.trans htakes.symm)
      | _ => exact simulates_fail line _

end LoxLang
