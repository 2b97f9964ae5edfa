import LoxLang.Proofs.Frames.Sessions

/-!
# What stays

A machine keeps the frames and the objects it has made. What a frame binds `this` to is settled when
the frame is made, except for the globals, where the host can name a function so.

1. `Chronicle.Holds.onward`: machines that one chronicle after the other describes.
2. `Chronicle.Ready.resumes`: a task goes on from where what it has started ends.
3. `Session.History.onward`: a session goes on from all that it has come to.
-/

namespace LoxLang

/-- The second machine can come later than the first: it has the frames, the objects and the
functions of the host that the first one has, and `this` is bound in these frames as it was. -/
structure Machine.Onward (m m' : Machine) : Prop where
  frames : m.store.frames.size ≤ m'.store.frames.size
  this : ∀ i, 0 < i → i < m.store.frames.size →
    Bindings.get? (m'.store.frame i) "this" = Bindings.get? (m.store.frame i) "this"
  objects : m.objects.size ≤ m'.objects.size
  natives : ∀ native ∈ m.natives, native ∈ m'.natives

namespace Machine.Onward

open Step

variable {m m' m'' : Machine} {α β : Type}

theorem refl (m : Machine) : m.Onward m :=
  ⟨Nat.le_refl _, fun _ _ _ => rfl, Nat.le_refl _, fun _ => id⟩

theorem trans (h : m.Onward m') (h' : m'.Onward m'') : m.Onward m'' where
  frames := Nat.le_trans h.frames h'.frames
  this := fun i hpos hi =>
    (h'.this i hpos (Nat.lt_of_lt_of_le hi h.frames)).trans (h.this i hpos hi)
  objects := Nat.le_trans h.objects h'.objects
  natives := fun native hn => h'.natives native (h.natives native hn)

/-- Two machines before a third one agree where they both have a frame. -/
theorem this_eq (h : m.Onward m'') (h' : m'.Onward m'') {i : Nat} (hpos : 0 < i)
    (hi : i < m.store.frames.size) (hi' : i < m'.store.frames.size) :
    Bindings.get? (m.store.frame i) "this" = Bindings.get? (m'.store.frame i) "this" :=
  (h.this i hpos hi).symm.trans (h'.this i hpos hi')

/-! ## Steps one after another -/

/-- A sequence of steps goes on from where the first one ends. -/
theorem bind {first : Eval β} {next : β → Eval α}
    (h : ∀ {b n}, first m = .done b n → n.Onward (next b n).machine) :
    (first m).machine.Onward ((first >>= next) m).machine := by
  change (first m).machine.Onward (Step.bind first next m).machine
  unfold Step.bind
  cases hrun : first m with
  | done b n => exact h hrun
  | failed failure n => exact .refl n
  | exhausted n => exact .refl n

theorem seq {first : Eval β} {next : β → Eval α} (hfirst : m.Onward (first m).machine)
    (h : ∀ {b n}, first m = .done b n → n.Onward (next b n).machine) :
    m.Onward ((first >>= next) m).machine :=
  hfirst.trans (bind h)

theorem lift (line : Nat) (result : Except RuntimeFault α) (m : Machine) :
    m.Onward ((Step.lift line result : Eval α) m).machine := by
  cases result with
  | ok a => exact .refl m
  | error fault => exact .refl m

theorem mapMachine {ending : Outcome α} {change : Machine → Machine}
    (h : ∀ n : Machine, n.Onward (change n)) :
    ending.machine.Onward (ending.mapMachine change).machine := by
  cases ending with
  | _ => exact h _

theorem within {scope : Scope} {step : Eval α} :
    (step { m with scope := scope }).machine.Onward (Eval.within scope step m).machine :=
  mapMachine fun n => { refl n with }

theorem counted {step : Eval α} :
    (step { m with depth := m.depth + 1 }).machine.Onward (Eval.counted step m).machine :=
  mapMachine fun n => { refl n with }

end Machine.Onward

namespace Chronicle

variable {w w' : Chronicle} {around : Surroundings} {m m' : Machine}

/-- What a later chronicle tells of a frame that was there before is not new. -/
theorem Before.made (hw : w.Before w') (hm : w.Holds m) {i : Nat} (hi : i < m.store.frames.size)
    {purpose : Purpose} {outer : List Nat} (h : w'.Made i purpose outer) :
    w.Made i purpose outer := by
  obtain ⟨later, hlater⟩ := hw.origins
  unfold Made at h
  rwa [← hlater, List.getElem?_append_left (hm.frames ▸ hi)] at h

/-- Where one chronicle goes on from another, so do the machines that they describe. -/
theorem Holds.onward (hm : w.Holds m) (hw : w.Before w') (hm' : w'.Holds m') : m.Onward m' where
  frames := by
    rw [← hm.frames, ← hm'.frames]
    exact hw.origins.length_le
  this i hpos hi := by
    cases hv : Bindings.get? (m'.store.frame i) "this" with
    | some v =>
      obtain ⟨address, c, outer, hmade⟩ := (hm'.this hv).resolve_right fun h =>
        Nat.ne_of_gt hpos h.1
      rw [← hv, hm'.receivers hmade, hm.receivers (hw.made hm hi hmade)]
    | none =>
      cases hu : Bindings.get? (m.store.frame i) "this" with
      | none => rfl
      | some u =>
        obtain ⟨address, c, outer, hmade⟩ := (hm.this hu).resolve_right fun h =>
          Nat.ne_of_gt hpos h.1
        exact nomatch hv.symm.trans (hm'.receivers (hmade.mono hw))
  objects := by
    rw [← hm.objects, ← hm'.objects]
    exact hw.objects
  natives native hn := hm'.natives ▸ hw.natives native (hm.natives ▸ hn)

theorem Leaves.onward {α : Type} {R : Chronicle → α → Prop} {ending : Outcome α}
    (h : w.Leaves R ending) (hm : w.Holds m) : m.Onward ending.machine := by
  obtain ⟨w', hw, hm'⟩ := h.machine
  exact hm.onward hw hm'

theorem Ready.onward {v : Visit} (h : w.Ready around v) : v.machine.Onward v.after := by
  obtain ⟨w', hw, hm⟩ := h.after
  exact h.machine.onward hw hm

/-- What a task starts ends before the task does. -/
theorem Ready.resumes {u v : Visit} (h : w.Ready around u) (hs : Starts u v) :
    v.after.Onward u.after := by
  have next {v' : Visit} (hs' : Starts u v') : v'.machine.Onward v'.after := by
    obtain ⟨w', around', -, hready⟩ := h.starts hs' (keeping _)
    exact hready.onward
  have known {n : Nat} {x : Option String} {e : Expr} {k k' : Machine} {value : Value}
      (hs' : Starts u ⟨n, .expr x e, k⟩) (hrun : Eval.expr n e k = .done value k') :
      ∃ w' : Chronicle, w'.Holds k' ∧ w'.Good value := by
    obtain ⟨w', around', -, hready⟩ := h.starts hs' (keeping _)
    obtain ⟨w'', -, hk', hvalue⟩ := ((keeping n).expr hready).of_done hrun
    exact ⟨w'', hk', hvalue⟩
  cases hs with
      simp only [Visit.after, Eval.expr, Eval.exprs, Eval.stmt, Eval.stmts, Eval.loop_succ]
  | grouping | var | this | super | whileDo => exact .refl _
  | unary => exact .bind fun _ => .lift _ _ _
  | binaryLeft =>
    refine .bind fun hrun => ?_
    exact (next (.binaryRight hrun)).seq fun _ => .lift _ _ _
  | binaryRight hrun =>
    rw [Step.bind_of_done hrun]
    exact .bind fun _ => .lift _ _ _
  | logicalLeft =>
    refine .bind fun {v k} hrun => ?_
    split
    · exact .refl k
    · next hdecides => exact next (.logicalRight hrun (Bool.not_eq_true _ ▸ hdecides))
  | logicalRight hrun hdecides =>
    rw [Step.bind_of_done hrun, if_neg (Bool.not_eq_true _ ▸ hdecides)]
    exact .refl _
  | assignValue =>
    refine .bind fun hrun => ?_
    exact (next (.assignTarget hrun)).seq fun _ => .refl _
  | assignTarget hrun =>
    rw [Step.bind_of_done hrun]
    exact .bind fun _ => .refl _
  | callee =>
    refine .bind fun hrun => ?_
    exact (next (.arguments hrun)).seq fun hruns => next (.call hrun hruns)
  | arguments hrun =>
    rw [Step.bind_of_done hrun]
    exact .bind fun hruns => next (.call hrun hruns)
  | call hrun hruns =>
    rw [Step.bind_of_done hrun, Step.bind_of_done hruns]
    exact .refl _
  | @getObject n m x object name =>
    refine .bind fun {v k} hrun => ?_
    obtain ⟨w', hk, hv⟩ := known .getObject hrun
    cases v with
    | object address c => exact (leaves_property hk hv name).onward hk
    | _ => exact .refl k
  | setObject =>
    refine .bind fun {v k} hrun => ?_
    cases v with
    | object address c =>
      refine (next (.setValue hrun)).seq fun hvalue => ?_
      obtain ⟨w', hk, hv⟩ := known (.setValue hrun) hvalue
      exact ((leaves_setField hk address _ hv).onward hk).seq fun _ => .refl _
    | _ => exact .refl k
  | @setValue n m m₁ x object name value address c hrun =>
    rw [Step.bind_of_done hrun]
    refine .bind fun hvalue => ?_
    obtain ⟨w', hk, hv⟩ := known (.setValue hrun) hvalue
    exact ((leaves_setField hk address _ hv).onward hk).seq fun _ => .refl _
  | first =>
    refine .bind fun hrun => ?_
    exact (next (.others hrun)).seq fun _ => .refl _
  | others hrun =>
    rw [Step.bind_of_done hrun]
    exact .bind fun _ => .refl _
  | expression => exact .bind fun _ => .refl _
  | print =>
    refine .bind fun {v k} hrun => ?_
    obtain ⟨w', hk, -⟩ := known .print hrun
    exact ((leaves_printLine hk v.text).onward hk).seq fun _ => .refl _
  | initializer =>
    have hname := h.fits.1.1
    refine .bind fun hrun => ?_
    obtain ⟨w', hk, hv⟩ := known .initializer hrun
    exact ((leaves_define hk hv hname).onward hk).seq fun _ => .refl _
  | @block n m m₁ scope body hrun =>
    have hlook : Step.look Machine.scope m = .done m.scope m := rfl
    rw [Step.bind_of_done hlook, Step.bind_of_done hrun]
    exact .within
  | ifThenCondition =>
    refine .bind fun {v k} hrun => ?_
    split
    · next htruthy => exact next (.ifThenBranch hrun htruthy)
    · exact .refl k
  | ifThenBranch hrun htruthy =>
    rw [Step.bind_of_done hrun, if_pos htruthy]
    exact .refl _
  | ifElseCondition =>
    refine .bind fun {v k} hrun => ?_
    split
    · next htruthy => exact next (.ifElseThen hrun htruthy)
    · next htruthy => exact next (.ifElseElse hrun (Bool.not_eq_true _ ▸ htruthy))
  | ifElseThen hrun htruthy =>
    rw [Step.bind_of_done hrun, if_pos htruthy]
    exact .refl _
  | ifElseElse hrun htruthy =>
    rw [Step.bind_of_done hrun, if_neg (Bool.not_eq_true _ ▸ htruthy)]
    exact .refl _
  | ret => exact .bind fun _ => .refl _
  | @superclass n m name o methods =>
    have hfound : (Eval.lookUp o m).machine.Onward (Eval.superclass? (some o) m).machine := by
      refine .bind fun {v k} _ => ?_
      cases v with
      | _ => exact .refl k
    have hmade : (Eval.superclass? (some o) m).machine.Onward
        (Eval.classDecl name (some o) methods m).machine :=
      .bind fun hrun => next (.classDecl hrun)
    exact (hfound.trans hmade).trans (.bind fun _ => .refl _)
  | @classDecl n m m₁ name superclass methods parent hrun =>
    have hdecl : Eval.classDecl name superclass methods m = Eval.makeClass name parent methods m₁ :=
      Step.bind_of_done hrun
    rw [← hdecl]
    exact .bind fun _ => .refl _
  | head =>
    refine .bind fun {completion k} hrun => ?_
    cases completion with
    | normal => exact next (.tail hrun)
    | returned value => exact .refl k
  | tail hrun =>
    rw [Step.bind_of_done hrun]
    exact .refl _
  | programHead => exact .bind fun hrun => next (.programTail hrun)
  | programTail hrun =>
    simp only [Eval.program]
    rw [Step.bind_of_done hrun]
    exact .refl _
  | loopCondition =>
    refine .bind fun {v k} hrun => ?_
    split
    · next htruthy =>
      refine (next (.loopBody hrun htruthy)).seq fun {completion k'} hruns => ?_
      cases completion with
      | normal => exact next (.loopAgain hrun htruthy hruns)
      | returned value => exact .refl k'
    · exact .refl k
  | loopBody hrun htruthy =>
    rw [Step.bind_of_done hrun, if_pos htruthy]
    refine .bind fun {completion k} hruns => ?_
    cases completion with
    | normal => exact next (.loopAgain hrun htruthy hruns)
    | returned value => exact .refl k
  | loopAgain hrun htruthy hruns =>
    rw [Step.bind_of_done hrun, if_pos htruthy, Step.bind_of_done hruns]
    exact .refl _
  | callFunction harity hdepth =>
    rw [Eval.call_of_arity rfl, if_neg (not_not.2 harity), if_neg (Nat.not_le.2 hdepth)]
    exact .counted
  | callClass harity hdepth =>
    rw [Eval.call_of_arity rfl, if_neg (not_not.2 harity), if_neg (Nat.not_le.2 hdepth)]
    exact .counted
  | construct hnew hinitializer hbind =>
    unfold Eval.construct
    rw [Step.bind_of_done hnew, hinitializer]
    simp only
    rw [Step.bind_of_done hbind]
    exact .bind fun _ => .refl _
  | @apply n m m₁ closure arguments scope hrun =>
    unfold Eval.apply
    rw [Step.bind_of_done hrun]
    refine .trans .within (.bind fun {completion k} _ => ?_)
    split
    · exact .refl k
    · cases completion with
      | _ => exact .refl k

/-- All that a visit comes to ends before the visit does. -/
theorem Ready.resumes_visits {u v : Visit} (h : w.Ready around u) (hv : Visits u v) :
    v.after.Onward u.after := by
  induction hv with
  | refl => exact .refl _
  | tail hvisits hs ih =>
    obtain ⟨w', around', -, hready⟩ := h.visits hvisits
    exact (hready.resumes hs).trans ih

end Chronicle

namespace Session

variable {s : Session} {past : Visit → Prop} {budget : Nat} {source : String} {u v : Visit}

theorem Begins.machine_run (hu : s.Begins budget source u) :
    (s.run budget source).2.machine = u.after := by
  obtain ⟨distances, herrors, hresolve, rfl⟩ := hu
  unfold run
  rw [runReading_accepted s budget herrors hresolve, ended_snd]
  rfl

theorem History.begins (h : s.History past) (hu : s.Begins budget source u) :
    ∃ (w : Chronicle) (around : Surroundings),
      w.natives = s.machine.natives ∧ w.Ready around u := by
  obtain ⟨distances, herrors, hresolve, rfl⟩ := hu
  obtain ⟨w, around, -, hready⟩ := h.ready ⟨distances, herrors, hresolve, .refl⟩
  exact ⟨w, around, hready⟩

/-- A run offers no functions of the host. -/
theorem History.natives_run (h : s.History past) (budget : Nat) (source : String) :
    (s.run budget source).2.machine.natives = s.machine.natives := by
  rcases machine_run s budget source with hmachine | ⟨u, hu, hmachine⟩
  · rw [hmachine]
  · obtain ⟨w, around, hnatives, hready⟩ := h.begins hu
    obtain ⟨w', hw, hafter⟩ := hready.after
    rw [hmachine, ← hafter.natives, hw.natives_eq, hnatives]

theorem History.onward_act (h : s.History past) (a : Action) :
    s.machine.Onward (s.act a).2.machine := by
  cases a with
  | run budget source =>
    change s.machine.Onward (s.run budget source).2.machine
    rcases machine_run s budget source with hmachine | ⟨u, hu, hmachine⟩
    · rw [hmachine]
      exact .refl _
    · obtain ⟨w, around, -, hready⟩ := h.begins hu
      obtain ⟨distances, -, -, rfl⟩ := hu
      rw [hmachine]
      exact { hready.onward with }
  | offer name host =>
    refine ⟨?_, fun i hpos _ => ?_, Nat.le_refl _, fun native hn => Array.mem_push.2 (.inl hn)⟩
    · exact Nat.le_of_eq Array.size_modify.symm
    · exact Store.get?_put_of_ne (.inl (Nat.ne_of_gt hpos))
  | drain => exact { Machine.Onward.refl s.machine with }

/-- A session goes on from all that it has come to. -/
theorem History.onward (h : s.History past) (hv : past v) :
    v.machine.Onward v.after ∧ v.after.Onward s.machine := by
  induction h with
  | start sink clock => exact hv.elim
  | @act a s past h ih =>
    rcases hv with hv | ⟨budget, source, rfl, hv⟩
    · exact ⟨(ih hv).1, (ih hv).2.trans (h.onward_act a)⟩
    · obtain ⟨distances, herrors, hresolve, hv⟩ := hv
      have hu : s.Begins budget source _ := ⟨distances, herrors, hresolve, rfl⟩
      obtain ⟨w, around, -, hroot⟩ := h.begins hu
      obtain ⟨w', around', -, hready⟩ := hroot.visits hv
      change v.machine.Onward v.after ∧ v.after.Onward (s.run budget source).2.machine
      rw [hu.machine_run]
      exact ⟨hready.onward, hroot.resumes_visits hv⟩

/-- All that a session has come to was in frames that are those around it. -/
theorem History.past_ready (h : s.History past) (hv : past v) :
    ∃ (w : Chronicle) (around : Surroundings), w.Ready around v := by
  induction h with
  | start sink clock => exact hv.elim
  | act a h ih =>
    rcases hv with hv | ⟨budget, source, rfl, hv⟩
    · exact ih hv
    · obtain ⟨w, around, -, -, hready⟩ := h.ready hv
      exact ⟨w, around, hready⟩

end Session

end LoxLang
