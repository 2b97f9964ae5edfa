import LoxLang.Proofs.Grammar.Derivation

/-!
# Moved text

A text that stands lower in its file has the same tokens on later lines, and one that is read later
in its session has later numbers for its mentions. Its derivations are those of the text itself,
moved.

1. `Grammar.Declarations.move`: what moved tokens derive.
2. `Grammar.Declarations.append`: what two texts derive one after the other.
-/

namespace LoxLang

/-- How a text is moved: the line that each of its lines becomes, and so many numbers on. -/
structure Move where
  line : Nat → Nat
  ids : Nat

namespace Move

/-- Down only, with the numbers as they were. -/
def down (lines : Nat) : Move :=
  ⟨(· + lines), 0⟩

/-- On only, in the lines as they were. -/
def on (ids : Nat) : Move :=
  ⟨id, ids⟩

end Move

variable (d : Move)

def Token.move (t : Token) : Token :=
  { t with line := d.line t.line }

def Occurrence.move (o : Occurrence) : Occurrence :=
  ⟨o.id + d.ids, o.token.move d⟩

mutual

def Expr.move : Expr → Expr
  | .literal value => .literal value
  | .grouping inner => .grouping inner.move
  | .unary operator operand => .unary (operator.move d) operand.move
  | .binary left operator right => .binary left.move (operator.move d) right.move
  | .logical left operator right => .logical left.move (operator.move d) right.move
  | .var name => .var (name.move d)
  | .assign target value => .assign (target.move d) value.move
  | .call callee close arguments => .call callee.move (close.move d) (Expr.moveAll arguments)
  | .get object name => .get object.move (name.move d)
  | .set object name value => .set object.move (name.move d) value.move
  | .this keyword => .this (keyword.move d)
  | .super keyword method => .super (keyword.move d) (method.move d)

def Expr.moveAll : List Expr → List Expr
  | [] => []
  | e :: rest => e.move :: Expr.moveAll rest

end

mutual

def Stmt.move : Stmt → Stmt
  | .expression value => .expression (value.move d)
  | .print value => .print (value.move d)
  | .varDecl name initializer => .varDecl (name.move d) (initializer.map (Expr.move d))
  | .block body => .block (Stmt.moveAll body)
  | .ifThen condition thenBranch => .ifThen (condition.move d) thenBranch.move
  | .ifElse condition thenBranch elseBranch =>
    .ifElse (condition.move d) thenBranch.move elseBranch.move
  | .whileDo condition body => .whileDo (condition.move d) body.move
  | .funDecl decl => .funDecl decl.move
  | .ret keyword value => .ret (keyword.move d) (value.map (Expr.move d))
  | .classDecl name superclass methods =>
    .classDecl (name.move d) (superclass.map (Occurrence.move d)) (FunctionDecl.moveAll methods)

def FunctionDecl.move : FunctionDecl → FunctionDecl
  | ⟨name, params, body⟩ => ⟨name.move d, params.map (Token.move d), Stmt.moveAll body⟩

def Stmt.moveAll : List Stmt → List Stmt
  | [] => []
  | s :: rest => s.move :: Stmt.moveAll rest

def FunctionDecl.moveAll : List FunctionDecl → List FunctionDecl
  | [] => []
  | m :: rest => m.move :: FunctionDecl.moveAll rest

end

section

variable {d}

@[simp] theorem Token.kind_move (t : Token) : (t.move d).kind = t.kind := rfl

@[simp] theorem Token.lexeme_move (t : Token) : (t.move d).lexeme = t.lexeme := rfl

@[simp] theorem Token.isEnd_move (t : Token) : (t.move d).isEnd = t.isEnd := rfl

@[simp] theorem Occurrence.name_move (o : Occurrence) : (o.move d).name = o.name := rfl

@[simp] theorem FunctionDecl.isInitializer_move (decl : FunctionDecl) :
    (decl.move d).isInitializer = decl.isInitializer := by
  cases decl
  rfl

mutual

/-- A text that is not moved stays as it is. -/
theorem Expr.move_zero : (e : Expr) → e.move (.down 0) = e
  | .literal _ => rfl
  | .grouping inner => by rw [Expr.move, inner.move_zero]
  | .unary _ operand => by rw [Expr.move, operand.move_zero]; rfl
  | .binary left _ right => by rw [Expr.move, left.move_zero, right.move_zero]; rfl
  | .logical left _ right => by rw [Expr.move, left.move_zero, right.move_zero]; rfl
  | .var _ => rfl
  | .assign _ value => by rw [Expr.move, value.move_zero]; rfl
  | .call callee _ arguments => by
    rw [Expr.move, callee.move_zero, Expr.moveAll_zero arguments]
    rfl
  | .get object _ => by rw [Expr.move, object.move_zero]; rfl
  | .set object _ value => by rw [Expr.move, object.move_zero, value.move_zero]; rfl
  | .this _ => rfl
  | .super _ _ => rfl

theorem Expr.moveAll_zero : (es : List Expr) → Expr.moveAll (.down 0) es = es
  | [] => rfl
  | e :: rest => by rw [Expr.moveAll, e.move_zero, Expr.moveAll_zero rest]

end

mutual

theorem Stmt.move_zero : (s : Stmt) → s.move (.down 0) = s
  | .expression value => by rw [Stmt.move, value.move_zero]
  | .print value => by rw [Stmt.move, value.move_zero]
  | .varDecl _ (some value) => by rw [Stmt.move, Option.map, value.move_zero]; rfl
  | .varDecl _ none => rfl
  | .block body => by rw [Stmt.move, Stmt.moveAll_zero body]
  | .ifThen condition thenBranch => by
    rw [Stmt.move, condition.move_zero, thenBranch.move_zero]
  | .ifElse condition thenBranch elseBranch => by
    rw [Stmt.move, condition.move_zero, thenBranch.move_zero, elseBranch.move_zero]
  | .whileDo condition body => by rw [Stmt.move, condition.move_zero, body.move_zero]
  | .funDecl decl => by rw [Stmt.move, decl.move_zero]
  | .ret _ (some value) => by rw [Stmt.move, Option.map, value.move_zero]; rfl
  | .ret _ none => rfl
  | .classDecl _ (some _) methods => by rw [Stmt.move, FunctionDecl.moveAll_zero methods]; rfl
  | .classDecl _ none methods => by rw [Stmt.move, FunctionDecl.moveAll_zero methods]; rfl

theorem FunctionDecl.move_zero : (decl : FunctionDecl) → decl.move (.down 0) = decl
  | ⟨_, params, body⟩ => by
    rw [FunctionDecl.move, Stmt.moveAll_zero body]
    exact congrArg (FunctionDecl.mk _ · body) (List.map_id params)

theorem Stmt.moveAll_zero : (body : List Stmt) → Stmt.moveAll (.down 0) body = body
  | [] => rfl
  | s :: rest => by rw [Stmt.moveAll, s.move_zero, Stmt.moveAll_zero rest]

theorem FunctionDecl.moveAll_zero : (methods : List FunctionDecl) →
    FunctionDecl.moveAll (.down 0) methods = methods
  | [] => rfl
  | m :: rest => by rw [FunctionDecl.moveAll, m.move_zero, FunctionDecl.moveAll_zero rest]

end

theorem Expr.length_moveAll (es : List Expr) : (Expr.moveAll d es).length = es.length := by
  induction es with
  | nil => rfl
  | cons e rest ih => simp [Expr.moveAll, ih]

theorem Stmt.move_forLoop (initializer : Option Stmt) (condition increment : Option Expr)
    (body : Stmt) :
    (Stmt.forLoop initializer condition increment body).move d =
      Stmt.forLoop (initializer.map (Stmt.move d)) (condition.map (Expr.move d))
        (increment.map (Expr.move d)) (body.move d) := by
  cases initializer <;> cases condition <;> cases increment <;>
    simp [Stmt.forLoop, Stmt.move, Stmt.moveAll, Expr.move]

theorem Level.move_build {level : Level} (h : level ∈ Level.all) (left : Expr) (operator : Token)
    (right : Expr) :
    (level.build left operator right).move d =
      level.build (left.move d) (operator.move d) (right.move d) := by
  simp only [all, List.mem_cons, List.not_mem_nil, or_false] at h
  rcases h with rfl | rfl | rfl | rfl | rfl | rfl <;> rfl

end

namespace Grammar

/-! ## Expressions -/

mutual

theorem Expression.move {n n' : Nat} {ts : List Token} {e : Expr} :
    Expression n ts e n' →
      Expression (n + d.ids) (ts.map (Token.move d)) (e.move d) (n' + d.ids)
  | .assign hname hequals h => by
    have h' := h.move
    rw [Nat.add_right_comm] at h'
    rw [Nat.add_right_comm]
    exact .assign hname hequals h'
  | .set hobject hdot hname hequals hvalue => by
    simp only [List.map_append, List.map_cons]
    exact .set hobject.move hdot hname hequals hvalue.move
  | .operators h => .operators (h.move fun _ hm => hm)

theorem Operators.move {levels : List Level} {n n' : Nat} {ts : List Token} {e : Expr} :
    Operators levels n ts e n' → (∀ level ∈ levels, level ∈ Level.all) →
      Operators levels (n + d.ids) (ts.map (Token.move d)) (e.move d) (n' + d.ids)
  | .operand h, _ => .operand h.move
  | .tighter h, hl => .tighter (h.move fun l hm => hl l (List.mem_cons_of_mem _ hm))
  | .operator hleft hoperator hright, hl => by
    rw [Level.move_build (hl _ List.mem_cons_self)]
    simp only [List.map_append, List.map_cons]
    exact .operator (hleft.move hl) hoperator
      (hright.move fun l hm => hl l (List.mem_cons_of_mem _ hm))

theorem Unary.move {n n' : Nat} {ts : List Token} {e : Expr} :
    Unary n ts e n' → Unary (n + d.ids) (ts.map (Token.move d)) (e.move d) (n' + d.ids)
  | .operator hoperator h => .operator hoperator h.move
  | .call h => .call h.move

theorem Call.move {n n' : Nat} {ts : List Token} {e : Expr} :
    Call n ts e n' → Call (n + d.ids) (ts.map (Token.move d)) (e.move d) (n' + d.ids)
  | .primary h => .primary h.move
  | .call h hopening harguments hle hclose => by
    simp only [List.map_append, List.map_cons, List.map_nil]
    exact .call h.move hopening harguments.move (by rwa [Expr.length_moveAll]) hclose
  | .get h hdot hname => by
    simp only [List.map_append, List.map_cons, List.map_nil]
    exact .get h.move hdot hname

theorem Arguments.move {n n' : Nat} {ts : List Token} {es : List Expr} :
    Arguments n ts es n' →
      Arguments (n + d.ids) (ts.map (Token.move d)) (Expr.moveAll d es) (n' + d.ids)
  | .none => .none
  | .some h => .some h.move

theorem Listed.move {n n' : Nat} {ts : List Token} {es : List Expr} :
    Listed n ts es n' →
      Listed (n + d.ids) (ts.map (Token.move d)) (Expr.moveAll d es) (n' + d.ids)
  | .one h => .one h.move
  | .more h hcomma hrest => by
    simp only [List.map_append, List.map_cons]
    exact .more h.move hcomma hrest.move

theorem Primary.move {n n' : Nat} {ts : List Token} {e : Expr} :
    Primary n ts e n' → Primary (n + d.ids) (ts.map (Token.move d)) (e.move d) (n' + d.ids)
  | .literal hk => .literal hk
  | .this hk => by
    rw [Nat.add_right_comm]
    exact .this hk
  | .var hk => by
    rw [Nat.add_right_comm]
    exact .var hk
  | .super hk hdot hmethod => by
    rw [Nat.add_right_comm]
    exact .super hk hdot hmethod
  | .grouping hopening h hclose => by
    simp only [List.map_append, List.map_cons, List.map_nil]
    exact .grouping hopening h.move hclose

end

/-! ## Statements and declarations -/

variable {n n' : Nat} {ts : List Token}

theorem Clause.move {o : Option Expr} (h : Clause n ts o n') :
    Clause (n + d.ids) (ts.map (Token.move d)) (o.map (Expr.move d)) (n' + d.ids) := by
  cases h with
  | none => exact .none
  | some h => exact .some (h.move d)

theorem Variable.move {s : Stmt} (h : Variable n ts s n') :
    Variable (n + d.ids) (ts.map (Token.move d)) (s.move d) (n' + d.ids) := by
  cases h with
  | bare hname hsemicolon => exact .bare hname hsemicolon
  | initialized hname hequals h hsemicolon =>
    simp only [List.map_append, List.map_cons, List.map_nil]
    exact .initialized hname hequals (h.move d) hsemicolon

theorem Initializer.move {o : Option Stmt} (h : Initializer n ts o n') :
    Initializer (n + d.ids) (ts.map (Token.move d)) (o.map (Stmt.move d)) (n' + d.ids) := by
  cases h with
  | none hsemicolon => exact .none hsemicolon
  | declaration hword h => exact .declaration hword (h.move d)
  | expression h hsemicolon =>
    simp only [List.map_append, List.map_cons, List.map_nil]
    exact .expression (h.move d) hsemicolon

theorem Names.move {names : List Token} (h : Names ts names) :
    Names (ts.map (Token.move d)) (names.map (Token.move d)) := by
  induction h with
  | one hname => exact .one hname
  | more hname hcomma _ ih => exact .more hname hcomma ih

theorem Parameters.move {names : List Token} (h : Parameters ts names) :
    Parameters (ts.map (Token.move d)) (names.map (Token.move d)) := by
  cases h with
  | none => exact .none
  | some h hle => exact .some (h.move d) (by rwa [List.length_map])

theorem Superclass.move {o : Option Occurrence} (h : Superclass n ts o n') :
    Superclass (n + d.ids) (ts.map (Token.move d)) (o.map (Occurrence.move d)) (n' + d.ids) := by
  cases h with
  | none => exact .none
  | some hless hname =>
    rw [Nat.add_right_comm]
    exact .some hless hname

mutual

theorem Statement.move {b : Bool} {n n' : Nat} {ts : List Token} {s : Stmt} :
    Statement b n ts s n' →
      Statement b (n + d.ids) (ts.map (Token.move d)) (s.move d) (n' + d.ids)
  | .expression h hsemicolon => by
    simp only [List.map_append, List.map_cons, List.map_nil]
    exact .expression (h.move d) hsemicolon
  | .print hword h hsemicolon => by
    simp only [List.map_append, List.map_cons, List.map_nil]
    exact .print hword (h.move d) hsemicolon
  | .ret hword h hsemicolon => by
    simp only [List.map_append, List.map_cons, List.map_nil]
    exact .ret hword (h.move d) hsemicolon
  | .block h => .block h.move
  | .whileDo hword hopening h hclose hbody => by
    simp only [List.map_append, List.map_cons]
    exact .whileDo hword hopening (h.move d) hclose hbody.move
  | .forLoop hword hopening hinit hcondition hsemicolon hincrement hclose hbody hloop => by
    obtain rfl := desugars_iff.1 hloop
    simp only [List.map_append, List.map_cons, Stmt.move_forLoop]
    exact .forLoop hword hopening (hinit.move d) (hcondition.move d) hsemicolon
      (hincrement.move d) hclose hbody.move (desugars_forLoop _ _ _ _)
  | .ifThen hword hopening h hclose hthen => by
    simp only [List.map_append, List.map_cons]
    exact .ifThen hword hopening (h.move d) hclose hthen.move
  | .ifElse hword hopening h hclose hthen hother helse => by
    simp only [List.map_append, List.map_cons]
    exact .ifElse hword hopening (h.move d) hclose hthen.move hother helse.move

theorem Declaration.move {n n' : Nat} {ts : List Token} {s : Stmt} :
    Declaration n ts s n' →
      Declaration (n + d.ids) (ts.map (Token.move d)) (s.move d) (n' + d.ids)
  | .classDecl hword hname hparent hopening hmethods hclose => by
    simp only [List.map_append, List.map_cons, List.map_nil]
    exact .classDecl hword hname (hparent.move d) hopening hmethods.move hclose
  | .funDecl hword h => .funDecl hword h.move
  | .varDecl hword h => .varDecl hword (h.move d)
  | .statement h => .statement h.move

theorem Declarations.move {n n' : Nat} {ts : List Token} {body : List Stmt} :
    Declarations n ts body n' →
      Declarations (n + d.ids) (ts.map (Token.move d)) (Stmt.moveAll d body) (n' + d.ids)
  | .nil => .nil
  | .cons h hrest => by
    rw [List.map_append]
    exact .cons h.move hrest.move

theorem Block.move {n n' : Nat} {ts : List Token} {body : List Stmt} :
    Block n ts body n' →
      Block (n + d.ids) (ts.map (Token.move d)) (Stmt.moveAll d body) (n' + d.ids)
  | .braces hopening h hclose => by
    simp only [List.map_append, List.map_cons, List.map_nil]
    exact .braces hopening h.move hclose

theorem Function.move {n n' : Nat} {ts : List Token} {decl : FunctionDecl} :
    Function n ts decl n' →
      Function (n + d.ids) (ts.map (Token.move d)) (decl.move d) (n' + d.ids)
  | .named hname hopening hparams hclose hbody => by
    simp only [List.map_append, List.map_cons]
    exact .named hname hopening (hparams.move d) hclose hbody.move

theorem Methods.move {n n' : Nat} {ts : List Token} {methods : List FunctionDecl} :
    Methods n ts methods n' →
      Methods (n + d.ids) (ts.map (Token.move d)) (FunctionDecl.moveAll d methods) (n' + d.ids)
  | .nil => .nil
  | .cons h hrest => by
    rw [List.map_append]
    exact .cons h.move hrest.move

end

/-- What two texts derive, they derive one after the other. -/
theorem Declarations.append {n k n' : Nat} {ts us : List Token} {body rest : List Stmt} :
    Declarations n ts body k → Declarations k us rest n' →
      Declarations n (ts ++ us) (body ++ rest) n'
  | .nil, hrest => hrest
  | .cons h hmore, hrest => by
    rw [List.append_assoc]
    exact .cons h (hmore.append hrest)

end Grammar

end LoxLang
