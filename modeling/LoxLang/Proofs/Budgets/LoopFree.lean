import LoxLang.Proofs.Copies.Sessions
import LoxLang.Proofs.Splitting.Moved

/-!
# What a program without loops costs

Without loops there is one way only to run a piece of code again: to call a function. A call that is
inside as many others as there may be does not run its body, and every part of a body is smaller
than the body. So the calls that are still possible, and then the size of the code, bound the budget
that evaluation needs.

1. `Code.bounded_hereditary`: loops are in no part of code without loops, and parts are smaller.
2. `Visit.Affordable.visits`: who can afford a task can afford all it comes to.
-/

namespace LoxLang

mutual

/-- There is no loop in a statement. A `for` loop is one, too. -/
def Stmt.loopFree : Stmt → Bool
  | .block body => Stmt.allLoopFree body
  | .ifThen _ thenBranch => thenBranch.loopFree
  | .ifElse _ thenBranch elseBranch => thenBranch.loopFree && elseBranch.loopFree
  | .whileDo _ _ => false
  | .funDecl decl => decl.loopFree
  | .classDecl _ _ methods => FunctionDecl.allLoopFree methods
  | .expression _ | .print _ | .varDecl _ _ | .ret _ _ => true

def FunctionDecl.loopFree : FunctionDecl → Bool
  | ⟨_, _, body⟩ => Stmt.allLoopFree body

def Stmt.allLoopFree : List Stmt → Bool
  | [] => true
  | s :: rest => s.loopFree && Stmt.allLoopFree rest

def FunctionDecl.allLoopFree : List FunctionDecl → Bool
  | [] => true
  | m :: rest => m.loopFree && FunctionDecl.allLoopFree rest

end

theorem Stmt.allLoopFree_iff {body : List Stmt} :
    Stmt.allLoopFree body ↔ ∀ s ∈ body, s.loopFree := by
  induction body with
  | nil => simp [Stmt.allLoopFree]
  | cons s rest ih => simp [Stmt.allLoopFree, ih]

theorem FunctionDecl.allLoopFree_iff {methods : List FunctionDecl} :
    FunctionDecl.allLoopFree methods ↔ ∀ m ∈ methods, m.loopFree := by
  induction methods with
  | nil => simp [FunctionDecl.allLoopFree]
  | cons m rest ih => simp [FunctionDecl.allLoopFree, ih]

mutual

/-- Whether there is a loop does not depend on where a text stands. -/
theorem Stmt.loopFree_move {d : Move} : (s : Stmt) → (s.move d).loopFree = s.loopFree
  | .block body => Stmt.allLoopFree_moveAll body
  | .ifThen _ thenBranch => thenBranch.loopFree_move
  | .ifElse _ thenBranch elseBranch => by
    rw [Stmt.move, Stmt.loopFree, thenBranch.loopFree_move, elseBranch.loopFree_move, Stmt.loopFree]
  | .funDecl decl => decl.loopFree_move
  | .classDecl _ _ methods => FunctionDecl.allLoopFree_moveAll methods
  | .whileDo _ _ | .expression _ | .print _ | .varDecl _ _ | .ret _ _ => rfl

theorem FunctionDecl.loopFree_move {d : Move} : (decl : FunctionDecl) →
    (decl.move d).loopFree = decl.loopFree
  | ⟨_, _, body⟩ => Stmt.allLoopFree_moveAll body

theorem Stmt.allLoopFree_moveAll {d : Move} : (body : List Stmt) →
    Stmt.allLoopFree (Stmt.moveAll d body) = Stmt.allLoopFree body
  | [] => rfl
  | s :: rest => by
    rw [Stmt.moveAll, Stmt.allLoopFree, s.loopFree_move, Stmt.allLoopFree_moveAll rest,
      Stmt.allLoopFree]

theorem FunctionDecl.allLoopFree_moveAll {d : Move} : (methods : List FunctionDecl) →
    FunctionDecl.allLoopFree (FunctionDecl.moveAll d methods) = FunctionDecl.allLoopFree methods
  | [] => rfl
  | m :: rest => by
    rw [FunctionDecl.moveAll, FunctionDecl.allLoopFree, m.loopFree_move,
      FunctionDecl.allLoopFree_moveAll rest, FunctionDecl.allLoopFree]

end

namespace Code

/-- There is no loop in a piece of code. -/
def loopFree : Code → Bool
  | expr _ => true
  | stmt s => s.loopFree
  | function decl => decl.loopFree

theorem loopFree_function (decl : FunctionDecl) :
    (function decl).loopFree = Stmt.allLoopFree decl.body := by
  cases decl
  rfl

theorem loopFree_parts {c c' : Code} (h : c.loopFree) (hpart : c' ∈ c.parts) : c'.loopFree := by
  cases c with
  | expr e =>
    cases e <;> simp [parts] at hpart
    case call => rcases hpart with rfl | ⟨e, -, rfl⟩ <;> rfl
    all_goals rcases hpart with rfl | rfl <;> rfl
  | stmt s =>
    cases s with simp [parts] at hpart
    | block body =>
      obtain ⟨s, hs, rfl⟩ := hpart
      exact Stmt.allLoopFree_iff.1 h s hs
    | classDecl name superclass methods =>
      obtain ⟨m, hm, rfl⟩ := hpart
      exact FunctionDecl.allLoopFree_iff.1 h m hm
    | ifThen condition thenBranch =>
      rcases hpart with rfl | rfl
      · rfl
      · exact h
    | ifElse condition thenBranch elseBranch =>
      have h : (thenBranch.loopFree && elseBranch.loopFree) = true := h
      rw [Bool.and_eq_true] at h
      rcases hpart with rfl | rfl | rfl
      · rfl
      · exact h.1
      · exact h.2
    | whileDo condition body => exact nomatch h
    | funDecl decl =>
      obtain rfl := hpart
      exact h
    | varDecl name initializer =>
      obtain ⟨e, -, rfl⟩ := hpart
      rfl
    | ret keyword value =>
      obtain ⟨e, -, rfl⟩ := hpart
      rfl
    | expression value | print value =>
      obtain rfl := hpart
      rfl
  | function decl =>
    obtain ⟨s, hs, rfl⟩ := List.mem_map.1 hpart
    exact Stmt.allLoopFree_iff.1 (loopFree_function decl ▸ h) s hs

theorem sizeOf_expr_of_mem {e : Expr} {es : List Expr} (h : e ∈ es) :
    sizeOf (expr e) ≤ sizeOf es := by
  have hlt := List.sizeOf_lt_of_mem h
  simp only [expr.sizeOf_spec]
  omega

theorem sizeOf_stmt_of_mem {s : Stmt} {body : List Stmt} (h : s ∈ body) :
    sizeOf (stmt s) ≤ sizeOf body := by
  have hlt := List.sizeOf_lt_of_mem h
  simp only [stmt.sizeOf_spec]
  omega

theorem sizeOf_function_of_mem {m : FunctionDecl} {methods : List FunctionDecl} (h : m ∈ methods) :
    sizeOf (function m) ≤ sizeOf methods := by
  have hlt := List.sizeOf_lt_of_mem h
  simp only [function.sizeOf_spec]
  omega

theorem sizeOf_body (decl : FunctionDecl) : sizeOf decl.body < sizeOf (function decl) := by
  cases decl
  simp only [function.sizeOf_spec, FunctionDecl.mk.sizeOf_spec]
  omega

/-- Parts are smaller than the whole. -/
theorem sizeOf_parts {c c' : Code} (hpart : c' ∈ c.parts) : sizeOf c' < sizeOf c := by
  cases c with
  | expr e =>
    cases e <;> simp [parts] at hpart
    case call callee close arguments =>
      rcases hpart with rfl | ⟨e, he, rfl⟩
      · simp
        omega
      · have hle := sizeOf_expr_of_mem he
        simp at hle ⊢
        omega
    all_goals rcases hpart with rfl | rfl <;> simp <;> omega
  | stmt s =>
    cases s with simp [parts] at hpart
    | block body =>
      obtain ⟨s, hs, rfl⟩ := hpart
      have hle := sizeOf_stmt_of_mem hs
      simp at hle ⊢
      omega
    | classDecl name superclass methods =>
      obtain ⟨m, hm, rfl⟩ := hpart
      have hle := sizeOf_function_of_mem hm
      simp at hle ⊢
      omega
    | varDecl name initializer =>
      obtain ⟨e, rfl, rfl⟩ := hpart
      simp
      omega
    | ret keyword value =>
      obtain ⟨e, rfl, rfl⟩ := hpart
      simp
      omega
    | ifElse condition thenBranch elseBranch =>
      rcases hpart with rfl | rfl | rfl <;> simp <;> omega
    | ifThen condition body | whileDo condition body =>
      rcases hpart with rfl | rfl
      · simp
        omega
      · simp
    | _ =>
      obtain rfl := hpart
      simp
  | function decl =>
    obtain ⟨s, hs, rfl⟩ := List.mem_map.1 hpart
    exact Nat.lt_of_le_of_lt (sizeOf_stmt_of_mem hs) (sizeOf_body decl)

/-- There is no loop in a piece of code, and it is no larger than some bound. -/
structure Bounded (bound : Nat) (c : Code) : Prop where
  loopFree : c.loopFree
  size : sizeOf c ≤ bound

theorem bounded_hereditary (bound : Nat) : Hereditary (Bounded bound) :=
  fun h _ hpart => ⟨loopFree_parts h.loopFree hpart,
    Nat.le_trans (Nat.le_of_lt (sizeOf_parts hpart)) h.size⟩

end Code

/-- All code is without loops and within a bound. -/
def Discipline.bounded (bound : Nat) : Discipline :=
  .ofCode (Code.bounded_hereditary bound)

/-! ## Budgets -/

/-- What a task costs beside the bodies of the calls it makes. The body that is called is not a part
of the task; it is within the bound. -/
noncomputable def Task.cost (bound : Nat) : Task → Nat
  | .expr _ e => sizeOf e
  | .exprs _ es => sizeOf es
  | .stmt s => sizeOf s
  | .stmts body => sizeOf body
  | .program statements => sizeOf statements
  | .apply _ _ | .construct _ _ => bound
  | .loop _ _ | .read _ | .write _ _ _ | .super _ _ | .call _ _ _ | .makeClass _ _ _ => 0

/-- How many more calls there may be inside those in progress. -/
def Machine.callsLeft (m : Machine) : Nat :=
  Machine.maxDepth - m.depth

/-- The budget pays for the task, and for a body of the largest size for each further call. -/
def Visit.Affordable (bound : Nat) (v : Visit) : Prop :=
  v.task.cost bound + v.machine.callsLeft * bound ≤ v.budget

namespace Visit.Affordable

variable {bound : Nat} {known : Distances} {u v : Visit}

/-- A body that is called is paid with the call. -/
theorem callsLeft_succ {m : Machine} (h : m.depth < Machine.maxDepth) :
    m.callsLeft * bound = bound + { m with depth := m.depth + 1 : Machine }.callsLeft * bound := by
  have hleft : m.callsLeft = { m with depth := m.depth + 1 : Machine }.callsLeft + 1 := by
    simp only [Machine.callsLeft]
    omega
  rw [hleft, Nat.succ_mul, Nat.add_comm]

/-- The cost is spent as the budget is, as long as no further call is made. -/
theorem of_cost_le (h : u.Affordable bound) (hdepth : v.machine.depth = u.machine.depth)
    (hcost : v.task.cost bound + u.budget ≤ u.task.cost bound + v.budget) :
    v.Affordable bound := by
  have hleft : v.machine.callsLeft = u.machine.callsLeft := by
    rw [Machine.callsLeft, hdepth, Machine.callsLeft]
  unfold Visit.Affordable at h ⊢
  rw [hleft]
  omega

/-- What a visit starts costs less than the visit: by what it has spent already. -/
theorem starts (hs : Starts u v) (hu : u.Copied (.itself (.bounded bound) known))
    (h : u.Affordable bound) : v.Affordable bound := by
  have hdepth := hs.depth
  have hcode := hu.task
  cases hs with
  | callFunction _ hroom | callClass _ hroom =>
    unfold Visit.Affordable at h ⊢
    rw [callsLeft_succ hroom] at h
    simpa [Task.cost] using h
  | whileDo | loopCondition | loopBody _ _ | loopAgain _ _ _ => exact nomatch hcode.loopFree
  | apply _ =>
    obtain ⟨⟨c', hc⟩, -⟩ := hcode
    refine h.of_cost_le hdepth (Nat.add_le_add_right ?_ _)
    exact Nat.le_trans (Nat.le_of_lt (Code.sizeOf_body _)) hc.code.size
  | construct _ _ _ => exact h.of_cost_le hdepth (Nat.le_refl _)
  | _ =>
    refine h.of_cost_le hdepth ?_
    simp [Task.cost]
    try omega

/-- Who can afford a task without loops can afford all it comes to. -/
theorem visits (hs : Visits u v) (hu : u.Copied (.itself (.bounded bound) known))
    (h : u.Affordable bound) : v.Affordable bound := by
  induction hs with
  | refl => exact h
  | tail hvisits hstep ih => exact ih.starts hstep (hu.visits rfl hvisits)

/-- What can be afforded has some budget left. -/
theorem not_spent (hv : v.Copied (.itself (.bounded bound) known))
    (h : v.Affordable bound) : ¬ v.Spent := by
  intro hspent
  obtain ⟨budget, task, m⟩ := v
  have hcode := hv.task
  unfold Visit.Affordable at h
  cases task with
  | loop condition body => exact nomatch hcode.loopFree
  | expr x e =>
    obtain rfl : budget = 0 := hspent
    cases e <;> simp [Task.cost] at h
  | exprs x es =>
    obtain rfl : budget = 0 := hspent
    cases es <;> simp [Task.cost] at h
  | stmt s =>
    obtain rfl : budget = 0 := hspent
    cases s <;> simp [Task.cost] at h
  | stmts body =>
    obtain rfl : budget = 0 := hspent
    cases body <;> simp [Task.cost] at h
  | _ => exact hspent

end Visit.Affordable

end LoxLang
