import LoxLang.Tree.Fault

/-!
# Grammar rules

A rule reads a phrase from the front of a token sequence. It never looks behind, and the first end
token ends the sequence for it. A rule that fails leaves its reader where it stands; the nearest
`recover` records the fault and drops tokens up to the next place where a statement can begin.

Rules that repeat take a bound on their steps, and say `exhausted` when it is too small.
-/

namespace LoxLang

/-- How far reading has come: the tokens to come, the next free number, and the faults so far. -/
structure Cursor where
  rest : List Token
  nextId : Nat
  errors : List GrammarError

namespace Cursor

/-- What stands after the last token of a sequence that has no end token. -/
def standIn : Token :=
  ⟨.eof, "", 0⟩

/-- The next token. -/
def peek (c : Cursor) : Token :=
  c.rest.headD standIn

/-- Has the end been reached? -/
def atEnd (c : Cursor) : Bool :=
  c.peek.isEnd

/-- The cursor behind the next token; nothing stands behind the end. -/
def advance (c : Cursor) : Cursor :=
  if c.atEnd then c else { c with rest := c.rest.tail }

/-- The cursor with one more fault. -/
def record (c : Cursor) (e : GrammarError) : Cursor :=
  { c with errors := c.errors ++ [e] }

end Cursor

/-- The outcome of a rule. -/
inductive Reply (α : Type) where
  | ok (value : α) (cursor : Cursor)
  | fail (error : GrammarError) (cursor : Cursor)
  | exhausted

/-- A rule of the grammar. -/
def Rule (α : Type) : Type :=
  Cursor → Reply α

namespace Rule

variable {α β : Type}

/-- The phrase without tokens. -/
def pure (value : α) : Rule α :=
  fun c => .ok value c

/-- One phrase after another. -/
def bind (first : Rule α) (next : α → Rule β) : Rule β :=
  fun c =>
    match first c with
    | .ok value c => next value c
    | .fail e c => .fail e c
    | .exhausted => .exhausted

instance : Monad Rule where
  pure := pure
  bind := bind

/-- The answer of a rule that may take no more steps. -/
def exhausted : Rule α :=
  fun _ => .exhausted

/-- The next token, which is not taken. -/
def peek : Rule Token :=
  fun c => .ok c.peek c

/-- Takes the next token. -/
def advance : Rule Unit :=
  fun c => .ok () c.advance

/-- Takes the next token if it is of one of these kinds. -/
def take? (kinds : List Kind) : Rule (Option Token) :=
  fun c => if c.peek.kind ∈ kinds then .ok (some c.peek) c.advance else .ok none c

/-- Fails at the next token. -/
def fail (fault : GrammarFault) : Rule α :=
  fun c => .fail ⟨Site.ofToken c.peek, fault⟩ c

/-- Takes the awaited token, or fails. -/
def expect (awaited : Awaited) : Rule Token :=
  fun c =>
    if c.peek.kind = awaited.kind then .ok c.peek c.advance
    else fail (.missing awaited) c

/-- Records a fault without failing. -/
def record (site : Site) (fault : GrammarFault) : Rule Unit :=
  fun c => .ok () (c.record ⟨site, fault⟩)

/-- A number that no other mention has. -/
def freshId : Rule Nat :=
  fun c => .ok c.nextId { c with nextId := c.nextId + 1 }

/-- A phrase, unless a token of this kind comes next. -/
def unlessNext (kind : Kind) (phrase : Rule α) : Rule (Option α) := do
  let next ← peek
  if next.kind = kind then return none
  else return some (← phrase)

/-- Do statements begin with this token? -/
def startsStatement (t : Token) : Bool :=
  match t.kind with
  | .keyword k =>
    match k with
    | .classWord | .funWord | .varWord | .forWord => true
    | .ifWord | .whileWord | .printWord | .returnWord => true
    | _ => false
  | _ => false

/-- Drops tokens up to the next place where a statement can begin, `dropped` being the last one
gone: after a semicolon, before a keyword that begins one, or at the end. -/
def boundary (dropped : Token) : List Token → List Token
  | [] => []
  | t :: rest =>
    if t.isEnd || dropped.kind = .mark .semicolon || startsStatement t then t :: rest
    else boundary t rest

/-- Drops the token at which a phrase failed, and then all up to the next boundary. -/
def resynchronize (c : Cursor) : Cursor :=
  if c.atEnd then c else { c with rest := boundary c.peek c.rest.tail }

/-- A phrase whose failure is recorded and passed over. -/
def recover (phrase : Rule α) : Rule (Option α) :=
  fun c =>
    match phrase c with
    | .ok value c => .ok (some value) c
    | .fail e c => .ok none (resynchronize (c.record e))
    | .exhausted => .exhausted

/-- Phrases up to a token that stops them; those that were passed over are left out. -/
def manyUntil (stops : Token → Bool) (phrase : Rule (Option α)) : (steps : Nat) → Rule (List α)
  | 0 => exhausted
  | steps + 1 => do
    let next ← peek
    if stops next then return []
    else
      let first ← phrase
      let others ← manyUntil stops phrase steps
      return first.toList ++ others

/-- One more list element than `maxArity` is a fault, and so is every further one. -/
def limit (listed : Listed) (count : Nat) : Rule Unit := do
  let next ← peek
  if maxArity ≤ count then record (Site.ofToken next) (.tooMany listed) else return ()

/-- Phrases with commas between them, `count` of which have been read. Elements beyond the limit
are read all the same. -/
def commaSeparated (listed : Listed) (phrase : Rule α) : (steps count : Nat) → Rule (List α)
  | 0, _ => exhausted
  | steps + 1, count => do
    limit listed count
    let first ← phrase
    match ← take? [.mark .comma] with
    | none => return [first]
    | some _ => return first :: (← commaSeparated listed phrase steps (count + 1))

/-- A list in parentheses, the left one of which has been read, up to the right one. -/
def parenthesized (listed : Listed) (phrase : Rule α) (steps : Nat) : Rule (List α) := do
  return (← unlessNext (.mark .rightParen) (commaSeparated listed phrase steps 0)).getD []

end Rule

end LoxLang
