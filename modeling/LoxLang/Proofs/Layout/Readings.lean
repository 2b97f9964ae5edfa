import LoxLang.Proofs.Copies.Machines
import LoxLang.Proofs.Scanning.Items
import LoxLang.Proofs.Splitting.Resolving
import LoxLang.Session

/-!
# Texts without their lines

Where the tokens of a text stand is of no use to the parser or the resolver but to say where a fault
is. Two texts differ in their layout alone if they are the same once all of both is put on one line.

1. `scan_flat`: blanks and comments between tokens only move the tokens.
2. `Reading.ofTokens_flat`: tokens in two layouts are read as the same.
-/

namespace LoxLang

/-- All on one line, with the numbers of the mentions as they were. -/
def Move.flat : Move :=
  ⟨fun _ => 0, 0⟩

/-- Two tokens that differ in their lines at most. -/
structure Token.SameText (t t' : Token) : Prop where
  kind : t.kind = t'.kind
  lexeme : t.lexeme = t'.lexeme

theorem Token.move_flat_eq_iff {t t' : Token} : t.move .flat = t'.move .flat ↔ t.SameText t' := by
  constructor
  · intro h
    have hkind := congrArg Token.kind h
    have hlexeme := congrArg Token.lexeme h
    exact ⟨hkind, hlexeme⟩
  · rintro ⟨hkind, hlexeme⟩
    simp only [Token.move, hkind, hlexeme]
    rfl

theorem Token.map_move_flat_eq_iff {ts ts' : List Token} :
    ts.map (Token.move .flat) = ts'.map (Token.move .flat) ↔
      List.Forall₂ Token.SameText ts ts' := by
  rw [← List.forall₂_eq_eq_eq, List.forall₂_map_left_iff, List.forall₂_map_right_iff]
  simp only [Token.move_flat_eq_iff]

/-! ## Sources -/

section

variable (d : Move)

def LexError.move (e : LexError) : LexError :=
  { e with line := d.line e.line }

def Item.move : Item → Item
  | .token t => .token (t.move d)
  | .error e => .error (e.move d)

def Diagnostic.move : Diagnostic → Diagnostic
  | .lexical e => .lexical (e.move d)
  | .grammar e => .grammar (e.move d)
  | .scoping e => .scoping (e.move d)
  | .runtime e => .runtime { e with line := d.line e.line }
  | .output fault => .output fault

def Reading.move (reading : Reading) : Reading :=
  ⟨Stmt.moveAll d reading.statements, reading.errors.map (Diagnostic.move d),
    reading.nextId + d.ids⟩

end

namespace Item

theorem tokens_map_move (d : Move) (items : List Item) :
    tokens (items.map (move d)) = (tokens items).map (Token.move d) := by
  unfold tokens
  rw [List.filterMap_map, List.map_filterMap]
  congr 1
  funext item
  cases item <;> rfl

theorem errors_map_move (d : Move) (items : List Item) :
    errors (items.map (move d)) = (errors items).map (LexError.move d) := by
  unfold errors
  rw [List.filterMap_map, List.map_filterMap]
  congr 1
  funext item
  cases item <;> rfl

/-- Without its line, an item is what its span is. -/
theorem ofSpans_flat (line : Nat) (spans : List Span) :
    (ofSpans line spans).map (move .flat) = spans.filterMap (ofSpan? 0) := by
  induction spans generalizing line with
  | nil => rfl
  | cons span spans ih =>
    obtain ⟨text, shape⟩ := span
    simp only [ofSpans, List.map_append, ih, List.filterMap_cons, ofSpan?]
    cases shape <;> rfl

end Item

/-- What a source consists of, but for blanks and comments. -/
def Span.visible (source : String) : List Span :=
  (Span.tile source.toList).filter fun span => span.shape != .blank

theorem Item.filterMap_visible (spans : List Span) :
    (spans.filter fun span => span.shape != .blank).filterMap (Item.ofSpan? 0) =
      spans.filterMap (Item.ofSpan? 0) := by
  rw [List.filterMap_filter]
  congr 1
  funext ⟨text, shape⟩
  cases shape <;> rfl

/-- Sources that differ in blanks and comments only have the same tokens and the same lexical
errors, on other lines. -/
theorem scan_flat {source source' : String} (h : Span.visible source = Span.visible source') :
    List.Forall₂ Token.SameText (scan source).1 (scan source').1 ∧
      (scan source).2.map (LexError.move .flat) = (scan source').2.map (LexError.move .flat) := by
  have hitems : (Item.ofSource source).map (Item.move .flat) =
      (Item.ofSource source').map (Item.move .flat) := by
    simp only [Item.ofSource, List.map_append, Item.ofSpans_flat]
    rw [← Item.filterMap_visible, ← Item.filterMap_visible (Span.tile source'.toList)]
    exact congrArg (fun spans => List.filterMap (Item.ofSpan? 0) spans ++ _) h
  constructor
  · rw [← Token.map_move_flat_eq_iff]
    simpa only [scan_eq, ← Item.tokens_map_move] using congrArg Item.tokens hitems
  · simpa only [scan_eq, ← Item.errors_map_move] using congrArg Item.errors hitems

/-! ## Readings -/

theorem Parsed.ofTokens_flat {tokens tokens' : List Token}
    (h : List.Forall₂ Token.SameText tokens tokens') (first : Nat) :
    (ofTokens tokens first).move .flat = (ofTokens tokens' first).move .flat := by
  have hflat := ofTokens_move (d := .flat) rfl tokens first
  rw [Token.map_move_flat_eq_iff.2 h] at hflat
  exact hflat.symm.trans (ofTokens_move rfl tokens' first)

/-- The same is found out about statements that are the same on one line. -/
theorem resolve_flat {statements statements' : List Stmt}
    (h : Stmt.moveAll .flat statements = Stmt.moveAll .flat statements') :
    SameResult (fun distances distances' => ∀ id : Nat, distances[id]? = distances'[id]?)
      ((resolve statements).mapError (List.map (ScopingError.move .flat)))
      ((resolve statements').mapError (List.map (ScopingError.move .flat))) := by
  cases hr : resolve statements with
  | error errors =>
    have hflat := resolve_moveAll_error .flat hr
    cases hr' : resolve statements' with
    | error errors' =>
      have hflat' := resolve_moveAll_error .flat hr'
      rw [← h] at hflat'
      exact Except.error.inj (hflat.symm.trans hflat')
    | ok distances' =>
      obtain ⟨found', hflat', -⟩ := resolve_moveAll .flat hr'
      rw [← h] at hflat'
      exact nomatch hflat.symm.trans hflat'
  | ok distances =>
    obtain ⟨found, hflat, hsame⟩ := resolve_moveAll .flat hr
    cases hr' : resolve statements' with
    | error errors' =>
      have hflat' := resolve_moveAll_error .flat hr'
      rw [← h] at hflat'
      exact nomatch hflat.symm.trans hflat'
    | ok distances' =>
      obtain ⟨found', hflat', hsame'⟩ := resolve_moveAll .flat hr'
      rw [← h] at hflat'
      obtain rfl := Except.ok.inj (hflat.symm.trans hflat')
      exact fun id => (hsame id).symm.trans (hsame' id)

namespace Reading

variable {d : Move}

/-- Moved tokens are read as the tokens themselves, moved. -/
theorem ofTokens_move (hd : d.line 0 = 0) (before : List Diagnostic) (tokens : List Token)
    (first : Nat) :
    ofTokens (before.map (Diagnostic.move d)) (tokens.map (Token.move d)) (first + d.ids) =
      (ofTokens before tokens first).move d := by
  simp only [ofTokens, move, Parsed.ofTokens_move hd, Parsed.move, List.map_append, List.map_map]
  rfl

/-- Tokens in two layouts are read as the same statements with the same faults. -/
theorem ofTokens_flat {before before' : List Diagnostic} {tokens tokens' : List Token}
    (hbefore : before.map (Diagnostic.move .flat) = before'.map (Diagnostic.move .flat))
    (h : List.Forall₂ Token.SameText tokens tokens') (first : Nat) :
    (ofTokens before tokens first).move .flat = (ofTokens before' tokens' first).move .flat := by
  rw [← ofTokens_move rfl, ← ofTokens_move rfl, hbefore, Token.map_move_flat_eq_iff.2 h]

end Reading

end LoxLang
