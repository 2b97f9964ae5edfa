import LoxLang.Proofs.Renaming.Texts
import LoxLang.Proofs.Written.Numerals
import LoxLang.Proofs.Written.Trees

/-!
# Legible trees

The head of a form and the number of its items say which construct it is: a unary minus has one
operand and a binary minus two, an assignment begins with a word where a property set begins with a
form. So two trees with one form are the same construct, and have parts with one form each.

This needs the tokens of a tree to be what they stand for, its operators operators and its names
identifiers, and no constant to be a string or an infinity. For a string prints without its quotes
and may be spelled like anything, and an infinity prints like a name.

1. `Expr.sound_form`, `Stmt.sound_form`: no word of the form of a legible tree is broken.
2. `Expr.agrees_of_form_eq`, `Stmt.agrees_of_form_eq`: the form determines a legible tree.
-/

namespace LoxLang

/-- The binary operators. -/
def Mark.binary : List Mark :=
  [.bangEqual, .equalEqual, .greater, .greaterEqual, .less, .lessEqual, .minus, .plus, .slash,
    .star]

namespace Token

/-- One of these marks, spelled as it is. -/
def IsMark (marks : List Mark) (t : Token) : Prop :=
  ∃ m ∈ marks, t.kind = .mark m ∧ t.lexeme = m.text

/-- One of these reserved words, spelled as it is. -/
def IsWord (words : List Keyword) (t : Token) : Prop :=
  ∃ k ∈ words, t.kind = .keyword k ∧ t.lexeme = k.text

/-- A name, spelled as one. -/
def IsIdent (t : Token) : Prop :=
  t.kind = .identifier ∧ IsIdentifier t.lexeme

variable {t t' : Token}

theorem IsMark.sameText {marks : List Mark} (h : t.IsMark marks) (h' : t'.IsMark marks)
    (hlexeme : t.lexeme = t'.lexeme) : t.SameText t' := by
  obtain ⟨m, -, hkind, htext⟩ := h
  obtain ⟨m', -, hkind', htext'⟩ := h'
  have hfound := Mark.ofText?_text m
  rw [← htext, hlexeme, htext', Mark.ofText?_text] at hfound
  obtain rfl := Option.some.inj hfound
  exact ⟨hkind.trans hkind'.symm, hlexeme⟩

theorem IsWord.sameText {words : List Keyword} (h : t.IsWord words) (h' : t'.IsWord words)
    (hlexeme : t.lexeme = t'.lexeme) : t.SameText t' := by
  obtain ⟨k, -, hkind, htext⟩ := h
  obtain ⟨k', -, hkind', htext'⟩ := h'
  have hfound := Keyword.ofText?_text k
  rw [← htext, hlexeme, htext', Keyword.ofText?_text] at hfound
  obtain rfl := Option.some.inj hfound
  exact ⟨hkind.trans hkind'.symm, hlexeme⟩

theorem IsMark.lexeme_eq {m : Mark} (h : t.IsMark [m]) : t.lexeme = m.text := by
  obtain ⟨_, hm, -, htext⟩ := h
  obtain rfl := List.mem_singleton.1 hm
  exact htext

theorem IsWord.lexeme_eq {k : Keyword} (h : t.IsWord [k]) : t.lexeme = k.text := by
  obtain ⟨_, hk, -, htext⟩ := h
  obtain rfl := List.mem_singleton.1 hk
  exact htext

theorem IsMark.sameText_single {m : Mark} (h : t.IsMark [m]) (h' : t'.IsMark [m]) :
    t.SameText t' :=
  h.sameText h' (h.lexeme_eq.trans h'.lexeme_eq.symm)

theorem IsWord.sameText_single {k : Keyword} (h : t.IsWord [k]) (h' : t'.IsWord [k]) :
    t.SameText t' :=
  h.sameText h' (h.lexeme_eq.trans h'.lexeme_eq.symm)

theorem IsIdent.sameText (h : t.IsIdent) (h' : t'.IsIdent) (hlexeme : t.lexeme = t'.lexeme) :
    t.SameText t' :=
  ⟨h.1.trans h'.1.symm, hlexeme⟩

end Token

/-- A constant is no string, and a number is finite. -/
def Literal.Legible : Literal → Prop
  | .number value => ∃ negative coefficient exponent,
      Binary64.ofFloat value = .finite negative coefficient exponent
  | .string _ => False
  | _ => True

mutual

/-- The tokens of an expression are what their places ask for, and its constants are legible. -/
def Expr.Legible : Expr → Prop
  | .literal value => value.Legible
  | .grouping inner => inner.Legible
  | .unary operator operand => operator.IsMark [.bang, .minus] ∧ operand.Legible
  | .binary left operator right =>
    left.Legible ∧ operator.IsMark Mark.binary ∧ right.Legible
  | .logical left operator right =>
    left.Legible ∧ operator.IsWord [.orWord, .andWord] ∧ right.Legible
  | .var name => name.token.IsIdent
  | .assign target value => target.token.IsIdent ∧ value.Legible
  | .call callee close arguments =>
    callee.Legible ∧ close.IsMark [.rightParen] ∧ Expr.AllLegible arguments
  | .get object name => object.Legible ∧ name.IsIdent
  | .set object name value => object.Legible ∧ name.IsIdent ∧ value.Legible
  | .this keyword => keyword.token.IsWord [.thisWord]
  | .super keyword method => keyword.token.IsWord [.superWord] ∧ method.IsIdent

def Expr.AllLegible : List Expr → Prop
  | [] => True
  | e :: rest => e.Legible ∧ Expr.AllLegible rest

end

mutual

/-- The tokens of a statement are what their places ask for, and its constants are legible. -/
def Stmt.Legible : Stmt → Prop
  | .expression value => value.Legible
  | .print value => value.Legible
  | .varDecl name initializer => name.IsIdent ∧ ∀ e ∈ initializer, e.Legible
  | .block body => Stmt.AllLegible body
  | .ifThen condition thenBranch => condition.Legible ∧ thenBranch.Legible
  | .ifElse condition thenBranch elseBranch =>
    condition.Legible ∧ thenBranch.Legible ∧ elseBranch.Legible
  | .whileDo condition body => condition.Legible ∧ body.Legible
  | .funDecl decl => decl.Legible
  | .ret keyword value => keyword.IsWord [.returnWord] ∧ ∀ e ∈ value, e.Legible
  | .classDecl name superclass methods =>
    name.IsIdent ∧ (∀ o ∈ superclass, o.token.IsIdent) ∧ FunctionDecl.AllLegible methods

def FunctionDecl.Legible : FunctionDecl → Prop
  | ⟨name, params, body⟩ =>
    name.IsIdent ∧ (∀ p ∈ params, p.IsIdent) ∧ Stmt.AllLegible body

def Stmt.AllLegible : List Stmt → Prop
  | [] => True
  | s :: rest => s.Legible ∧ Stmt.AllLegible rest

def FunctionDecl.AllLegible : List FunctionDecl → Prop
  | [] => True
  | m :: rest => m.Legible ∧ FunctionDecl.AllLegible rest

end

/-! ## Sound forms -/

theorem IsNumeral.unbroken {s : String} (h : IsNumeral s.toList) : Unbroken s where
  ne_nil := h.ne_nil
  inside c hc := by
    have hnumeral := h.inside c hc
    simp only [endsWord, Bool.or_eq_false_iff, beq_eq_false_iff_ne, and_assoc]
    refine ⟨?_, ?_, ?_⟩ <;> (rintro rfl; exact absurd hnumeral (by decide))

theorem IsIdentifier.unbroken {s : String} (h : IsIdentifier s) : Unbroken s := by
  obtain ⟨c, rest, htext, hc, hrest⟩ := Span.letter_of_isIdentifier h
  refine ⟨by simp [htext], fun d hd => ?_⟩
  have hword : Lexical.isWordChar d := by
    rcases List.mem_cons.1 (htext ▸ hd) with rfl | hd
    · exact Span.isWordChar_of_isLetter hc
    · exact hrest d hd
  simp only [endsWord, Bool.or_eq_false_iff, beq_eq_false_iff_ne, and_assoc]
  refine ⟨?_, ?_, ?_⟩ <;> (rintro rfl; exact absurd hword (by decide))

theorem Mark.unbroken {m : Mark} (h : m ≠ .leftParen) (h' : m ≠ .rightParen) :
    Unbroken m.text := by
  cases m <;> first | exact absurd rfl h | exact absurd rfl h' | decide

theorem Keyword.unbroken (k : Keyword) : Unbroken k.text := by
  cases k <;> decide

theorem Literal.isNumeral_text {x : Float} (h : (number x).Legible) :
    IsNumeral (number x).text.toList := by
  obtain ⟨negative, coefficient, exponent, hvalue⟩ := h
  have hnumeral := NumberStyle.isNumeral_inTree negative coefficient exponent
  rwa [← hvalue] at hnumeral

theorem Literal.unbroken {v : Literal} (h : v.Legible) : Unbroken v.text := by
  cases v with
  | nil => decide
  | boolean value => cases value <;> decide
  | number value => exact (isNumeral_text h).unbroken
  | string contents => exact h.elim

theorem Token.IsMark.unbroken {marks : List Mark} {t : Token} (h : t.IsMark marks)
    (hleft : .leftParen ∉ marks) (hright : .rightParen ∉ marks) : Unbroken t.lexeme := by
  obtain ⟨m, hm, -, htext⟩ := h
  rw [htext]
  exact m.unbroken (ne_of_mem_of_not_mem hm hleft) (ne_of_mem_of_not_mem hm hright)

theorem Token.IsWord.unbroken {words : List Keyword} {t : Token} (h : t.IsWord words) :
    Unbroken t.lexeme := by
  obtain ⟨k, -, -, htext⟩ := h
  rw [htext]
  exact k.unbroken

mutual

theorem Expr.sound_form : ∀ {e : Expr}, e.Legible → e.form.Sound
  | .literal _, h => Literal.unbroken h
  | .grouping _, h => ⟨by decide, Expr.sound_form h, trivial⟩
  | .unary _ _, h => ⟨h.1.unbroken (by decide) (by decide), Expr.sound_form h.2, trivial⟩
  | .binary _ _ _, h =>
    ⟨h.2.1.unbroken (by decide) (by decide), Expr.sound_form h.1, Expr.sound_form h.2.2, trivial⟩
  | .logical _ _ _, h =>
    ⟨h.2.1.unbroken, Expr.sound_form h.1, Expr.sound_form h.2.2, trivial⟩
  | .var _, h => h.2.unbroken
  | .assign _ _, h => ⟨by decide, h.1.2.unbroken, Expr.sound_form h.2, trivial⟩
  | .call _ _ _, h => ⟨by decide, Expr.sound_form h.1, Expr.sound_forms h.2.2⟩
  | .get _ _, h => ⟨by decide, Expr.sound_form h.1, h.2.2.unbroken, trivial⟩
  | .set _ _ _, h =>
    ⟨by decide,
      ⟨by decide, Expr.sound_form h.1, h.2.1.2.unbroken, trivial⟩,
      Expr.sound_form h.2.2, trivial⟩
  | .this _, _ => Keyword.unbroken .thisWord
  | .super _ _, h => ⟨Keyword.unbroken .superWord, h.2.2.unbroken, trivial⟩

theorem Expr.sound_forms : ∀ {es : List Expr}, Expr.AllLegible es → Form.AllSound (Expr.forms es)
  | [], _ => trivial
  | _ :: _, h => ⟨Expr.sound_form h.1, Expr.sound_forms h.2⟩

end

theorem Expr.sound_option {o : Option Expr} (h : ∀ e ∈ o, e.Legible) :
    Form.AllSound (o.map Expr.form).toList := by
  cases o with
  | none => trivial
  | some e => exact ⟨Expr.sound_form (h e rfl), trivial⟩

mutual

theorem Stmt.sound_form : ∀ {s : Stmt}, s.Legible → s.form.Sound
  | .expression _, h => ⟨by decide, Expr.sound_form h, trivial⟩
  | .print _, h => ⟨Keyword.unbroken .printWord, Expr.sound_form h, trivial⟩
  | .varDecl _ _, h => ⟨Keyword.unbroken .varWord, h.1.2.unbroken, Expr.sound_option h.2⟩
  | .block _, h => ⟨by decide, Stmt.sound_forms h⟩
  | .ifThen _ _, h =>
    ⟨Keyword.unbroken .ifWord, Expr.sound_form h.1, Stmt.sound_form h.2, trivial⟩
  | .ifElse _ _ _, h =>
    ⟨Keyword.unbroken .ifWord, Expr.sound_form h.1, Stmt.sound_form h.2.1,
      Stmt.sound_form h.2.2, trivial⟩
  | .whileDo _ _, h =>
    ⟨Keyword.unbroken .whileWord, Expr.sound_form h.1, Stmt.sound_form h.2, trivial⟩
  | .funDecl _, h => FunctionDecl.sound_form (Keyword.unbroken .funWord) h
  | .ret _ _, h => ⟨Keyword.unbroken .returnWord, Expr.sound_option h.2⟩
  | .classDecl _ (some parent) _, h => by
    have hparent := (h.2.1 parent rfl).2.unbroken
    exact ⟨Keyword.unbroken .classWord, h.1.2.unbroken, (by decide : Unbroken "<"), hparent,
      FunctionDecl.sound_forms h.2.2⟩
  | .classDecl _ none _, h =>
    ⟨Keyword.unbroken .classWord, h.1.2.unbroken, FunctionDecl.sound_forms h.2.2⟩

theorem FunctionDecl.sound_form {role : String} (hrole : Unbroken role) :
    ∀ {m : FunctionDecl}, m.Legible → (m.form role).Sound
  | ⟨_, _, _⟩, h => by
    have hparams : ∀ p ∈ List.map Token.lexeme _, Unbroken p :=
      List.forall_mem_map.2 fun p hp => (h.2.1 p hp).2.unbroken
    exact ⟨hrole, ⟨h.1.2.unbroken, hparams⟩, Stmt.sound_forms h.2.2⟩

theorem Stmt.sound_forms : ∀ {ss : List Stmt}, Stmt.AllLegible ss → Form.AllSound (Stmt.forms ss)
  | [], _ => trivial
  | _ :: _, h => ⟨Stmt.sound_form h.1, Stmt.sound_forms h.2⟩

theorem FunctionDecl.sound_forms : ∀ {ms : List FunctionDecl}, FunctionDecl.AllLegible ms →
    Form.AllSound (FunctionDecl.forms ms)
  | [], _ => trivial
  | _ :: _, h =>
    ⟨FunctionDecl.sound_form (by decide) h.1, FunctionDecl.sound_forms h.2⟩

end

/-! ## The construct of a form -/

/-- What an expression is, whatever it is made of. -/
inductive Expr.Construct where
  | literal | grouping | unary | binary | logical | var | assign | call | get | set | this | super

def Expr.construct : Expr → Construct
  | .literal _ => .literal
  | .grouping _ => .grouping
  | .unary _ _ => .unary
  | .binary _ _ _ => .binary
  | .logical _ _ _ => .logical
  | .var _ => .var
  | .assign _ _ => .assign
  | .call _ _ _ => .call
  | .get _ _ => .get
  | .set _ _ _ => .set
  | .this _ => .this
  | .super _ _ => .super

/-- The expression that a word is. -/
def Form.wordConstruct (text : String) : Expr.Construct :=
  if text.toList.all isNumeral then .literal
  else match Keyword.ofText? text with
    | some .thisWord => .this
    | some _ => .literal
    | none => .var

/-- The expression that has this form. -/
def Form.construct : Form → Expr.Construct
  | word text => wordConstruct text
  | signature _ _ => .var
  | list "group" _ => .grouping
  | list "call" _ => .call
  | list "." _ => .get
  | list "super" _ => .super
  | list "or" _ => .logical
  | list "and" _ => .logical
  | list "=" (list _ _ :: _) => .set
  | list "=" _ => .assign
  | list _ [_] => .unary
  | list _ _ => .binary

theorem Literal.wordConstruct {v : Literal} (h : v.Legible) :
    Form.wordConstruct v.text = .literal := by
  cases v with
  | nil => rfl
  | boolean value => cases value <;> rfl
  | number value => exact if_pos (List.all_eq_true.2 (isNumeral_text h).inside)
  | string contents => exact h.elim

theorem IsIdentifier.wordConstruct {s : String} (h : IsIdentifier s) :
    Form.wordConstruct s = .var := by
  obtain ⟨c, rest, htext, hc, -⟩ := Span.letter_of_isIdentifier h
  have hletter : isNumeral c = false := by
    simp only [isNumeral, Bool.or_eq_false_iff, beq_eq_false_iff_ne, and_assoc]
    refine ⟨Span.not_isDigit_of_isLetter hc, ?_, ?_⟩ <;>
      (rintro rfl; exact absurd hc (by decide))
  have hname : Keyword.ofText? s = none := h.isName
  simp [Form.wordConstruct, htext, hletter, hname]

theorem Expr.construct_form : ∀ {e : Expr}, e.Legible → e.form.construct = e.construct
  | .literal _, h => Literal.wordConstruct h
  | .grouping _, _ => rfl
  | .unary t _, h => by
    obtain ⟨m, hm, -, htext⟩ := h.1
    simp only [Expr.form, htext]
    simp only [List.mem_cons, List.not_mem_nil, or_false] at hm
    rcases hm with rfl | rfl <;> rfl
  | .binary _ t _, h => by
    obtain ⟨m, hm, -, htext⟩ := h.2.1
    simp only [Expr.form, htext]
    simp only [Mark.binary, List.mem_cons, List.not_mem_nil, or_false] at hm
    rcases hm with rfl | rfl | rfl | rfl | rfl | rfl | rfl | rfl | rfl | rfl <;> rfl
  | .logical _ t _, h => by
    obtain ⟨k, hk, -, htext⟩ := h.2.1
    simp only [Expr.form, htext]
    simp only [List.mem_cons, List.not_mem_nil, or_false] at hk
    rcases hk with rfl | rfl <;> rfl
  | .var _, h => h.2.wordConstruct
  | .assign _ _, _ => rfl
  | .call _ _ _, _ => rfl
  | .get _ _, _ => rfl
  | .set _ _ _, _ => rfl
  | .this _, _ => rfl
  | .super _ _, _ => rfl

/-! ## Trees with one form -/

theorem Literal.text_number_ne {x : Float} (h : (number x).Legible) {s : String}
    (hs : s.toList.all isNumeral = false) : (number x).text ≠ s := by
  rintro rfl
  rw [List.all_eq_true.2 (isNumeral_text h).inside] at hs
  exact Bool.noConfusion hs

/-- Of constants with one text, both are the same, or both are numbers. -/
theorem Literal.agrees_of_text_eq {v v' : Literal} (h : v.Legible) (h' : v'.Legible)
    (heq : v.text = v'.text) : v.Agrees v' := by
  cases v with
  | nil =>
    cases v' with
    | nil => exact .same _
    | boolean b => cases b <;> exact absurd heq (by decide)
    | number x => exact absurd heq.symm (text_number_ne h' (by decide))
    | string contents => exact h'.elim
  | boolean b =>
    cases v' with
    | nil => cases b <;> exact absurd heq (by decide)
    | boolean b' => cases b <;> cases b' <;> first | exact .same _ | exact absurd heq (by decide)
    | number x => cases b <;> exact absurd heq.symm (text_number_ne h' (by decide))
    | string contents => exact h'.elim
  | number x =>
    cases v' with
    | nil => exact absurd heq (text_number_ne h (by decide))
    | boolean b => cases b <;> exact absurd heq (text_number_ne h (by decide))
    | number y => exact .numbers heq
    | string contents => exact h'.elim
  | string contents => exact h.elim

mutual

theorem Expr.agrees_of_form_eq : ∀ {e e' : Expr}, e.Legible → e'.Legible → e.form = e'.form →
    e.Agrees e' := by
  intro e e' h h' heq
  -- The other expression is the same construct, and so all but one case of it is out.
  have hsame : e.construct = e'.construct := by
    rw [← Expr.construct_form h, heq, Expr.construct_form h']
  cases e with
  | literal v =>
    cases e' with
    | literal v' =>
      injection heq with htext
      exact .literal (Literal.agrees_of_text_eq h h' htext)
    | _ => exact nomatch hsame
  | grouping e =>
    cases e' with
    | grouping e' =>
      injection heq with _ hitems
      injection hitems with he
      exact .grouping (Expr.agrees_of_form_eq h h' he)
    | _ => exact nomatch hsame
  | unary t e =>
    cases e' with
    | unary t' e' =>
      injection heq with ht hitems
      injection hitems with he
      exact .unary (h.1.sameText h'.1 ht) (Expr.agrees_of_form_eq h.2 h'.2 he)
    | _ => exact nomatch hsame
  | binary l t r =>
    cases e' with
    | binary l' t' r' =>
      injection heq with ht hitems
      injection hitems with hl hitems
      injection hitems with hr
      exact .binary (Expr.agrees_of_form_eq h.1 h'.1 hl) (h.2.1.sameText h'.2.1 ht)
        (Expr.agrees_of_form_eq h.2.2 h'.2.2 hr)
    | _ => exact nomatch hsame
  | logical l t r =>
    cases e' with
    | logical l' t' r' =>
      injection heq with ht hitems
      injection hitems with hl hitems
      injection hitems with hr
      exact .logical (Expr.agrees_of_form_eq h.1 h'.1 hl) (h.2.1.sameText h'.2.1 ht)
        (Expr.agrees_of_form_eq h.2.2 h'.2.2 hr)
    | _ => exact nomatch hsame
  | var o =>
    cases e' with
    | var o' =>
      injection heq with ho
      exact .var (h.sameText h' ho)
    | _ => exact nomatch hsame
  | assign o e =>
    cases e' with
    | assign o' e' =>
      injection heq with _ hitems
      injection hitems with ho hitems
      injection ho with ho
      injection hitems with he
      exact .assign (h.1.sameText h'.1 ho) (Expr.agrees_of_form_eq h.2 h'.2 he)
    | _ => exact nomatch hsame
  | call e t es =>
    cases e' with
    | call e' t' es' =>
      injection heq with _ hitems
      injection hitems with he hes
      exact .call (Expr.agrees_of_form_eq h.1 h'.1 he) (h.2.1.sameText_single h'.2.1)
        (Expr.allAgree_of_forms_eq h.2.2 h'.2.2 hes)
    | _ => exact nomatch hsame
  | get e t =>
    cases e' with
    | get e' t' =>
      injection heq with _ hitems
      injection hitems with he hitems
      injection hitems with ht
      injection ht with ht
      exact .get (Expr.agrees_of_form_eq h.1 h'.1 he) (h.2.sameText h'.2 ht)
    | _ => exact nomatch hsame
  | set e t v =>
    cases e' with
    | set e' t' v' =>
      injection heq with _ hitems
      injection hitems with htarget hitems
      injection hitems with hv
      injection htarget with _ hitems
      injection hitems with he hitems
      injection hitems with ht
      injection ht with ht
      exact .set (Expr.agrees_of_form_eq h.1 h'.1 he) (h.2.1.sameText h'.2.1 ht)
        (Expr.agrees_of_form_eq h.2.2 h'.2.2 hv)
    | _ => exact nomatch hsame
  | this o =>
    cases e' with
    | this o' => exact .this (h.sameText_single h')
    | _ => exact nomatch hsame
  | super o t =>
    cases e' with
    | super o' t' =>
      injection heq with _ hitems
      injection hitems with ht
      injection ht with ht
      exact .super (h.1.sameText_single h'.1) (h.2.sameText h'.2 ht)
    | _ => exact nomatch hsame

theorem Expr.allAgree_of_forms_eq : ∀ {es es' : List Expr}, Expr.AllLegible es →
    Expr.AllLegible es' → Expr.forms es = Expr.forms es' → Expr.AllAgree es es'
  | [], [], _, _, _ => .nil
  | e :: es, e' :: es', h, h', heq => by
    injection heq with hform hforms
    exact .cons (Expr.agrees_of_form_eq h.1 h'.1 hform)
      (Expr.allAgree_of_forms_eq h.2 h'.2 hforms)

end

theorem Expr.optionAgrees_of_forms_eq {o o' : Option Expr} (h : ∀ e ∈ o, e.Legible)
    (h' : ∀ e ∈ o', e.Legible)
    (heq : (o.map Expr.form).toList = (o'.map Expr.form).toList) : Expr.OptionAgrees o o' := by
  cases o with
  | none =>
    cases o' with
    | none => exact .none
    | some e' => exact nomatch heq
  | some e =>
    cases o' with
    | none => exact nomatch heq
    | some e' =>
      injection heq with he
      exact .some (Expr.agrees_of_form_eq (h e rfl) (h' e' rfl) he)

theorem Token.sameText_of_lexemes_eq {ts ts' : List Token} (h : ∀ t ∈ ts, t.IsIdent)
    (h' : ∀ t ∈ ts', t.IsIdent) (heq : ts.map lexeme = ts'.map lexeme) :
    List.Forall₂ SameText ts ts' := by
  induction ts generalizing ts' with
  | nil =>
    rw [List.map_eq_nil_iff.1 heq.symm]
    exact .nil
  | cons t ts ih =>
    cases ts' with
    | nil => exact nomatch heq
    | cons t' ts' =>
      injection heq with ht hts
      obtain ⟨h₁, h₂⟩ := List.forall_mem_cons.1 h
      obtain ⟨h₁', h₂'⟩ := List.forall_mem_cons.1 h'
      exact .cons (h₁.sameText h₁' ht) (ih h₂ h₂' hts)

/-- What a statement is, whatever it is made of. -/
inductive Stmt.Construct where
  | expression | print | varDecl | block | ifThen | ifElse | whileDo | funDecl | ret | classDecl

def Stmt.construct : Stmt → Construct
  | .expression _ => .expression
  | .print _ => .print
  | .varDecl _ _ => .varDecl
  | .block _ => .block
  | .ifThen _ _ => .ifThen
  | .ifElse _ _ _ => .ifElse
  | .whileDo _ _ => .whileDo
  | .funDecl _ => .funDecl
  | .ret _ _ => .ret
  | .classDecl _ _ _ => .classDecl

/-- The statement that has this form. -/
def Form.stmtConstruct : Form → Stmt.Construct
  | list ";" _ => .expression
  | list "print" _ => .print
  | list "var" _ => .varDecl
  | list "if" [_, _] => .ifThen
  | list "if" _ => .ifElse
  | list "while" _ => .whileDo
  | list "fun" _ => .funDecl
  | list "return" _ => .ret
  | list "class" _ => .classDecl
  | _ => .block

theorem Stmt.construct_form (s : Stmt) : s.form.stmtConstruct = s.construct := by
  cases s with
  | funDecl decl => cases decl; rfl
  | _ => rfl

/-- Where the methods of a class begin, no word stands. -/
theorem FunctionDecl.forms_ne_word (ms : List FunctionDecl) (w : String) (items : List Form) :
    FunctionDecl.forms ms ≠ .word w :: items := by
  cases ms with
  | nil => exact nofun
  | cons m ms => cases m; exact nofun

mutual

theorem Stmt.agrees_of_form_eq : ∀ {s s' : Stmt}, s.Legible → s'.Legible → s.form = s'.form →
    s.Agrees s' := by
  intro s s' h h' heq
  have hsame : s.construct = s'.construct := by
    rw [← Stmt.construct_form s, heq, Stmt.construct_form s']
  cases s with
  | expression e =>
    cases s' with
    | expression e' =>
      injection heq with _ hitems
      injection hitems with he
      exact .expression (Expr.agrees_of_form_eq h h' he)
    | _ => exact nomatch hsame
  | print e =>
    cases s' with
    | print e' =>
      injection heq with _ hitems
      injection hitems with he
      exact .print (Expr.agrees_of_form_eq h h' he)
    | _ => exact nomatch hsame
  | varDecl t o =>
    cases s' with
    | varDecl t' o' =>
      injection heq with _ hitems
      injection hitems with ht ho
      injection ht with ht
      exact .varDecl (h.1.sameText h'.1 ht) (Expr.optionAgrees_of_forms_eq h.2 h'.2 ho)
    | _ => exact nomatch hsame
  | block body =>
    cases s' with
    | block body' =>
      injection heq with _ hbody
      exact .block (Stmt.allAgree_of_forms_eq h h' hbody)
    | _ => exact nomatch hsame
  | ifThen e s =>
    cases s' with
    | ifThen e' s' =>
      injection heq with _ hitems
      injection hitems with he hitems
      injection hitems with hs
      exact .ifThen (Expr.agrees_of_form_eq h.1 h'.1 he) (Stmt.agrees_of_form_eq h.2 h'.2 hs)
    | _ => exact nomatch hsame
  | ifElse e s r =>
    cases s' with
    | ifElse e' s' r' =>
      injection heq with _ hitems
      injection hitems with he hitems
      injection hitems with hs hitems
      injection hitems with hr
      exact .ifElse (Expr.agrees_of_form_eq h.1 h'.1 he)
        (Stmt.agrees_of_form_eq h.2.1 h'.2.1 hs) (Stmt.agrees_of_form_eq h.2.2 h'.2.2 hr)
    | _ => exact nomatch hsame
  | whileDo e s =>
    cases s' with
    | whileDo e' s' =>
      injection heq with _ hitems
      injection hitems with he hitems
      injection hitems with hs
      exact .whileDo (Expr.agrees_of_form_eq h.1 h'.1 he) (Stmt.agrees_of_form_eq h.2 h'.2 hs)
    | _ => exact nomatch hsame
  | funDecl m =>
    cases s' with
    | funDecl m' => exact .funDecl (FunctionDecl.agrees_of_form_eq h h' heq)
    | _ => exact nomatch hsame
  | ret t o =>
    cases s' with
    | ret t' o' =>
      injection heq with _ ho
      exact .ret (h.1.sameText_single h'.1) (Expr.optionAgrees_of_forms_eq h.2 h'.2 ho)
    | _ => exact nomatch hsame
  | classDecl t o ms =>
    cases s' with
    | classDecl t' o' ms' =>
      injection heq with _ hitems
      injection hitems with ht hitems
      injection ht with ht
      have hname := h.1.sameText h'.1 ht
      cases o with
      | none =>
        cases o' with
        | none =>
          exact .classDecl hname .none
            (FunctionDecl.allAgree_of_forms_eq h.2.2 h'.2.2 hitems)
        | some o' => exact absurd hitems (FunctionDecl.forms_ne_word ms _ _)
      | some o =>
        cases o' with
        | none => exact absurd hitems.symm (FunctionDecl.forms_ne_word ms' _ _)
        | some o' =>
          injection hitems with _ hitems
          injection hitems with ho hms
          injection ho with ho
          exact .classDecl hname (.some ((h.2.1 o rfl).sameText (h'.2.1 o' rfl) ho))
            (FunctionDecl.allAgree_of_forms_eq h.2.2 h'.2.2 hms)
    | _ => exact nomatch hsame

theorem FunctionDecl.agrees_of_form_eq {role : String} : ∀ {m m' : FunctionDecl}, m.Legible →
    m'.Legible → m.form role = m'.form role → m.Agrees m'
  | ⟨_, _, _⟩, ⟨_, _, _⟩, h, h', heq => by
    injection heq with _ hitems
    injection hitems with hsignature hbody
    injection hsignature with hname hparams
    exact .mk (h.1.sameText h'.1 hname) (Token.sameText_of_lexemes_eq h.2.1 h'.2.1 hparams)
      (Stmt.allAgree_of_forms_eq h.2.2 h'.2.2 hbody)

theorem Stmt.allAgree_of_forms_eq : ∀ {ss ss' : List Stmt}, Stmt.AllLegible ss →
    Stmt.AllLegible ss' → Stmt.forms ss = Stmt.forms ss' → Stmt.AllAgree ss ss'
  | [], [], _, _, _ => .nil
  | _ :: _, _ :: _, h, h', heq => by
    injection heq with hs hss
    exact .cons (Stmt.agrees_of_form_eq h.1 h'.1 hs) (Stmt.allAgree_of_forms_eq h.2 h'.2 hss)

theorem FunctionDecl.allAgree_of_forms_eq : ∀ {ms ms' : List FunctionDecl},
    FunctionDecl.AllLegible ms → FunctionDecl.AllLegible ms' →
      FunctionDecl.forms ms = FunctionDecl.forms ms' → FunctionDecl.AllAgree ms ms'
  | [], [], _, _, _ => .nil
  | _ :: _, _ :: _, h, h', heq => by
    injection heq with hm hms
    exact .cons (FunctionDecl.agrees_of_form_eq h.1 h'.1 hm)
      (FunctionDecl.allAgree_of_forms_eq h.2 h'.2 hms)

end

/-- Legible statements with one text agree. -/
theorem Stmt.agrees_of_text_eq {s s' : Stmt} (h : s.Legible) (h' : s'.Legible)
    (heq : s.text = s'.text) : s.Agrees s' := by
  rw [← s.text_form, ← s'.text_form] at heq
  exact Stmt.agrees_of_form_eq h h'
    (Form.eq_of_text_eq (Stmt.sound_form h) (Stmt.sound_form h') heq)

end LoxLang
