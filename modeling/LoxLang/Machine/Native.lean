import LoxLang.Value

/-!
# Functions of the host

A host tells the time, and can offer functions to programs. All but the clock depend on their
arguments alone: functions that keep a state of their own, or that read or write the fields of
objects among their arguments, are left out.
-/

namespace LoxLang

/-- What a host tells of the time: the readings of its clock one after another, in microseconds
since the beginning of 1970. They need not go up. -/
structure Clock where
  reading : Nat → Int

namespace Clock

/-- The next reading. -/
def now (c : Clock) : Int :=
  c.reading 0

/-- The clock behind its next reading. -/
def later (c : Clock) : Clock :=
  ⟨fun n => c.reading (n + 1)⟩

/-- A clock that stands still. -/
def still (micros : Int) : Clock :=
  ⟨fun _ => micros⟩

/-- A numeral stands for the clock that stands still at it. -/
instance (micros : Nat) : OfNat Clock micros :=
  ⟨still micros⟩

end Clock

/-- What a host function does. -/
inductive NativeBody (σ : Type := Scope) where
  /-- Tells the time. -/
  | clock
  /-- Computes a value, or refuses with a message. -/
  | host (run : List (Value σ) → Except String (Value σ))

/-- A host function and how many arguments it takes. -/
structure Native (σ : Type := Scope) where
  arity : Nat
  body : NativeBody σ

end LoxLang
