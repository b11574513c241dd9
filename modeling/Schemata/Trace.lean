import Schemata.Error

/-!
# Traced computations

A traced computation ends in a value, in an error, or without an answer because its depth budget
ran out, and it leaves the log records it wrote on the way. The log is output only: no step can
read it, so `Traced.outcome` commutes with sequencing and a statement about results never has to
speak about logs.
-/

namespace Schemata

/-- How serious a log record is. -/
inductive LogLevel where
  | trace | debug | info | success | warning | error | critical
  deriving DecidableEq, Inhabited

/-- One line of the log. -/
structure LogRecord where
  /-- How serious the record is. -/
  level : LogLevel
  /-- What happened. -/
  message : String
  deriving DecidableEq, Inhabited

/-- Why a computation gave no value. -/
inductive Failure where
  /-- It failed with an error. -/
  | error (e : Error)
  /-- Its budget of nested steps ran out. -/
  | exhausted

/-- A result together with the log of how it came about. -/
structure Traced (α : Type) where
  /-- The value, or why there is none. -/
  outcome : Except Failure α
  /-- The records written, in order. -/
  log : List LogRecord := []

namespace Traced

variable {α β : Type}

/-- A value without any record. -/
protected def pure (a : α) : Traced α := ⟨.ok a, []⟩

/-- One computation after the other; a failure ends the sequence and keeps the log. -/
protected def bind (x : Traced α) (f : α → Traced β) : Traced β :=
  match x.outcome with
  | .ok a =>
    let y := f a
    ⟨y.outcome, x.log ++ y.log⟩
  | .error e => ⟨.error e, x.log⟩

instance : Monad Traced where
  pure := Traced.pure
  bind := Traced.bind

/-- Fails with an error. -/
def fail (e : Error) : Traced α := ⟨.error (.error e), []⟩

/-- Gives up for want of depth. -/
def exhausted : Traced α := ⟨.error .exhausted, []⟩

/-- Writes one record. -/
def write (level : LogLevel) (message : String) : Traced Unit := ⟨.ok (), [⟨level, message⟩]⟩

/-- Writes a record for developers. -/
def debug (message : String) : Traced Unit := write .debug message

/-- Lifts a computation that writes no records. -/
def ofExcept (x : Except Error α) : Traced α := ⟨x.mapError .error, []⟩

@[simp] theorem outcome_pure (a : α) : (pure a : Traced α).outcome = .ok a := rfl

@[simp] theorem outcome_fail (e : Error) : (fail e : Traced α).outcome = .error (.error e) := rfl

@[simp] theorem outcome_write (l : LogLevel) (m : String) : (write l m).outcome = .ok () := rfl

/-- The outcome of a sequence is the sequence of the outcomes. -/
@[simp] theorem outcome_bind (x : Traced α) (f : α → Traced β) :
    (x >>= f).outcome = x.outcome >>= fun a ↦ (f a).outcome := by
  cases h : x.outcome <;> simp [Bind.bind, Traced.bind, Except.bind, h]

end Traced

end Schemata
