import LambdaAny.Program

/-!
# Workers

A worker waits for a job's answer, for as long as it is told to.  Time is not measured but counted:
a job takes the time of the function calls it makes, `callsPerMilli` to the millisecond, and the
same job takes the same time on every run.
-/

namespace LambdaAny

/-- What is heard from a job while a worker waits for it. -/
inductive Report (α : Type) where
  | answer (a : α)
  | died
  | silence

/-- A job: what is heard from it, and what it notes in the journal, within a number of milliseconds
or ever. -/
structure Job (α : Type) where
  heard : (limit : Option Nat) → Report α
  events : (limit : Option Nat) → List Event

namespace Job

variable {α : Type}

/-- Whether something that takes `ms` milliseconds comes before the limit. -/
def inTime (ms : Nat) : Option Nat → Bool
  | none => true
  | some limit => ms < limit

/-- A job that answers after some milliseconds. -/
def answering (ms : Nat) (a : α) (events : List Event) : Job α where
  heard limit := if inTime ms limit then .answer a else .silence
  events _ := events

/-- A job that dies at once. -/
def dying : Job α where
  heard limit := if inTime 0 limit then .died else .silence
  events _ := []

/-- How many function calls take a millisecond. -/
def callsPerMilli : Nat := 10000

/-- How many calls a program can make before a limit.  Being started takes the time of one. -/
def allowance (limit : Option Nat) : Option Nat :=
  limit.map fun ms => ms * callsPerMilli - 1

/-- The job of checking a program. -/
def check (source : String) : Job (Except Failure (Expr × Ty)) :=
  answering 0 (Program.check source) (Program.checkEvents source)

/-- The job of running a program. -/
def run (source : String) : Job (Except Failure Outcome) where
  heard limit :=
    if !inTime 0 limit then .silence
    else
      match Program.check source with
      | .error failure => .answer (.error failure)
      | .ok (e, ty) =>
        match allowance limit with
        | none => .answer (Program.outcome ty (e.eval Program.unlimited ∅))
        | some n =>
          match (e.metered Program.unlimited ∅ (.allowing n)).1 with
          | .error .exhausted => .silence
          | result => .answer (Program.outcome ty result)
  events limit := Program.runEvents Program.unlimited (allowance limit) source

end Job

/-- Where jobs are run: how many bytes of stack they get, and how many milliseconds. -/
structure Worker where
  stackSize : Nat
  timeout : Option Nat
deriving DecidableEq, Repr

namespace Worker

variable {α : Type}

/-- Waits for the answer of a job.  One that is silent without a limit has died. -/
def wait (worker : Worker) (job : Job α) : Except Failure α :=
  match job.heard worker.timeout with
  | .answer a => .ok a
  | .died => .error .died
  | .silence =>
    match worker.timeout with
    | some ms => .error (.timeout ms)
    | none => .error .died

/-- Waits for a job whose answer may itself be a failure. -/
def join (worker : Worker) (job : Job (Except Failure α)) : Except Failure α :=
  match worker.wait job with
  | .ok result => result
  | .error failure => .error failure

/-- What is noted while a worker waits. -/
def journal (worker : Worker) (job : Job α) : List Event :=
  job.events worker.timeout ++
    match job.heard worker.timeout, worker.timeout with
    | .silence, some ms => [.overdue ms]
    | _, _ => []

end Worker
end LambdaAny
