import LogServer.Text

/-!
# Counters

The monotonic counters of the program, and how a process increments them.
-/

namespace LogServer

inductive Counter where
  | received
  | parsed
  | stored
  | droppedUnknownRouter
  | droppedBackpressure
  | droppedRedisError
  | parserErrors
  | chInsertErrors
  | chInsertBatches
  | bytesReceived
deriving DecidableEq, Repr

/-- The increments a process has made so far, by counter. -/
abbrev Counts := Counter → Nat

def Counts.incr (counts : Counts) (name : Counter) (value : Nat) : Counts :=
  fun c ↦ if c = name then counts c + value else counts c

section incr

variable {counts : Counts} {name c : Counter} {value : Nat}

@[simp] theorem Counts.incr_self : counts.incr name value name = counts name + value :=
  if_pos rfl

@[simp] theorem Counts.incr_of_ne (h : c ≠ name) : counts.incr name value c = counts c :=
  if_neg h

end incr

end LogServer
