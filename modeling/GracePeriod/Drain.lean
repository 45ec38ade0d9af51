import GracePeriod.Kind

namespace GracePeriod

/-- Every request takes the next ticket, and a pass serves all tickets taken before it starts. So what
is requested during a pass costs one pass more, however often it is requested. -/
structure Tickets where
  requested : Nat := 0
  completed : Nat := 0
  shutdown : Bool := false
  deriving Inhabited, DecidableEq

namespace Tickets

inductive Duty
  | rest
  | stop
  | serve (ticket : Nat)
  deriving DecidableEq

def request (s : Tickets) : Tickets := { s with requested := s.requested + 1 }

def complete (s : Tickets) (ticket : Nat) : Tickets := { s with completed := ticket }

def close (s : Tickets) : Tickets := { s with shutdown := true }

def duty (s : Tickets) : Duty :=
  if s.requested = s.completed then if s.shutdown then .stop else .rest
  else .serve s.requested

def covers (s : Tickets) (ticket : Nat) : Bool := ticket ≤ s.completed

end Tickets

inductive Work
  | callbacks (engine : Nat) (k : Kind)
  | scripted (passes : List String)
  deriving Inhabited

structure Drain where
  work : Work := .scripted []
  thread : Nat := 0
  tickets : Tickets := {}
  /-- Threads that wait for news, longest first. -/
  waiters : List Nat := []
  /-- How many passes have started. -/
  passes : Nat := 0
  /-- How many handles keep a bare task alive. -/
  holders : Nat := 0
  deriving Inhabited

end GracePeriod
