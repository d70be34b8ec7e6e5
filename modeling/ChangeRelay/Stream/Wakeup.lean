/-!
# Wake-ups

A signal to the one who waits for it. Given while nobody waits, it is kept for the next to wait;
more than one is never kept.
-/

namespace ChangeRelay

/-- Who waits for a signal. -/
inductive Waiter where
  | nobody
  | waiting
  /-- Has been signalled, but has not gone on yet. -/
  | signalled
deriving DecidableEq, Repr

/-- A signal with at most one waiter. -/
structure Wakeup where
  /-- A signal that nobody has taken. -/
  permit : Bool := false
  waiter : Waiter := .nobody
deriving DecidableEq, Repr

namespace Wakeup

/-- Gives the signal. -/
def notify (w : Wakeup) : Wakeup :=
  match w.waiter with
  | .waiting => { w with waiter := .signalled }
  | _ => { w with permit := true }

/-- Begins to wait; a signal that was kept is taken at once. -/
def await (w : Wakeup) : Wakeup :=
  if w.permit then { permit := false, waiter := .signalled } else { w with waiter := .waiting }

/-- Whether the one who waits may go on. -/
def ready (w : Wakeup) : Bool := w.waiter = .signalled

/-- Goes on after a signal. -/
def take (w : Wakeup) : Wakeup := { w with waiter := .nobody }

/-- Gives up waiting; a signal that came meanwhile is kept. -/
def cancel (w : Wakeup) : Wakeup :=
  { permit := w.permit || w.ready, waiter := .nobody }

end Wakeup

end ChangeRelay
