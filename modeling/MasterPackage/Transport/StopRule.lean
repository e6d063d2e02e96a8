/-!
# Stop rules

A caller can ask a load to stop: never, from some question on, or whenever its flag
is up.
-/

namespace MasterPackage.Transport

/-- What the caller's answer rests on: its flag, and the number of questions that were
counted. -/
structure Signals where
  flag : Bool
  polls : Nat
  deriving DecidableEq, Repr

/-- When a caller wants a load to stop. -/
inductive StopRule where
  | never
  /-- From the question of this number on, the first having number zero. -/
  | afterPolls (n : Nat)
  /-- While the flag is up. -/
  | whileFlag
  deriving DecidableEq, Repr

/-- Asks whether to stop.  Only a caller that goes by the number of questions counts
them. -/
def StopRule.poll (r : StopRule) (s : Signals) : Bool × Signals :=
  match r with
  | never => (false, s)
  | afterPolls n => (n ≤ s.polls, { s with polls := s.polls + 1 })
  | whileFlag => (s.flag, s)

end MasterPackage.Transport
