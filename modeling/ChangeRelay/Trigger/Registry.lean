import ChangeRelay.Trigger.Changelog
import ChangeRelay.Trigger.Mirror

/-!
# Trigger kinds

The kinds that every relay knows.
-/

namespace ChangeRelay

namespace Registry

/-- The kinds that every relay knows. -/
def builtins : Registry :=
  Assoc.ofList [("mirror", fun s => (Mirror.ofSpec s).map Mirror.trigger),
    ("changelog", fun s => (Changelog.ofSpec s).map Changelog.trigger)]

/-- The names of the kinds, in order. -/
def kinds (r : Registry) : List String := Assoc.keys r

end Registry

end ChangeRelay
