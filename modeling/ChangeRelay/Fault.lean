/-!
# Faults

What can go wrong, layer by layer: in the destination store, in the change feed, and in a stream
that ties the two together. Faults of the two lower layers convert into stream faults, and the
class of a stream fault decides how its consumer reacts.
-/

namespace ChangeRelay

/-- Faults of the destination store. -/
inductive StoreFault where
  /-- Unreachable, busy or timed out; nothing was applied. -/
  | unavailable (operation message : String)
  /-- A condition of a batch did not hold; nothing was applied. -/
  | conflict (bucket key : String)
  /-- A stored record cannot be decoded. -/
  | corrupt (bucket key message : String)
deriving DecidableEq, Repr

namespace StoreFault

def message : StoreFault → String
  | .unavailable op m => s!"store unavailable ({op}): {m}"
  | .conflict b k => s!"precondition failed for {b}/{k}"
  | .corrupt b k m => s!"corrupt record {b}/{k}: {m}"

/-- Whether trying again later might succeed. -/
def isTransient : StoreFault → Bool
  | .unavailable _ _ => true
  | _ => false

end StoreFault

/-- Faults of the change feed. -/
inductive FeedFault where
  /-- Connection lost, timed out or refused. -/
  | unavailable (operation message : String)
  /-- An entry of the change log is no valid change. -/
  | malformed (seq : Option UInt64) (reason : String)
  | invalidQuery (text : String)
  /-- The changes right after the requested position are gone. -/
  | gap (requested oldest : UInt64)
deriving DecidableEq, Repr

/-- An optional word as messages show it. -/
def showOptional : Option UInt64 → String
  | none => "None"
  | some n => s!"Some({n})"

namespace FeedFault

def message : FeedFault → String
  | .unavailable op m => s!"source unavailable ({op}): {m}"
  | .malformed seq r => s!"malformed change at seq {showOptional seq}: {r}"
  | .invalidQuery t => s!"invalid source query: {t}"
  | .gap need oldest => s!"change log gap: need seq {need}, oldest retained is {oldest}"

/-- The fault with a malformed change pinned to a position. -/
def pinnedTo (seq : UInt64) : FeedFault → FeedFault
  | .malformed _ reason => .malformed (some seq) reason
  | f => f

end FeedFault

/-- Faults of a stream. -/
inductive StreamFault where
  /-- The feed is unreachable for now. -/
  | transientSource (operation message : String)
  /-- The store is unreachable for now. -/
  | transientStore (operation message : String)
  /-- A trigger refused a well-formed change. -/
  | trigger (stage reason : String)
  | malformed (seq : Option UInt64) (reason : String)
  | gap (requested oldest : UInt64)
  | config (text : String)
  /-- An operation in the wrong state of a stream's life. -/
  | state (expected actual : String)
  | shutdown
  /-- The configuration file cannot be read. -/
  | io (text : String)
  /-- The configuration file cannot be parsed. -/
  | yaml (text : String)
  | internal (text : String)
deriving DecidableEq, Repr

namespace StreamFault

def message : StreamFault → String
  | .transientSource op m => s!"Transient source error ({op}): {m}"
  | .transientStore op m => s!"Transient store error ({op}): {m}"
  | .trigger s r => s!"Trigger error in stage {s}: {r}"
  | .malformed seq r => s!"Malformed event (seq {showOptional seq}): {r}"
  | .gap need oldest => s!"Sequence gap: need {need}, source starts at {oldest}"
  | .config t => s!"Configuration error: {t}"
  | .state e a => s!"Invalid state: expected {e}, got {a}"
  | .shutdown => "Shutdown in progress"
  | .io t => s!"I/O error: {t}"
  | .yaml t => s!"YAML error: {t}"
  | .internal t => s!"Internal error: {t}"

/-- Whether reconnecting later might succeed. -/
def isRetryable : StreamFault → Bool
  | .transientSource _ _ | .transientStore _ _ => true
  | _ => false

/-- Whether the fault halts its stream until an operator steps in. -/
def pausesStream : StreamFault → Bool
  | .trigger _ _ | .malformed _ _ | .gap _ _ => true
  | _ => false

/-- The change the fault is pinned to, where it knows one. -/
def sequence? : StreamFault → Option UInt64
  | .malformed seq _ => seq
  | .gap requested _ => some requested
  | _ => none

end StreamFault

/-- A store fault as its stream sees it. A failed condition gets here only when every attempt at
a commit met one. -/
def StoreFault.toStream : StoreFault → StreamFault
  | .unavailable op m => .transientStore op m
  | .conflict b k => .transientStore "put_batch" s!"persistent precondition contention on {b}/{k}"
  | .corrupt b k m => .internal (StoreFault.corrupt b k m).message

/-- A feed fault as its stream sees it. -/
def FeedFault.toStream : FeedFault → StreamFault
  | .unavailable op m => .transientSource op m
  | .malformed seq r => .malformed seq r
  | .invalidQuery t => .config t
  | .gap need oldest => .gap need oldest

/-- What goes on after something else succeeds if both do. -/
theorem bind_eq_ok {x : Except ε α} {f : α → Except ε β} {b : β} :
    (x >>= f) = .ok b ↔ ∃ a, x = .ok a ∧ f a = .ok b := by
  cases x with
  | error e =>
      constructor
      · intro h
        cases h
      · rintro ⟨_, h, _⟩
        cases h
  | ok a =>
      constructor
      · intro h
        exact ⟨a, rfl, h⟩
      · rintro ⟨_, h, hb⟩
        cases h
        exact hb

end ChangeRelay
