import ChangeRelay.Change

/-!
# Feed items

What a subscription hands out: changes in the order of their numbers, and signs of life while no
change is pending.
-/

namespace ChangeRelay

/-- One item of a subscription. -/
inductive FeedItem where
  | event (change : Change)
  | heartbeat
deriving DecidableEq

/-- The answer of a subscription: an item, none at the end of the feed, or a fault. -/
abbrev FeedAnswer := Except FeedFault (Option FeedItem)

end ChangeRelay
