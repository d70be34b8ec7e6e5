import ChangeRelay.Stream.Supervisor

/-!
# Steps of a call

What one step of a call does to the entries of a supervisor and where the call goes from there, case
by case, and which points the call for each kind of wish comes to.
-/

namespace ChangeRelay

/-! ## Points of a call -/

/-- The stream that a removal is under way for. -/
def Call.removes? : Call → Option String
  | .signal id _ | .drain id _ _ | .keep id _ | .forget id => some id
  | _ => none

/-- The workers that a call has yet to wait for. -/
def Call.holds : Call → List Nat
  | .signal _ n | .drain _ n _ => [n]
  | .signalAll workers | .drainAll workers _ => workers
  | _ => []

/-- The workers that a call waits for now. -/
def Call.awaits : Call → List Nat
  | .drain _ n _ => [n]
  | .drainAll workers _ => workers
  | _ => []

/-- Whether a call is about to close the supervisor to new streams. -/
def Call.closes : Call → Bool
  | .shutdown => true
  | _ => false

/-- Whether a call is about to take all entries. -/
def Call.empties : Call → Bool
  | .takeAll => true
  | _ => false

namespace Supervisor

/-- A name that is taken is not given to another stream. -/
theorem register_of_find?_some {s : Supervisor} {d : StreamDefinition} {entry : StreamEntry}
    (h : Assoc.find? d.consumer s.streams = some entry) (prepared : Except StreamFault Pipeline)
    (worker : Nat) :
    s.register d prepared worker = (s, .error (StreamDefinition.duplicate d.consumer), []) := by
  simp only [register, Assoc.contains, h, Option.isSome_some, if_true]

/-- Where a removal goes from the entry that it has marked. -/
def nextOf (id : String) : Option Nat → Call
  | some n => .signal id n
  | none => .forget id

/-- What becomes of other entries when one gets its worker back. -/
theorem find?_keep_of_ne {s : Supervisor} {id id' : String} (hne : id' ≠ id) (n : Nat) :
    Assoc.find? id' (s.keep id n).streams = Assoc.find? id' s.streams := by
  unfold keep
  split
  · rfl
  · exact (Assoc.find?_insert _ _ _ _).trans (if_neg hne)

/-- What a step of a call does, case by case. -/
inductive Advances (s : Supervisor) (scene : Scene) : Call → Advance → Prop where
  | refused {d : StreamDefinition} {e : StreamFault} (h : s.checkAdd d = .error e) :
      Advances s scene (.add d) { supervisor := s, call := .returned (.error e) }
  | admitted {d : StreamDefinition} (h : s.checkAdd d = .ok ()) :
      Advances s scene (.add d) { supervisor := s, call := .register d }
  | duplicate {d : StreamDefinition} :
      Advances s scene (.register d)
        { supervisor := s, call := .returned (.error (StreamDefinition.duplicate d.consumer)) }
  | invalid {d : StreamDefinition} {e : StreamFault} {readings : List Metrics.Reading}
      (hnone : Assoc.find? d.consumer s.streams = none) :
      Advances s scene (.register d)
        { supervisor :=
            { s with streams := Assoc.insert d.consumer ⟨.failed e.message, none, false⟩ s.streams }
          call := .returned (.error e), readings }
  | started {d : StreamDefinition} {pipeline : Pipeline} {readings : List Metrics.Reading}
      (hnone : Assoc.find? d.consumer s.streams = none) :
      Advances s scene (.register d)
        { supervisor :=
            { s with
              streams := Assoc.insert d.consumer ⟨.worker scene.next, some scene.next, false⟩
                s.streams }
          call := .returned (.ok ()), errand := .spawn d pipeline, readings }
  | irremovable {id : String} {e : StreamFault} :
      Advances s scene (.remove id) { supervisor := s, call := .returned (.error e) }
  | removes {id : String} {entry : StreamEntry}
      (hentry : Assoc.find? id s.streams = some entry) (hstopping : entry.stopping = false) :
      Advances s scene (.remove id)
        { supervisor :=
            { s with
              streams := Assoc.insert id { entry with running := none, stopping := true }
                s.streams }
          call := nextOf id entry.running }
  | signals {id : String} {n : Nat} :
      Advances s scene (.signal id n)
        { supervisor := s, call := .drain id n scene.deadline, errand := .stop [n] }
  | drained {id : String} {n deadline : Nat} (hended : scene.ended n = true) :
      Advances s scene (.drain id n deadline) { supervisor := s, call := .forget id }
  | outlasted {id : String} {n deadline : Nat} :
      Advances s scene (.drain id n deadline) { supervisor := s, call := .keep id n }
  | keeps {id : String} {n : Nat} :
      Advances s scene (.keep id n)
        { supervisor := s.keep id n, call := .returned (.error stillDraining) }
  | forgets {id : String} {readings : List Metrics.Reading} :
      Advances s scene (.forget id)
        { supervisor := { s with streams := Assoc.erase id s.streams }, call := .returned (.ok ()),
          readings }
  | unretried {id : String} {e : StreamFault} :
      Advances s scene (.retry id) { supervisor := s, call := .returned (.error e) }
  | retries {id : String} {n : Nat} :
      Advances s scene (.retry id) { supervisor := s, call := .wake n }
  | wakes {n : Nat} :
      Advances s scene (.wake n)
        { supervisor := s, call := .returned (.ok ()), errand := .wake n }
  | closes :
      Advances s scene .shutdown { supervisor := { s with shuttingDown := true }, call := .takeAll }
  | takesAll :
      Advances s scene .takeAll
        { supervisor := { s with streams := [] }
          call := .signalAll (s.streams.filterMap fun p => p.2.running) }
  | signalsAll {workers : List Nat} :
      Advances s scene (.signalAll workers)
        { supervisor := s, call := .drainAll workers scene.deadline, errand := .stop workers }
  | drainedAll {workers : List Nat} {deadline : Nat} {readings : List Metrics.Reading} :
      Advances s scene (.drainAll workers deadline)
        { supervisor := s, call := .returned (.ok ()), readings }

theorem advances_of_advance {s : Supervisor} {scene : Scene} {c : Call} {a : Advance}
    (h : s.advance scene c = some a) : Advances s scene c a := by
  cases c with
  | add d =>
      simp only [advance] at h
      split at h
      · cases h
        exact .admitted ‹_›
      · cases h
        exact .refused ‹_›
  | register d =>
      cases hfind : Assoc.find? d.consumer s.streams with
      | some entry =>
          simp only [advance, register_of_find?_some hfind] at h
          cases h
          exact .duplicate
      | none =>
          cases hprepare : scene.prepare d with
          | error e =>
              simp only [advance, register, Assoc.contains, hfind, hprepare] at h
              cases h
              exact .invalid hfind
          | ok pipeline =>
              simp only [advance, register, Assoc.contains, hfind, hprepare] at h
              cases h
              exact .started hfind
  | remove id =>
      cases hfind : Assoc.find? id s.streams with
      | none =>
          simp only [advance, beginRemove, hfind] at h
          cases h
          exact .irremovable
      | some entry =>
          cases hstopping : entry.stopping with
          | true =>
              simp only [advance, beginRemove, hfind, hstopping] at h
              cases h
              exact .irremovable
          | false =>
              have hremoves : Advances s scene _ _ := .removes hfind hstopping
              cases hrunning : entry.running with
              | none =>
                  simp only [advance, beginRemove, hfind, hstopping, hrunning] at h
                  cases h
                  simpa only [hrunning, nextOf] using hremoves
              | some n =>
                  simp only [advance, beginRemove, hfind, hstopping, hrunning] at h
                  cases h
                  simpa only [hrunning, nextOf] using hremoves
  | signal id n =>
      cases h
      exact .signals
  | drain id n deadline =>
      simp only [advance] at h
      split at h
      · cases h
        exact .drained ‹_›
      · split at h
        · cases h
          exact .outlasted
        · cases h
  | keep id n =>
      cases h
      exact .keeps
  | forget id =>
      cases h
      exact .forgets
  | retry id =>
      simp only [advance] at h
      split at h
      · cases h
        exact .retries
      · cases h
        exact .unretried
  | wake n =>
      cases h
      exact .wakes
  | shutdown =>
      cases h
      exact .closes
  | takeAll =>
      cases h
      exact .takesAll
  | signalAll workers =>
      cases h
      exact .signalsAll
  | drainAll workers deadline =>
      simp only [advance] at h
      split at h
      · cases h
        exact .drainedAll
      · cases h
  | returned result => cases h

end Supervisor

/-! ## Courses of calls -/

/-- What may be asked of a supervisor. -/
inductive Wish where
  | add (d : StreamDefinition)
  | remove (id : String)
  | retry (id : String)
  | shutdown
deriving DecidableEq

/-- The call for a wish. -/
def Wish.call : Wish → Call
  | .add d => .add d
  | .remove id => .remove id
  | .retry id => .retry id
  | .shutdown => .shutdown

/-- The points that the call for a wish may come to. -/
def Wish.Fits : Wish → Call → Prop
  | _, .returned _ => True
  | .add _, .add _ | .add _, .register _ => True
  | .remove _, .remove _ | .remove _, .signal _ _ | .remove _, .drain _ _ _
  | .remove _, .keep _ _ | .remove _, .forget _ => True
  | .retry _, .retry _ | .retry _, .wake _ => True
  | .shutdown, .shutdown | .shutdown, .takeAll | .shutdown, .signalAll _
  | .shutdown, .drainAll _ _ => True
  | _, _ => False

theorem Wish.Fits.advance {wish : Wish} {s : Supervisor} {scene : Scene} {c : Call} {a : Advance}
    (h : wish.Fits c) (hadvance : s.advance scene c = some a) : wish.Fits a.call := by
  cases Supervisor.advances_of_advance hadvance with
  | @removes id entry hentry hstopping =>
      cases wish with
      | remove id' => cases entry.running <;> exact trivial
      | add d => exact h.elim
      | retry id' => exact h.elim
      | shutdown => exact h.elim
  | admitted hcheck => cases wish <;> exact h
  | signals => cases wish <;> exact h
  | drained hended => cases wish <;> exact h
  | outlasted => cases wish <;> exact h
  | retries => cases wish <;> exact h
  | closes => cases wish <;> exact h
  | takesAll => cases wish <;> exact h
  | signalsAll => cases wish <;> exact h
  | _ => exact trivial

end ChangeRelay
