import ChangeRelay.Batch
import ChangeRelay.Stream.Consumer
import Mathlib.Data.List.DropRight
import Mathlib.Data.List.Induction

/-!
# What a batch holds

The fields of a batch are kept side by side and are read one by one when it is decided whether to
commit and what. After any pushes and clears, all of them are those of the changes pushed since the
last clear: their number, their intents, the first and the last of their numbers, and that a wait
has begun.
-/

namespace ChangeRelay.Batch

/-- A change as it is added to a batch: its number and its intents. -/
abbrev Pushed := UInt64 × List Intent

/-- What is done to a batch. -/
inductive Call where
  | push (seq : UInt64) (intents : List Intent)
  | clear

/-- What a call adds. -/
def Call.pushed? : Call → Option Pushed
  | .push seq intents => some (seq, intents)
  | .clear => none

def call (b : Batch) : Call → Batch
  | .push seq intents => b.push seq intents
  | .clear => b.clear

/-- A new batch after some calls. -/
def run (calls : List Call) : Batch := calls.foldl call {}

/-- What was pushed since the last clear. -/
def sinceClear (calls : List Call) : List Pushed :=
  (calls.rtakeWhile fun c => c.pushed?.isSome).filterMap Call.pushed?

variable {calls : List Call} {pushed : List Pushed} {b : Batch}

theorem run_append_singleton (calls : List Call) (c : Call) :
    run (calls ++ [c]) = (run calls).call c := by
  simp [run, List.foldl_append]

theorem sinceClear_push (calls : List Call) (seq : UInt64) (intents : List Intent) :
    sinceClear (calls ++ [.push seq intents]) = sinceClear calls ++ [(seq, intents)] := by
  simp [sinceClear, Call.pushed?]

theorem sinceClear_clear (calls : List Call) : sinceClear (calls ++ [.clear]) = [] := by
  simp [sinceClear, Call.pushed?]

/-- The range of some changes: from the first of them to the last. -/
def rangeOf (pushed : List Pushed) : Option SeqRange :=
  match pushed.head?, pushed.getLast? with
  | some first, some last => some ⟨first.1, last.1⟩
  | _, _ => none

theorem rangeOf_eq_none : rangeOf pushed = none ↔ pushed = [] := by
  cases pushed with
  | nil => simp [rangeOf]
  | cons c rest => simp [rangeOf, List.getLast?_cons]

theorem rangeOf_eq_some_iff {range : SeqRange} :
    rangeOf pushed = some range ↔
      pushed.head?.map Prod.fst = some range.first ∧
        pushed.getLast?.map Prod.fst = some range.last := by
  rw [rangeOf]
  cases pushed.head? with
  | none => simp
  | some first =>
    cases pushed.getLast? with
    | none => simp
    | some last =>
      cases range
      simp

theorem rangeOf_append_singleton (pushed : List Pushed) (c : Pushed) :
    rangeOf (pushed ++ [c]) = some (match rangeOf pushed with
      | none => ⟨c.1, c.1⟩
      | some r => ⟨r.first, c.1⟩) := by
  cases pushed with
  | nil => rfl
  | cons first rest => simp [rangeOf, List.getLast?_cons]

/-- All fields of a batch are those of some changes. -/
structure Holds (b : Batch) (pushed : List Pushed) : Prop where
  events : b.events = pushed.length
  intents : b.intents = pushed.flatMap Prod.snd
  range : b.range = rangeOf pushed
  lingering : b.lingering = true ↔ pushed ≠ []

theorem holds_empty : Holds {} [] := ⟨rfl, rfl, rfl, by simp⟩

/-- A push adds one change. -/
theorem Holds.push (h : Holds b pushed) (seq : UInt64) (intents : List Intent) :
    Holds (b.push seq intents) (pushed ++ [(seq, intents)]) where
  events := by simp [Batch.push, h.events]
  intents := by simp [Batch.push, h.intents]
  range := by
    rw [rangeOf_append_singleton, ← h.range]
    rfl
  lingering := by
    -- the wait begins with the first change and goes on with every other
    cases hrange : b.range with
    | none => simp [Batch.push, hrange]
    | some r =>
      have hne : pushed ≠ [] := by
        rw [ne_eq, ← rangeOf_eq_none, ← h.range, hrange]
        simp
      simp [Batch.push, hrange, h.lingering.2 hne]

/-- After any calls a batch holds what was pushed since the last clear. -/
theorem holds_run (calls : List Call) : Holds (run calls) (sinceClear calls) := by
  induction calls using List.reverseRecOn with
  | nil => exact holds_empty
  | append_singleton calls c ih =>
    rw [run_append_singleton]
    cases c with
    | push seq intents =>
      rw [sinceClear_push]
      exact ih.push seq intents
    | clear =>
      rw [sinceClear_clear]
      exact holds_empty

/-! ## What is read of a batch -/

theorem isSome_remainingLinger {linger passed : Duration} :
    (b.remainingLinger linger passed).isSome = true ↔ b.lingering = true := by
  rw [remainingLinger]
  split <;> simp [*]

/-- A size of zero counts as one. -/
theorem isFull_iff {maxEvents : Nat} : b.isFull maxEvents = true ↔ max 1 maxEvents ≤ b.events := by
  rw [isFull, decide_eq_true_iff]
  split <;> omega

/-- A session waits for the rest of the linger, and no longer than the feed may be silent. -/
theorem patience_eq (c : Consumer) (s : Session) :
    c.patience s =
      match s.batch.remainingLinger c.settings.batch.linger ⟨0⟩ with
      | some rest => Duration.shorter rest c.settings.heartbeatTimeout
      | none => c.settings.heartbeatTimeout := by
  rw [Consumer.patience, remainingLinger]
  split <;> rfl

/-- Numbers that ascend from one change to the next ascend from the first to the last. -/
theorem first_le_last (hasc : pushed.Pairwise fun a c => a.1 < c.1) {range : SeqRange}
    (h : rangeOf pushed = some range) : range.first ≤ range.last := by
  obtain ⟨hfirst, hlast⟩ := rangeOf_eq_some_iff.1 h
  rw [Option.map_eq_some_iff] at hfirst hlast
  obtain ⟨first, hhead, hfirst⟩ := hfirst
  obtain ⟨last, hmem, hlast⟩ := hlast
  obtain ⟨rest, rfl⟩ := List.head?_eq_some_iff.1 hhead
  rw [← hfirst, ← hlast]
  rcases List.mem_cons.1 (List.mem_of_getLast? hmem) with heq | hrest
  · rw [heq]
    exact UInt64.le_refl _
  · exact UInt64.le_of_lt ((List.pairwise_cons.1 hasc).1 last hrest)

/-- After any calls, with numbers that ascend since the last clear: a batch counts what was pushed
since then, has the intents of it one after the other, and is full from the limit on, which is at
least one. While it is empty it has no range and nothing waits; else its range goes from the first
number to the last, and what is left of the wait is known. -/
theorem run_holds_pushed (calls : List Call)
    (hasc : (sinceClear calls).Pairwise fun a c => a.1 < c.1) :
    (run calls).events = (sinceClear calls).length ∧
      (run calls).intents = (sinceClear calls).flatMap Prod.snd ∧
      ((run calls).range = none ↔ (run calls).events = 0) ∧
      (∀ range, (run calls).range = some range →
        (sinceClear calls).head?.map Prod.fst = some range.first ∧
        (sinceClear calls).getLast?.map Prod.fst = some range.last ∧
        range.first ≤ range.last) ∧
      (∀ linger passed,
        ((run calls).remainingLinger linger passed).isSome = true ↔ 0 < (run calls).events) ∧
      ∀ maxEvents, (run calls).isFull maxEvents = true ↔ max 1 maxEvents ≤ (run calls).events := by
  have hholds := holds_run calls
  generalize run calls = b at *
  generalize sinceClear calls = pushed at *
  refine ⟨hholds.events, hholds.intents, ?_, ?_, ?_, fun _ => isFull_iff⟩
  · rw [hholds.range, rangeOf_eq_none, hholds.events, List.length_eq_zero_iff]
  · intro range hrange
    rw [hholds.range] at hrange
    obtain ⟨hfirst, hlast⟩ := rangeOf_eq_some_iff.1 hrange
    exact ⟨hfirst, hlast, first_le_last hasc hrange⟩
  · intro linger passed
    rw [isSome_remainingLinger, hholds.lingering, hholds.events, List.length_pos_iff]

/-- What stood in the batch before a clear is forgotten, higher numbers too; a change without
intents counts. -/
theorem run_holds_pushed_cleared :
    let i := Intent.delete "m" "a"
    let calls : List Call := [.push 9 [i], .clear, .push 3 [i, i], .push 7 []]
    (sinceClear calls).Pairwise (fun a c => a.1 < c.1) ∧
      (run calls).events = 2 ∧ (run calls).intents = [i, i] ∧
      (run calls).range = some ⟨3, 7⟩ ∧
      ((run calls).remainingLinger ⟨5⟩ ⟨8⟩).isSome = true ∧
      (run calls).isFull 2 = true ∧ ¬ (run calls).isFull 3 = true := by
  intro i calls
  have hpushed : sinceClear calls = [(3, [i, i]), (7, [])] := by
    rw [show calls = [.push 9 [i], .clear] ++ [.push 3 [i, i]] ++ [.push 7 []] from rfl,
      sinceClear_push, sinceClear_push]
    rfl
  have hasc : (sinceClear calls).Pairwise fun a c => a.1 < c.1 := by
    rw [hpushed]
    simp
  obtain ⟨hevents, hintents, -, -, hlinger, hfull⟩ := run_holds_pushed calls hasc
  rw [hpushed] at hevents hintents
  refine ⟨hasc, hevents, hintents, rfl, ?_, ?_, ?_⟩
  · rw [hlinger, hevents]
    decide
  · rw [hfull, hevents]
    decide
  · rw [hfull, hevents]
    decide

end ChangeRelay.Batch
