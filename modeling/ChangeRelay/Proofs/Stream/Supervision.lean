import ChangeRelay.Proofs.Stream.Calls
import Mathlib.Data.List.Induction

/-!
# Supervisors at work

Any number of calls of one supervisor, each of which stops at every point where it reads the flag of
a shutdown, takes the lock or waits, while consumers end whenever they do and any wait may come to
its deadline.
-/

namespace ChangeRelay

/-- A consumer as its supervisor sees it. -/
structure Task where
  consumer : String
  /-- The call that started it. -/
  starter : Nat
  /-- It was started after a shutdown had taken the entries. -/
  late : Bool := false
  ended : Bool := false
  /-- Somebody who waited for it stopped waiting while it ran. -/
  outlived : Bool := false
deriving DecidableEq

/-- A consumer after a call stopped waiting for some. -/
def Task.leave (workers : List Nat) (n : Nat) (t : Task) : Task :=
  if n ∈ workers ∧ t.ended = false then { t with outlived := true } else t

/-- A consumer, and what may have become of it. -/
structure Task.Ages (t t' : Task) : Prop where
  consumer : t'.consumer = t.consumer
  starter : t'.starter = t.starter
  late : t'.late = t.late
  ended : t.ended = true → t'.ended = true
  outlived : t.outlived = true → t'.outlived = true

theorem Task.Ages.refl (t : Task) : t.Ages t := ⟨rfl, rfl, rfl, id, id⟩

theorem Task.ages_leave (workers : List Nat) (n : Nat) (t : Task) : t.Ages (t.leave workers n) := by
  unfold Task.leave
  split
  · exact ⟨rfl, rfl, rfl, id, fun _ => rfl⟩
  · exact Task.Ages.refl t

/-- A consumer that is left runs on past the wait, or has ended. -/
theorem Task.over_leave {workers : List Nat} {n : Nat} (t : Task) (h : n ∈ workers) :
    (t.leave workers n).ended = true ∨ (t.leave workers n).outlived = true := by
  unfold Task.leave
  by_cases hended : t.ended = false
  · rw [if_pos ⟨h, hended⟩]
    exact .inr rfl
  · rw [if_neg fun hboth => hended hboth.2]
    exact .inl (by simpa using hended)

/-- The worker that the health of a stream comes from. -/
def HealthSource.worker? : HealthSource → Option Nat
  | .worker n => some n
  | .failed _ => none

/-- A supervisor with its consumers and its calls. -/
structure Supervision where
  supervisor : Supervisor := {}
  /-- By number. -/
  tasks : List Task := []
  /-- In the order in which they began, each with the point that it has come to. -/
  calls : List (Wish × Call) := []
  /-- How many calls had begun when a shutdown closed the supervisor to new streams. -/
  closed : Option Nat := none
  /-- A shutdown has taken the entries. -/
  emptied : Bool := false

namespace Supervision

/-- What can happen to a supervisor. -/
inductive Event where
  | begin (wish : Wish)
  /-- A call goes one step on. The scene says how definitions, health, and deadlines stand; which
  consumers have ended is seen. -/
  | advance (i : Nat) (scene : Scene)
  /-- A consumer ends. -/
  | exit (n : Nat)

/-- Whether a consumer has ended. -/
def hasEnded (s : Supervision) (n : Nat) : Bool :=
  match s.tasks[n]? with
  | some t => t.ended
  | none => true

theorem hasEnded_eq {s : Supervision} {n : Nat} {t : Task} (h : s.tasks[n]? = some t) :
    s.hasEnded n = t.ended := by
  simp only [hasEnded, h]

/-- What a call finds now. -/
def sees (s : Supervision) (scene : Scene) : Scene :=
  { scene with next := s.tasks.length, ended := s.hasEnded }

/-- The consumers after a step of a call. -/
def tasksAfter (s : Supervision) (i : Nat) (c : Call) (errand : Errand) : List Task :=
  let tasks := s.tasks.mapIdx (Task.leave c.awaits)
  match errand with
  | .spawn d _ => tasks ++ [{ consumer := d.consumer, starter := i, late := s.emptied }]
  | _ => tasks

/-- The step of a call, put into effect. -/
def moved (s : Supervision) (i : Nat) (wish : Wish) (c : Call) (a : Advance) : Supervision where
  supervisor := a.supervisor
  tasks := s.tasksAfter i c a.errand
  calls := s.calls.set i (wish, a.call)
  closed := if c.closes then s.closed.or (some s.calls.length) else s.closed
  emptied := s.emptied || c.empties

/-- One event. -/
def step (s : Supervision) : Event → Supervision
  | .begin wish => { s with calls := s.calls ++ [(wish, wish.call)] }
  | .advance i scene =>
    match s.calls[i]? with
    | none => s
    | some (wish, c) =>
      match s.supervisor.advance (s.sees scene) c with
      | none => s
      | some a => s.moved i wish c a
  | .exit n => { s with tasks := s.tasks.modify n fun t => { t with ended := true } }

/-- Events one after another. -/
def run (s : Supervision) (events : List Event) : Supervision := events.foldl step s

theorem run_append_singleton (s : Supervision) (events : List Event) (e : Event) :
    s.run (events ++ [e]) = (s.run events).step e := by
  simp [run, List.foldl_append]

/-- A call that cannot go on changes nothing. -/
theorem step_advance (s : Supervision) (i : Nat) (scene : Scene) :
    s.step (.advance i scene) = s ∨ ∃ wish c a, s.calls[i]? = some (wish, c) ∧
      s.supervisor.advance (s.sees scene) c = some a ∧
      s.step (.advance i scene) = s.moved i wish c a := by
  cases hi : s.calls[i]? with
  | none =>
      left
      simp only [step, hi]
  | some call =>
      obtain ⟨wish, c⟩ := call
      cases hadvance : s.supervisor.advance (s.sees scene) c with
      | none =>
          left
          simp only [step, hi, hadvance]
      | some a =>
          right
          exact ⟨wish, c, a, rfl, hadvance, by simp only [step, hi, hadvance]⟩

/-! ## Consumers grow older -/

/-- No consumer gets lost. -/
def Older (s s' : Supervision) : Prop :=
  ∀ (n : Nat) (t : Task), s.tasks[n]? = some t → ∃ t', s'.tasks[n]? = some t' ∧ t.Ages t'

variable {s s' : Supervision} {i j n : Nat} {id : String} {wish : Wish} {c c' : Call}

theorem Older.of_eq (h : s'.tasks = s.tasks) : Older s s' := by
  intro n t ht
  exact ⟨t, h ▸ ht, Task.Ages.refl t⟩

theorem getElem?_tasksAfter {t : Task} (s : Supervision) (i : Nat) (c : Call) (errand : Errand)
    (h : s.tasks[n]? = some t) :
    (s.tasksAfter i c errand)[n]? = some (t.leave c.awaits n) := by
  have hleave : (s.tasks.mapIdx (Task.leave c.awaits))[n]? = some (t.leave c.awaits n) := by
    rw [List.getElem?_mapIdx, h]
    rfl
  have hlt : n < (s.tasks.mapIdx (Task.leave c.awaits)).length :=
    (List.getElem?_eq_some_iff.1 hleave).1
  unfold tasksAfter
  split
  · rw [List.getElem?_append_left hlt, hleave]
  · exact hleave

/-- Where nobody is waited for and no consumer is started, nothing becomes of the consumers. -/
theorem tasksAfter_eq (s : Supervision) (i : Nat) {errand : Errand} (hc : c.awaits = [])
    (herrand : ∀ d pipeline, errand ≠ .spawn d pipeline) : s.tasksAfter i c errand = s.tasks := by
  have hsame : s.tasks.mapIdx (Task.leave c.awaits) = s.tasks := by
    apply List.ext_getElem?
    intro n
    rw [List.getElem?_mapIdx, hc]
    cases s.tasks[n]? with
    | none => rfl
    | some t => simp [Task.leave]
  unfold tasksAfter
  split
  · exact absurd rfl (herrand _ _)
  · exact hsame

theorem length_tasksAfter (s : Supervision) (i : Nat) (c : Call) {errand : Errand}
    (herrand : ∀ d pipeline, errand ≠ .spawn d pipeline) :
    (s.tasksAfter i c errand).length = s.tasks.length := by
  unfold tasksAfter
  split
  · exact absurd rfl (herrand _ _)
  · exact List.length_mapIdx

theorem Older.tasksAfter (s : Supervision) (i : Nat) (c : Call) (errand : Errand)
    (h : s'.tasks = s.tasksAfter i c errand) : Older s s' := by
  intro n t ht
  refine ⟨_, ?_, t.ages_leave c.awaits n⟩
  rw [h]
  exact getElem?_tasksAfter s i c errand ht

theorem Older.exit (s : Supervision) (n : Nat) : Older s (s.step (.exit n)) := by
  intro m t ht
  by_cases hm : m = n
  · refine ⟨{ t with ended := true }, ?_, rfl, rfl, rfl, fun _ => rfl, id⟩
    rw [hm] at ht ⊢
    simp [step, ht]
  · refine ⟨t, ?_, Task.Ages.refl t⟩
    simp [step, Ne.symm hm, ht]

/-- What runs now ran before, unless it was started just now. -/
theorem Older.running (h : Older s s') {t' : Task} (ht' : s'.tasks[n]? = some t')
    (hruns : t'.ended = false) :
    s.tasks.length ≤ n ∨ ∃ t, s.tasks[n]? = some t ∧ t.ended = false ∧ t.Ages t' := by
  rcases Nat.lt_or_ge n s.tasks.length with hlt | hge
  · right
    obtain ⟨t'', ht'', hages⟩ := h n s.tasks[n] (List.getElem?_eq_getElem hlt)
    rw [ht'] at ht''
    cases ht''
    refine ⟨s.tasks[n], List.getElem?_eq_getElem hlt, ?_, hages⟩
    by_contra hended
    have := hages.ended (by simpa using hended)
    rw [hruns] at this
    cases this
  · exact .inl hge

/-- Where no consumer is started, what runs now ran before. -/
theorem Older.ran (h : Older s s') (hlength : s'.tasks.length = s.tasks.length) {t' : Task}
    (ht' : s'.tasks[n]? = some t') (hruns : t'.ended = false) :
    ∃ t, s.tasks[n]? = some t ∧ t.ended = false ∧ t.Ages t' := by
  rcases h.running ht' hruns with hge | hran
  · have hlt : n < s'.tasks.length := (List.getElem?_eq_some_iff.1 ht').1
    omega
  · exact hran

theorem length_exit (s : Supervision) (n : Nat) :
    (s.step (.exit n)).tasks.length = s.tasks.length :=
  List.length_modify _ _ _

theorem Older.hasEnded (h : Older s s') (hlt : n < s.tasks.length) (hended : s.hasEnded n = true) :
    s'.hasEnded n = true := by
  obtain ⟨t', ht', hages⟩ := h n s.tasks[n] (List.getElem?_eq_getElem hlt)
  unfold Supervision.hasEnded at hended ⊢
  rw [List.getElem?_eq_getElem hlt] at hended
  rw [ht']
  exact hages.ended hended

/-! ## Removals -/

/-- A call has begun to remove a stream. -/
def Removes (s : Supervision) (i : Nat) (c : Call) (id : String) : Prop :=
  ∃ wish, s.calls[i]? = some (wish, c) ∧ c.removes? = some id

theorem getElem?_set_calls (hi : s.calls[i]? = some (wish, c))
    (hcalls : s'.calls = s.calls.set i (wish, c')) (j : Nat) :
    s'.calls[j]? = if i = j then some (wish, c') else s.calls[j]? := by
  have hlt : i < s.calls.length := (List.getElem?_eq_some_iff.1 hi).1
  rw [hcalls, List.getElem?_set, if_pos hlt]

/-- A call stands where it did when another one begins. -/
theorem getElem?_calls_begin (h : s.calls[j]? = some (wish, c)) (begun : Wish) :
    (s.step (.begin begun)).calls[j]? = some (wish, c) := by
  have hlt : j < s.calls.length := (List.getElem?_eq_some_iff.1 h).1
  change (s.calls ++ [(begun, begun.call)])[j]? = some (wish, c)
  rw [List.getElem?_append_left hlt]
  exact h

/-- The calls after one of them went a step on. -/
theorem getElem?_calls_moved {a : Advance} (hi : s.calls[i]? = some (wish, c)) (j : Nat) :
    (s.moved i wish c a).calls[j]? = if i = j then some (wish, a.call) else s.calls[j]? :=
  getElem?_set_calls hi rfl j

/-- The removals of a stream after one call went a step on. -/
theorem removes_set (hi : s.calls[i]? = some (wish, c))
    (hcalls : s'.calls = s.calls.set i (wish, c')) {d : Call} :
    s'.Removes j d id ↔ (j = i ∧ d = c' ∧ c'.removes? = some id) ∨ (j ≠ i ∧ s.Removes j d id) := by
  unfold Removes
  rw [getElem?_set_calls hi hcalls]
  by_cases hj : i = j
  · subst hj
    constructor
    · rintro ⟨w, hw, hremoves⟩
      rw [if_pos rfl] at hw
      cases hw
      exact .inl ⟨rfl, rfl, hremoves⟩
    · rintro (⟨-, rfl, hremoves⟩ | ⟨hne, -⟩)
      · exact ⟨wish, if_pos rfl, hremoves⟩
      · exact absurd rfl hne
  · rw [if_neg hj]
    constructor
    · intro h
      exact .inr ⟨Ne.symm hj, h⟩
    · rintro (⟨heq, -⟩ | ⟨-, h⟩)
      · exact absurd heq.symm hj
      · exact h

/-- A step of a call that has nothing to do with a stream does not change its removals. -/
theorem removes_set_of_ne (hi : s.calls[i]? = some (wish, c))
    (hcalls : s'.calls = s.calls.set i (wish, c')) (hc : c.removes? ≠ some id)
    (hc' : c'.removes? ≠ some id) (j : Nat) (d : Call) :
    s'.Removes j d id ↔ s.Removes j d id := by
  rw [removes_set hi hcalls]
  constructor
  · rintro (⟨-, rfl, hremoves⟩ | ⟨-, h⟩)
    · exact absurd hremoves hc'
    · exact h
  · intro h
    refine .inr ⟨?_, h⟩
    rintro rfl
    obtain ⟨w, hw, hremoves⟩ := h
    rw [hi] at hw
    cases hw
    exact hc hremoves

/-! ## Runs -/

/-- Where a call stands after an event: it began just now, went a step on, or stands still. -/
theorem calls_step {e : Event} (h : (s.step e).calls[j]? = some (wish, c)) :
    s.calls[j]? = some (wish, c) ∨ (e = .begin wish ∧ j = s.calls.length ∧ c = wish.call) ∨
      ∃ scene d a, e = .advance j scene ∧ s.calls[j]? = some (wish, d) ∧
        s.supervisor.advance (s.sees scene) d = some a ∧ c = a.call := by
  cases e with
  | begin w =>
      change (s.calls ++ [(w, w.call)])[j]? = some (wish, c) at h
      rcases Nat.lt_or_ge j s.calls.length with hlt | hge
      · rw [List.getElem?_append_left hlt] at h
        exact .inl h
      · rw [List.getElem?_append_right hge, List.getElem?_singleton] at h
        split at h
        · cases h
          exact .inr (.inl ⟨rfl, by omega, rfl⟩)
        · cases h
  | exit n => exact .inl h
  | advance i scene =>
      rcases s.step_advance i scene with hsame | ⟨w, d, a, hi, hadvance, hmoved⟩
      · rw [hsame] at h
        exact .inl h
      · rw [hmoved, getElem?_calls_moved hi] at h
        by_cases hj : i = j
        · subst hj
          rw [if_pos rfl] at h
          cases h
          exact .inr (.inr ⟨scene, d, a, rfl, hi, hadvance, rfl⟩)
        · rw [if_neg hj] at h
          exact .inl h

/-- Every call was begun, and has come to a point of its own course. -/
theorem calls_run (events : List Event)
    (h : (({} : Supervision).run events).calls[j]? = some (wish, c)) :
    .begin wish ∈ events ∧ wish.Fits c := by
  induction events using List.reverseRecOn generalizing c with
  | nil => cases h
  | append_singleton events e ih =>
      rw [run_append_singleton] at h
      rcases calls_step h with hwas | ⟨rfl, -, rfl⟩ | ⟨scene, d, a, -, hwas, hadvance, rfl⟩
      · exact ⟨List.mem_append_left _ (ih hwas).1, (ih hwas).2⟩
      · refine ⟨List.mem_append_right _ (List.mem_singleton_self _), ?_⟩
        cases wish <;> exact trivial
      · exact ⟨List.mem_append_left _ (ih hwas).1, (ih hwas).2.advance hadvance⟩

theorem emptied_of_step {e : Event} (h : s.emptied = true) : (s.step e).emptied = true := by
  cases e with
  | begin wish => exact h
  | exit n => exact h
  | advance i scene =>
      rcases s.step_advance i scene with hsame | ⟨wish, c, a, -, -, hmoved⟩
      · rw [hsame]
        exact h
      · rw [hmoved]
        exact Bool.or_eq_true_iff.2 (.inl h)

/-- Without a shutdown nobody takes the entries. -/
theorem emptied_eq_false {events : List Event} (hcalm : .begin .shutdown ∉ events) :
    (({} : Supervision).run events).emptied = false := by
  induction events using List.reverseRecOn with
  | nil => rfl
  | append_singleton events e ih =>
      rw [List.mem_append, not_or] at hcalm
      have hbefore := ih hcalm.1
      rw [run_append_singleton]
      cases e with
      | begin wish => exact hbefore
      | exit n => exact hbefore
      | advance i scene =>
          rcases (({} : Supervision).run events).step_advance i scene with
            hsame | ⟨wish, c, a, hi, -, hmoved⟩
          · rw [hsame]
            exact hbefore
          · rw [hmoved]
            refine Bool.or_eq_false_iff.2 ⟨hbefore, ?_⟩
            obtain ⟨hbegun, hfits⟩ := calls_run events hi
            cases c with
            | takeAll =>
                -- only a shutdown comes to this point
                cases wish with
                | shutdown => exact absurd hbegun hcalm.1
                | add d => exact hfits.elim
                | remove id => exact hfits.elim
                | retry id => exact hfits.elim
            | _ => rfl

end Supervision

end ChangeRelay
