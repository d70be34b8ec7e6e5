import ChangeRelay.Proofs.Stream.Registered

/-!
# What a shutdown leaves running

A shutdown first refuses further streams, then takes all entries, and waits for the consumers that
it found there. Whoever runs on after it has returned is accounted for: somebody's wait for it came
to its deadline, or somebody else has yet to wait for it, or it was started by a call that had
passed the check before the shutdown began to refuse. Each of these happens.
-/

namespace ChangeRelay.Supervision

variable {s s' : Supervision} {i n : Nat} {wish : Wish} {c : Call}

/-! ## Consumers accounted for -/

/-- A call under way has yet to wait for a consumer. -/
def Waits (s : Supervision) (n : Nat) : Prop :=
  ∃ (i : Nat) (wish : Wish) (c : Call), s.calls[i]? = some (wish, c) ∧ n ∈ c.holds

/-- Every consumer that runs was started late, was given up, or has somebody wait for it. -/
def Accounted (s : Supervision) : Prop :=
  ∀ (n : Nat) (t : Task), s.tasks[n]? = some t → t.ended = false →
    t.late = true ∨ t.outlived = true ∨ s.Waits n

/-- A step of a call waits no longer for a consumer only after it has waited. -/
theorem holds_advance {a : Advance} {u : Supervisor} {scene : Scene}
    (h : u.advance scene c = some a) : (∀ n ∈ c.holds, n ∈ a.call.holds) ∨ c.holds = c.awaits := by
  cases Supervisor.advances_of_advance h with
  | signals => exact .inl fun _ hn => hn
  | signalsAll => exact .inl fun _ hn => hn
  | _ => exact .inr rfl

/-- A consumer that is new after a step was started by it. -/
theorem new_of_tasksAfter {errand : Errand} {t : Task}
    (h : (s.tasksAfter i c errand)[n]? = some t) (hge : s.tasks.length ≤ n) :
    (∃ d pipeline, errand = .spawn d pipeline) ∧ t.starter = i ∧ t.late = s.emptied := by
  have hlength : (s.tasks.mapIdx (Task.leave c.awaits)).length = s.tasks.length :=
    List.length_mapIdx
  unfold tasksAfter at h
  split at h
  · rw [List.getElem?_append_right (by omega), List.getElem?_singleton] at h
    split at h
    · cases h
      exact ⟨⟨_, _, rfl⟩, rfl, rfl⟩
    · cases h
  · have hlt : n < (s.tasks.mapIdx (Task.leave c.awaits)).length :=
      (List.getElem?_eq_some_iff.1 h).1
    omega

/-- Whoever waits for a consumer goes on to, unless it is the call that goes a step on. -/
theorem Waits.moved {a : Advance} (h : s.Waits n) (hi : s.calls[i]? = some (wish, c)) :
    n ∈ c.holds ∨ (s.moved i wish c a).Waits n := by
  obtain ⟨j, w, d, hj, hn⟩ := h
  by_cases hij : i = j
  · subst hij
    rw [hi] at hj
    cases hj
    exact .inl hn
  · right
    refine ⟨j, w, d, ?_, hn⟩
    rw [getElem?_calls_moved hi, if_neg hij]
    exact hj

theorem waits_moved {a : Advance} (hi : s.calls[i]? = some (wish, c)) (hn : n ∈ a.call.holds) :
    (s.moved i wish c a).Waits n :=
  ⟨i, wish, a.call, (getElem?_calls_moved hi i).trans (if_pos rfl), hn⟩

/-- Once the entries are taken, a step of a call leaves everybody accounted for. -/
theorem Accounted.moved (h : s.Accounted) (hemptied : s.emptied = true) {scene : Scene}
    {a : Advance} (hi : s.calls[i]? = some (wish, c))
    (hadvance : s.supervisor.advance (s.sees scene) c = some a) :
    (s.moved i wish c a).Accounted := by
  intro n t' ht' hruns
  have hold : Older s (s.moved i wish c a) := .tasksAfter s i c a.errand rfl
  rcases hold.running ht' hruns with hge | ⟨t, ht, hruns', hages⟩
  · -- a consumer that is started now is late
    obtain ⟨-, -, hlate⟩ := new_of_tasksAfter ht' hge
    exact .inl (hlate.trans hemptied)
  · have hleave : t' = t.leave c.awaits n :=
      Option.some.inj (ht'.symm.trans (getElem?_tasksAfter s i c a.errand ht))
    rcases h n t ht hruns' with hlate | houtlived | hwaits
    · exact .inl (hages.late.trans hlate)
    · exact .inr (.inl (hages.outlived houtlived))
    · rcases hwaits.moved (a := a) hi with hn | hwaits
      · rcases holds_advance hadvance with hstays | hawaits
        · exact .inr (.inr (waits_moved hi (hstays n hn)))
        · -- the call has waited, and does so no longer
          rw [hawaits] at hn
          rcases t.over_leave hn with hended | houtlived
          · rw [← hleave, hruns] at hended
            cases hended
          · exact .inr (.inl (hleave ▸ houtlived))
      · exact .inr (.inr hwaits)

/-- Where all streams are in order, whoever takes the entries leaves everybody accounted for: the
consumers of the entries are to be waited for, and the others are being removed. -/
theorem Orderly.accounted (h : s.Orderly) (hi : s.calls[i]? = some (wish, .takeAll))
    {scene : Scene} {a : Advance}
    (hadvance : s.supervisor.advance (s.sees scene) .takeAll = some a) :
    (s.moved i wish .takeAll a).Accounted := by
  intro n t' ht' hruns
  have hcall : a.call = .signalAll (s.supervisor.streams.filterMap fun p => p.2.running) := by
    cases hadvance
    rfl
  have herrand : a.errand = .nothing := by
    cases hadvance
    rfl
  have hsame : (s.moved i wish .takeAll a).tasks = s.tasks :=
    tasksAfter_eq s i rfl (by simp [herrand])
  rw [hsame] at ht'
  obtain ⟨entry, hentry, hsource⟩ := (h t'.consumer).registered n t' ht' hruns rfl
  have hentered := (h t'.consumer).entered entry hentry
  cases hstopping : entry.stopping with
  | false =>
      -- the entry has its consumer, which the shutdown takes
      have hrunning := hentered.running
      rw [hstopping, hsource] at hrunning
      refine .inr (.inr (waits_moved hi ?_))
      rw [hcall]
      exact List.mem_filterMap.2 ⟨(t'.consumer, entry), Assoc.mem_of_find? hentry, hrunning⟩
  | true =>
      obtain ⟨j, d, hremoves⟩ := hentered.removed hstopping
      obtain ⟨entry', hentry', -, hminds⟩ := (h t'.consumer).marked j d hremoves
      rw [hentry] at hentry'
      cases hentry'
      obtain ⟨w, hj, hd⟩ := hremoves
      -- the removal goes on while the entries are taken
      have hstays : n ∈ d.holds → (s.moved i wish .takeAll a).Waits n := by
        intro hn
        rcases Waits.moved (a := a) ⟨j, w, d, hj, hn⟩ hi with hnone | hwaits
        · cases hnone
        · exact hwaits
      cases d with
      | signal id m =>
          obtain rfl := HealthSource.worker.inj (hsource.symm.trans hminds)
          exact .inr (.inr (hstays (List.mem_singleton_self n)))
      | drain id m deadline =>
          obtain rfl := HealthSource.worker.inj (hsource.symm.trans hminds)
          exact .inr (.inr (hstays (List.mem_singleton_self n)))
      | keep id m =>
          obtain ⟨hsource', t, ht, hover⟩ := hminds
          obtain rfl := HealthSource.worker.inj (hsource.symm.trans hsource')
          rw [ht'] at ht
          cases ht
          rcases hover with hended | houtlived
          · rw [hruns] at hended
            cases hended
          · exact .inr (.inl houtlived)
      | forget id =>
          have hended := hminds n hsource
          rw [hasEnded_eq ht', hruns] at hended
          cases hended
      | _ => cases hd

/-- Once the entries are taken, everybody stays accounted for. -/
theorem Accounted.step (h : s.Accounted) (hemptied : s.emptied = true) (e : Event) :
    (s.step e).Accounted := by
  cases e with
  | begin wish =>
      intro n t ht hruns
      refine (h n t ht hruns).imp id (Or.imp id ?_)
      rintro ⟨j, w, c, hj, hn⟩
      exact ⟨j, w, c, getElem?_calls_begin hj wish, hn⟩
  | exit n =>
      intro m t' ht' hruns
      obtain ⟨t, ht, hruns', hages⟩ := (Older.exit s n).ran (s.length_exit n) ht' hruns
      rcases h m t ht hruns' with hlate | houtlived | hwaits
      · exact .inl (hages.late.trans hlate)
      · exact .inr (.inl (hages.outlived houtlived))
      · exact .inr (.inr hwaits)
  | advance i scene =>
      rcases s.step_advance i scene with hsame | ⟨wish, c, a, hi, hadvance, hmoved⟩
      · rw [hsame]
        exact h
      · rw [hmoved]
        exact h.moved hemptied hi hadvance

/-- From the moment at which a shutdown takes the entries, everybody is accounted for. -/
theorem Accounted.run (events : List Event)
    (hemptied : (({} : Supervision).run events).emptied = true) :
    (({} : Supervision).run events).Accounted := by
  induction events using List.reverseRecOn with
  | nil => cases hemptied
  | append_singleton events e ih =>
      cases hbefore : (({} : Supervision).run events).emptied with
      | true =>
          rw [run_append_singleton]
          exact (ih hbefore).step hbefore e
      | false =>
          -- the entries are taken just now
          have horder := Orderly.run events hbefore
          rw [run_append_singleton] at hemptied ⊢
          generalize ({} : Supervision).run events = s at *
          cases e with
          | begin wish => rw [show s.emptied = true from hemptied] at hbefore; cases hbefore
          | exit n => rw [show s.emptied = true from hemptied] at hbefore; cases hbefore
          | advance i scene =>
              rcases s.step_advance i scene with hsame | ⟨wish, c, a, hi, hadvance, hmoved⟩
              · rw [hsame, hbefore] at hemptied
                cases hemptied
              · rw [hmoved] at hemptied ⊢
                have hempties : c.empties = true := by
                  rcases Bool.or_eq_true_iff.1 hemptied with htrue | htrue
                  · rw [hbefore] at htrue
                    cases htrue
                  · exact htrue
                cases c with
                | takeAll => exact horder.accounted hi hadvance
                | _ => cases hempties

/-! ## Closed to new streams -/

/-- The flag of a shutdown is set by a shutdown alone, and for good. -/
theorem shuttingDown_advance {u : Supervisor} {scene : Scene} {a : Advance}
    (h : u.advance scene c = some a) :
    a.supervisor.shuttingDown = (u.shuttingDown || c.closes) := by
  cases Supervisor.advances_of_advance h with
  | closes => exact (Bool.or_true _).symm
  | @keeps id n =>
      have hkeep : (u.keep id n).shuttingDown = u.shuttingDown := by
        unfold Supervisor.keep
        split <;> rfl
      exact hkeep.trans (Bool.or_false _).symm
  | _ => exact (Bool.or_false _).symm

/-- The first shutdown counts. -/
theorem closed_moved {a : Advance} {k : Nat} (h : s.closed = some k) :
    (s.moved i wish c a).closed = some k := by
  simp only [moved, h]
  cases c.closes <;> rfl

theorem closed_of_moved {a : Advance} {k : Nat} (h : (s.moved i wish c a).closed = some k) :
    s.closed = some k ∨ (c = .shutdown ∧ k = s.calls.length) := by
  cases c with
  | shutdown =>
      cases hclosed : s.closed with
      | none =>
          simp only [moved, hclosed] at h
          cases h
          exact .inr ⟨rfl, rfl⟩
      | some k' =>
          simp only [moved, hclosed] at h
          exact .inl h
  | _ => exact .inl h

/-- Every call has come to a point of its own course. -/
def OnCourse (s : Supervision) : Prop :=
  ∀ (j : Nat) (wish : Wish) (c : Call), s.calls[j]? = some (wish, c) → wish.Fits c

/-- What holds of a supervisor that shutdowns close to new streams. -/
structure Shut (s : Supervision) : Prop where
  flag : ∀ k, s.closed = some k → s.supervisor.shuttingDown = true
  /-- A stream whose addition began later is refused. -/
  refused : ∀ k j d c, s.closed = some k → k ≤ j → s.calls[j]? = some (.add d, c) →
    c = .add d ∨ c = .returned (.error .shutdown)
  /-- Whoever starts a consumer once the entries are taken had begun before. -/
  late : ∀ (n : Nat) (t : Task), s.tasks[n]? = some t → t.ended = false → t.late = true →
    ∃ k, s.closed = some k ∧ t.starter < k
  /-- Every shutdown first closes the supervisor, then takes the entries. -/
  course : ∀ (j : Nat) (c : Call), s.calls[j]? = some (.shutdown, c) →
    c = .shutdown ∨ (s.closed.isSome ∧ (c = .takeAll ∨ s.emptied = true))
  closed : s.emptied = true → s.closed.isSome

theorem Shut.begin : Shut {} where
  flag k hk := by cases hk
  refused k j d c hk := by cases hk
  late n t ht := by cases ht
  course j c hc := by cases hc
  closed h := by cases h

theorem isSome_closed_moved {a : Advance} (h : s.closed.isSome) :
    (s.moved i wish c a).closed.isSome := by
  obtain ⟨k, hk⟩ := Option.isSome_iff_exists.1 h
  rw [closed_moved hk]
  rfl

/-- Only a shutdown takes the entries, and only after it has closed the supervisor. -/
theorem Shut.closed_of_empties (h : s.Shut) (hfits : s.OnCourse)
    (hi : s.calls[i]? = some (wish, c)) (hempties : c.empties = true) : s.closed.isSome := by
  cases c with
  | takeAll =>
      have hwish := hfits i wish _ hi
      cases wish with
      | shutdown =>
          rcases h.course i _ hi with hcall | ⟨hclosed, -⟩
          · cases hcall
          · exact hclosed
      | add d => exact hwish.elim
      | remove id => exact hwish.elim
      | retry id => exact hwish.elim
  | _ => cases hempties

/-- Whoever starts a consumer had begun before the supervisor was closed. -/
theorem Shut.lt_of_spawn (h : s.Shut) (hfits : s.OnCourse) {k : Nat} (hclosed : s.closed = some k)
    {scene : Scene} {a : Advance} {d : StreamDefinition} {pipeline : Pipeline}
    (hi : s.calls[i]? = some (wish, c))
    (hadvance : s.supervisor.advance (s.sees scene) c = some a)
    (hspawn : a.errand = .spawn d pipeline) : i < k := by
  by_contra hge
  have hwish := hfits i wish c hi
  cases Supervisor.advances_of_advance hadvance with
  | started hnone =>
      -- a later addition does not come so far as to wait for the lock
      cases wish with
      | add d' =>
          rcases h.refused k i d' _ hclosed (Nat.le_of_not_lt hge) hi with hcall | hcall
          · cases hcall
          · cases hcall
      | remove id => exact hwish.elim
      | retry id => exact hwish.elim
      | shutdown => exact hwish.elim
  | _ => cases hspawn

theorem Shut.moved (h : s.Shut) (hfits : s.OnCourse) {scene : Scene} {a : Advance}
    (hi : s.calls[i]? = some (wish, c))
    (hadvance : s.supervisor.advance (s.sees scene) c = some a) : (s.moved i wish c a).Shut where
  flag k hk := by
    change a.supervisor.shuttingDown = true
    rw [shuttingDown_advance hadvance]
    rcases closed_of_moved hk with hclosed | ⟨rfl, -⟩
    · rw [h.flag k hclosed]
      rfl
    · exact Bool.or_true _
  refused k j d e hk hle hj := by
    rw [getElem?_calls_moved hi] at hj
    by_cases hij : i = j
    · subst hij
      rw [if_pos rfl] at hj
      cases hj
      rcases closed_of_moved hk with hclosed | ⟨rfl, -⟩
      · -- the addition finds the flag set
        rcases h.refused k i d c hclosed hle hi with rfl | rfl
        · simp only [Supervisor.advance, Supervisor.checkAdd, h.flag k hclosed, if_true] at hadvance
          cases hadvance
          exact .inr rfl
        · cases hadvance
      · exact (hfits i _ _ hi).elim
    · rw [if_neg hij] at hj
      rcases closed_of_moved hk with hclosed | ⟨-, rfl⟩
      · exact h.refused k j d e hclosed hle hj
      · have hlt : j < s.calls.length := (List.getElem?_eq_some_iff.1 hj).1
        omega
  late n t' ht' hruns hlate := by
    have hold : Older s (s.moved i wish c a) := .tasksAfter s i c a.errand rfl
    rcases hold.running ht' hruns with hge | ⟨t, ht, hruns', hages⟩
    · obtain ⟨⟨d, pipeline, hspawn⟩, hstarter, hlate'⟩ := new_of_tasksAfter ht' hge
      obtain ⟨k, hclosed⟩ := Option.isSome_iff_exists.1 (h.closed (hlate'.symm.trans hlate))
      refine ⟨k, closed_moved hclosed, ?_⟩
      rw [hstarter]
      exact h.lt_of_spawn hfits hclosed hi hadvance hspawn
    · obtain ⟨k, hclosed, hlt⟩ := h.late n t ht hruns' (hages.late ▸ hlate)
      exact ⟨k, closed_moved hclosed, hages.starter ▸ hlt⟩
  course j e hj := by
    rw [getElem?_calls_moved hi] at hj
    by_cases hij : i = j
    · subst hij
      rw [if_pos rfl] at hj
      cases hj
      right
      rcases h.course i c hi with rfl | ⟨hclosed, htook⟩
      · cases hadvance
        refine ⟨?_, .inl rfl⟩
        cases hclosed : s.closed <;> simp [Supervision.moved, Call.closes, hclosed]
      · refine ⟨isSome_closed_moved hclosed, .inr ?_⟩
        rcases htook with rfl | hemptied
        · exact Bool.or_true _
        · exact Bool.or_eq_true_iff.2 (.inl hemptied)
    · rw [if_neg hij] at hj
      rcases h.course j e hj with hcall | ⟨hclosed, htook⟩
      · exact .inl hcall
      · refine .inr ⟨isSome_closed_moved hclosed, htook.imp id ?_⟩
        intro hemptied
        exact Bool.or_eq_true_iff.2 (.inl hemptied)
  closed hemptied := by
    apply isSome_closed_moved
    rcases Bool.or_eq_true_iff.1 hemptied with hbefore | hempties
    · exact h.closed hbefore
    · exact h.closed_of_empties hfits hi hempties

theorem Shut.beginCall (h : s.Shut) (wish : Wish) : (s.step (.begin wish)).Shut where
  flag := h.flag
  refused k j d c hk hle hj := by
    rcases calls_step hj with hwas | ⟨hbegin, -, rfl⟩ | ⟨scene, e, a, hadvance, -⟩
    · exact h.refused k j d c hk hle hwas
    · exact .inl rfl
    · cases hadvance
  late := h.late
  course j c hj := by
    rcases calls_step hj with hwas | ⟨hbegin, -, rfl⟩ | ⟨scene, e, a, hadvance, -⟩
    · exact h.course j c hwas
    · exact .inl rfl
    · cases hadvance
  closed := h.closed

theorem Shut.exit (h : s.Shut) (n : Nat) : (s.step (.exit n)).Shut where
  flag := h.flag
  refused := h.refused
  late m t' ht' hruns hlate := by
    obtain ⟨t, ht, hruns', hages⟩ := (Older.exit s n).ran (s.length_exit n) ht' hruns
    obtain ⟨k, hclosed, hlt⟩ := h.late m t ht hruns' (hages.late ▸ hlate)
    exact ⟨k, hclosed, hages.starter ▸ hlt⟩
  course := h.course
  closed := h.closed

theorem Shut.run (events : List Event) : (({} : Supervision).run events).Shut := by
  induction events using List.reverseRecOn with
  | nil => exact Shut.begin
  | append_singleton events e ih =>
      have hfits : (({} : Supervision).run events).OnCourse := by
        intro j wish c hj
        exact (calls_run events hj).2
      rw [run_append_singleton]
      cases e with
      | begin wish => exact ih.beginCall wish
      | exit n => exact ih.exit n
      | advance i scene =>
          rcases step_advance (({} : Supervision).run events) i scene with
            hsame | ⟨wish, c, a, hi, hadvance, hmoved⟩
          · rw [hsame]
            exact ih
          · rw [hmoved]
            exact ih.moved hfits hi hadvance

/-! ## What runs on -/

/-- Once a shutdown has returned, a consumer that runs has outlived the wait of somebody who waited
for it, or was started late by an addition that had begun before the supervisor was closed, or is
one that another call has yet to wait for. Every stream whose addition begins after the supervisor
was closed is refused. -/
theorem running_after_shutdown (events : List Event) (s : Supervision)
    (hrun : ({} : Supervision).run events = s) (i : Nat) (r : Except StreamFault Unit)
    (hreturned : s.calls[i]? = some (.shutdown, .returned r)) :
    ∃ k, s.closed = some k ∧
      (∀ (n : Nat) (t : Task), s.tasks[n]? = some t → t.ended = false →
        t.outlived = true ∨ (t.late = true ∧ t.starter < k) ∨ s.Waits n) ∧
      ∀ (j : Nat) (d : StreamDefinition) (r : Except StreamFault Unit), k ≤ j →
        s.calls[j]? = some (.add d, .returned r) → r = .error .shutdown := by
  subst hrun
  have hshut := Shut.run events
  rcases hshut.course i _ hreturned with hcall | ⟨hsome, hcall | hemptied⟩
  · cases hcall
  · cases hcall
  · obtain ⟨k, hclosed⟩ := Option.isSome_iff_exists.1 hsome
    refine ⟨k, hclosed, ?_, ?_⟩
    · intro n t ht hruns
      rcases Accounted.run events hemptied n t ht hruns with hlate | houtlived | hwaits
      · obtain ⟨k', hclosed', hlt⟩ := hshut.late n t ht hruns hlate
        rw [hclosed] at hclosed'
        cases hclosed'
        exact .inr (.inl ⟨hlate, hlt⟩)
      · exact .inl houtlived
      · exact .inr (.inr hwaits)
    · intro j d r hle hj
      rcases hshut.refused k j d _ hclosed hle hj with hcall | hcall
      · cases hcall
      · exact Call.returned.inj hcall

/-- All rooms. -/
def rooms : StreamDefinition := ⟨"rooms", { baseDn := "dc=x" }, []⟩

/-- All printers. -/
def printers : StreamDefinition := ⟨"printers", { baseDn := "dc=x" }, []⟩

/-- Two streams are added. A removal marks one of them, and the addition of a third finds the flag
clear. Then a shutdown takes the entry of the other one and waits for it, and a second shutdown
finds nothing to wait for and returns. Last, the third stream is entered. -/
def hasty : List Event :=
  [.begin (.add people), .advance 0 impatient, .advance 0 impatient,
    .begin (.add rooms), .advance 1 impatient, .advance 1 impatient,
    .begin (.remove "people"), .advance 2 impatient,
    .begin (.add printers), .advance 3 impatient,
    .begin .shutdown, .advance 4 impatient, .advance 4 impatient, .advance 4 impatient,
    .begin .shutdown, .advance 5 impatient, .advance 5 impatient, .advance 5 impatient,
    .advance 5 impatient,
    .advance 3 impatient]

/-- The second shutdown has returned, all three consumers run, and nobody has stopped waiting for
any of them. -/
theorem running_after_shutdown_hasty :
    (({} : Supervision).run hasty).calls.map Prod.snd =
        [.returned (.ok ()), .returned (.ok ()), .signal "people" 0, .returned (.ok ()),
          .drainAll [1] 0, .returned (.ok ())] ∧
      (({} : Supervision).run hasty).tasks =
        [⟨"people", 0, false, false, false⟩, ⟨"rooms", 1, false, false, false⟩,
          ⟨"printers", 3, true, false, false⟩] ∧
      ∃ k, (({} : Supervision).run hasty).closed = some k ∧ 3 < k := by
  have htask : (({} : Supervision).run hasty).tasks[2]? =
      some ⟨"printers", 3, true, false, false⟩ := by rfl
  have hreturned : (({} : Supervision).run hasty).calls[5]? =
      some (.shutdown, .returned (.ok ())) := by rfl
  obtain ⟨k, hclosed, hrunning, -⟩ := running_after_shutdown hasty _ rfl 5 _ hreturned
  refine ⟨by rfl, by rfl, k, hclosed, ?_⟩
  rcases hrunning 2 _ htask rfl with houtlived | ⟨-, hlt⟩ | ⟨j, wish, c, hcall, hholds⟩
  · cases houtlived
  · exact hlt
  · -- no call has heard of it
    have hmem : (wish, c) ∈ (({} : Supervision).run hasty).calls := List.mem_of_getElem? hcall
    have hcalls : (({} : Supervision).run hasty).calls =
        [(.add people, .returned (.ok ())), (.add rooms, .returned (.ok ())),
          (.remove "people", .signal "people" 0), (.add printers, .returned (.ok ())),
          (.shutdown, .drainAll [1] 0), (.shutdown, .returned (.ok ()))] := by rfl
    rw [hcalls] at hmem
    simp only [List.mem_cons, Prod.mk.injEq, List.not_mem_nil, or_false] at hmem
    rcases hmem with ⟨-, rfl⟩ | ⟨-, rfl⟩ | ⟨-, rfl⟩ | ⟨-, rfl⟩ | ⟨-, rfl⟩ | ⟨-, rfl⟩ <;>
      simp [Call.holds] at hholds

end ChangeRelay.Supervision
