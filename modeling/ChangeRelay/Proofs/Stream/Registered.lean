import ChangeRelay.Proofs.Stream.Supervision

/-!
# One consumer per stream

As long as no shutdown has taken the entries, every consumer that runs is the one of its entry, and
only one removal is under way for an entry at a time, whatever is added, removed and retried side by
side.
-/

namespace ChangeRelay.Supervision

variable {s s' : Supervision} {i j n : Nat} {id : String} {wish : Wish} {c c' : Call}

/-! ## Order -/

/-- What a removal knows of the worker whose entry it has marked. -/
def Minds (s : Supervision) (source : HealthSource) : Call → Prop
  | .signal _ n | .drain _ n _ => source = .worker n
  | .keep _ n =>
    source = .worker n ∧ ∃ t, s.tasks[n]? = some t ∧ (t.ended = true ∨ t.outlived = true)
  | .forget _ => ∀ n, source = .worker n → s.hasEnded n = true
  | _ => True

/-- An entry in order: it has its worker unless a removal has taken it out, and then the removal is
still under way. -/
structure Entered (s : Supervision) (id : String) (entry : StreamEntry) : Prop where
  running : entry.running = if entry.stopping then none else entry.source.worker?
  started : ∀ n, entry.source = .worker n → n < s.tasks.length
  removed : entry.stopping = true → ∃ i c, s.Removes i c id

/-- A stream in order. -/
structure OrderlyAt (s : Supervision) (id : String) : Prop where
  /-- The consumer that runs is the one of the entry. -/
  registered : ∀ (n : Nat) (t : Task), s.tasks[n]? = some t → t.ended = false → t.consumer = id →
    ∃ entry, Assoc.find? id s.supervisor.streams = some entry ∧ entry.source = .worker n
  entered : ∀ entry, Assoc.find? id s.supervisor.streams = some entry → s.Entered id entry
  /-- Whoever removes the stream has marked the entry. -/
  marked : ∀ i c, s.Removes i c id → ∃ entry, Assoc.find? id s.supervisor.streams = some entry ∧
    entry.stopping = true ∧ s.Minds entry.source c
  single : ∀ i j c d, s.Removes i c id → s.Removes j d id → i = j

/-- All streams in order. -/
def Orderly (s : Supervision) : Prop := ∀ id, s.OrderlyAt id

theorem Orderly.begin : Orderly {} := by
  intro id
  refine ⟨?_, ?_, ?_, ?_⟩
  · intro n t ht
    cases ht
  · intro entry hentry
    cases hentry
  · rintro i c ⟨wish, hcall, -⟩
    cases hcall
  · rintro i j c d ⟨wish, hcall, -⟩
    cases hcall

/-- What a removal knows stays true. -/
theorem Minds.mono {source : HealthSource} (hold : Older s s')
    (hstarted : ∀ n, source = .worker n → n < s.tasks.length) (h : s.Minds source c) :
    s'.Minds source c := by
  cases c with
  | keep id n =>
      obtain ⟨hsource, t, ht, hover⟩ := h
      obtain ⟨t', ht', hages⟩ := hold n t ht
      exact ⟨hsource, t', ht', hover.imp hages.ended hages.outlived⟩
  | forget id =>
      intro n hsource
      exact hold.hasEnded (hstarted n hsource) (h n hsource)
  | signal id n => exact h
  | drain id n deadline => exact h
  | _ => trivial

namespace OrderlyAt

/-- A step that leaves the entry and the removals of a stream as they are, and starts no consumer
for it, leaves it in order. -/
theorem frame (h : s.OrderlyAt id) (hold : Older s s')
    (hnew : ∀ (n : Nat) (t : Task), s'.tasks[n]? = some t → s.tasks.length ≤ n → t.consumer ≠ id)
    (hlength : s.tasks.length ≤ s'.tasks.length)
    (hfind : Assoc.find? id s'.supervisor.streams = Assoc.find? id s.supervisor.streams)
    (hremoves : ∀ j d, s'.Removes j d id ↔ s.Removes j d id) : s'.OrderlyAt id where
  registered n t' ht' hruns hid := by
    rw [hfind]
    rcases hold.running ht' hruns with hge | ⟨t, ht, hruns', hages⟩
    · exact absurd hid (hnew n t' ht' hge)
    · exact h.registered n t ht hruns' (hages.consumer ▸ hid)
  entered entry hentry := by
    rw [hfind] at hentry
    have hentered := h.entered entry hentry
    refine ⟨hentered.running, ?_, ?_⟩
    · intro n hsource
      exact Nat.lt_of_lt_of_le (hentered.started n hsource) hlength
    · intro hstopping
      obtain ⟨i, c, hc⟩ := hentered.removed hstopping
      exact ⟨i, c, (hremoves i c).2 hc⟩
  marked i c hc := by
    rw [hremoves] at hc
    obtain ⟨entry, hentry, hstopping, hminds⟩ := h.marked i c hc
    rw [hfind]
    exact ⟨entry, hentry, hstopping, hminds.mono hold (h.entered entry hentry).started⟩
  single i j c d hc hd := h.single i j c d ((hremoves i c).1 hc) ((hremoves j d).1 hd)

/-- A removal goes from one point to the next. -/
theorem goesOn (h : s.OrderlyAt id) (hold : Older s s')
    (hlength : s'.tasks.length = s.tasks.length)
    (hfind : Assoc.find? id s'.supervisor.streams = Assoc.find? id s.supervisor.streams)
    (hi : s.calls[i]? = some (wish, c)) (hcalls : s'.calls = s.calls.set i (wish, c'))
    (hc : c.removes? = some id) (hc' : c'.removes? = some id)
    (hminds : ∀ entry, Assoc.find? id s.supervisor.streams = some entry →
      s.Minds entry.source c → s'.Minds entry.source c') : s'.OrderlyAt id where
  registered n t' ht' hruns hid := by
    rw [hfind]
    obtain ⟨t, ht, hruns', hages⟩ := hold.ran hlength ht' hruns
    exact h.registered n t ht hruns' (hages.consumer ▸ hid)
  entered entry hentry := by
    rw [hfind] at hentry
    have hentered := h.entered entry hentry
    refine ⟨hentered.running, ?_, ?_⟩
    · intro n hsource
      rw [hlength]
      exact hentered.started n hsource
    · intro _
      exact ⟨i, c', (removes_set hi hcalls).2 (.inl ⟨rfl, rfl, hc'⟩)⟩
  marked j d hd := by
    rw [hfind]
    rcases (removes_set hi hcalls).1 hd with ⟨-, rfl, -⟩ | ⟨hne, hd⟩
    · obtain ⟨entry, hentry, hstopping, hknows⟩ := h.marked i c ⟨wish, hi, hc⟩
      exact ⟨entry, hentry, hstopping, hminds entry hentry hknows⟩
    · exact absurd (h.single j i d c hd ⟨wish, hi, hc⟩) hne
  single j k d e hd he := by
    have hat : ∀ j d, s'.Removes j d id → j = i := by
      intro j d hd
      rcases (removes_set hi hcalls).1 hd with ⟨heq, -⟩ | ⟨hne, hd⟩
      · exact heq
      · exact absurd (h.single j i d c hd ⟨wish, hi, hc⟩) hne
    rw [hat j d hd, hat k e he]

/-- A new stream has nobody who removes it, and no consumer but its own. -/
theorem enters (h : s.OrderlyAt id) (hold : Older s s')
    (hnone : Assoc.find? id s.supervisor.streams = none) {entry : StreamEntry}
    (hfind : Assoc.find? id s'.supervisor.streams = some entry)
    (hstopping : entry.stopping = false) (hrunning : entry.running = entry.source.worker?)
    (hstarted : ∀ n, entry.source = .worker n → n < s'.tasks.length)
    (hnew : ∀ (n : Nat) (t : Task), s'.tasks[n]? = some t → s.tasks.length ≤ n →
      entry.source = .worker n)
    (hremoves : ∀ j d, s'.Removes j d id ↔ s.Removes j d id) : s'.OrderlyAt id := by
  have hunremoved : ∀ j d, ¬ s'.Removes j d id := by
    intro j d hd
    obtain ⟨entry', hentry', -⟩ := h.marked j d ((hremoves j d).1 hd)
    rw [hnone] at hentry'
    cases hentry'
  refine ⟨?_, ?_, ?_, ?_⟩
  · intro n t' ht' hruns hid
    refine ⟨entry, hfind, ?_⟩
    rcases hold.running ht' hruns with hge | ⟨t, ht, hruns', hages⟩
    · exact hnew n t' ht' hge
    · -- a consumer that ran before had an entry
      obtain ⟨entry', hentry', -⟩ := h.registered n t ht hruns' (hages.consumer ▸ hid)
      rw [hnone] at hentry'
      cases hentry'
  · intro entry' hentry'
    rw [hfind] at hentry'
    cases hentry'
    refine ⟨?_, hstarted, ?_⟩
    · rw [hstopping, hrunning]
      rfl
    · intro htrue
      rw [hstopping] at htrue
      cases htrue
  · intro j d hd
    exact absurd hd (hunremoved j d)
  · intro j k d e hd
    exact absurd hd (hunremoved j d)

/-- A removal begins. -/
theorem begins (h : s.OrderlyAt id) (htasks : s'.tasks = s.tasks) {entry : StreamEntry}
    (hentry : Assoc.find? id s.supervisor.streams = some entry) (hstopping : entry.stopping = false)
    (hfind : Assoc.find? id s'.supervisor.streams =
      some { entry with running := none, stopping := true })
    (hi : s.calls[i]? = some (wish, c)) (hcalls : s'.calls = s.calls.set i (wish, c'))
    (hc' : c'.removes? = some id) (hminds : s.Minds entry.source c') : s'.OrderlyAt id := by
  have hold : Older s s' := .of_eq htasks
  have hentered := h.entered entry hentry
  -- nobody else removes a stream that is not marked
  have hunremoved : ∀ j d, ¬ s.Removes j d id := by
    intro j d hd
    obtain ⟨entry', hentry', hmarked, -⟩ := h.marked j d hd
    rw [hentry] at hentry'
    cases hentry'
    rw [hstopping] at hmarked
    cases hmarked
  have hat : ∀ j d, s'.Removes j d id → j = i ∧ d = c' := by
    intro j d hd
    rcases (removes_set hi hcalls).1 hd with ⟨hj, hd, -⟩ | ⟨-, hd⟩
    · exact ⟨hj, hd⟩
    · exact absurd hd (hunremoved j d)
  refine ⟨?_, ?_, ?_, ?_⟩
  · intro n t ht hruns hid
    rw [htasks] at ht
    obtain ⟨entry', hentry', hsource⟩ := h.registered n t ht hruns hid
    rw [hentry] at hentry'
    cases hentry'
    exact ⟨_, hfind, hsource⟩
  · intro entry' hentry'
    rw [hfind] at hentry'
    cases hentry'
    refine ⟨rfl, ?_, ?_⟩
    · intro n hsource
      rw [htasks]
      exact hentered.started n hsource
    · intro _
      exact ⟨i, c', (removes_set hi hcalls).2 (.inl ⟨rfl, rfl, hc'⟩)⟩
  · intro j d hd
    obtain ⟨-, rfl⟩ := hat j d hd
    exact ⟨_, hfind, rfl, hminds.mono hold hentered.started⟩
  · intro j k d e hd he
    rw [(hat j d hd).1, (hat k e he).1]

/-- After the removal of a stream has gone, nobody removes it. -/
theorem unremoved (h : s.OrderlyAt id) (hi : s.calls[i]? = some (wish, c))
    (hcalls : s'.calls = s.calls.set i (wish, c')) (hc : c.removes? = some id)
    (hc' : c'.removes? = none) (j : Nat) (d : Call) : ¬ s'.Removes j d id := by
  intro hd
  rcases (removes_set hi hcalls).1 hd with ⟨-, -, hsome⟩ | ⟨hne, hd⟩
  · rw [hc'] at hsome
    cases hsome
  · exact hne (h.single j i d c hd ⟨wish, hi, hc⟩)

/-- A removal gives the worker back to its entry. -/
theorem keeps (h : s.OrderlyAt id) (htasks : s'.tasks = s.tasks)
    (hi : s.calls[i]? = some (wish, .keep id n)) (hcalls : s'.calls = s.calls.set i (wish, c'))
    (hc' : c'.removes? = none) (hsupervisor : s'.supervisor = s.supervisor.keep id n) :
    s'.OrderlyAt id := by
  have hunremoved := h.unremoved hi hcalls rfl hc'
  obtain ⟨entry, hentry, -, hsource, -⟩ := h.marked i _ ⟨wish, hi, rfl⟩
  have hfind : Assoc.find? id s'.supervisor.streams =
      some { entry with running := some n, stopping := false } := by
    rw [hsupervisor, Supervisor.keep, hentry]
    exact Assoc.find?_insert_self _ _ _
  refine ⟨?_, ?_, ?_, ?_⟩
  · intro m t ht hruns hid
    rw [htasks] at ht
    obtain ⟨entry', hentry', hsource'⟩ := h.registered m t ht hruns hid
    rw [hentry] at hentry'
    cases hentry'
    exact ⟨_, hfind, hsource'⟩
  · intro entry' hentry'
    rw [hfind] at hentry'
    cases hentry'
    refine ⟨?_, ?_, ?_⟩
    · simp only [hsource, HealthSource.worker?, Bool.false_eq_true, if_false]
    · intro m hm
      rw [htasks]
      exact (h.entered entry hentry).started m hm
    · intro htrue
      cases htrue
  · intro j d hd
    exact absurd hd (hunremoved j d)
  · intro j k d e hd
    exact absurd hd (hunremoved j d)

/-- A removal forgets the entry, whose consumer has ended. -/
theorem forgets (h : s.OrderlyAt id) (htasks : s'.tasks = s.tasks)
    (hi : s.calls[i]? = some (wish, .forget id)) (hcalls : s'.calls = s.calls.set i (wish, c'))
    (hc' : c'.removes? = none)
    (hfind : Assoc.find? id s'.supervisor.streams = none) : s'.OrderlyAt id := by
  have hunremoved := h.unremoved hi hcalls rfl hc'
  obtain ⟨entry, hentry, -, hended⟩ := h.marked i _ ⟨wish, hi, rfl⟩
  refine ⟨?_, ?_, ?_, ?_⟩
  · intro m t ht hruns hid
    rw [htasks] at ht
    obtain ⟨entry', hentry', hsource⟩ := h.registered m t ht hruns hid
    rw [hentry] at hentry'
    cases hentry'
    have hover := hended m hsource
    rw [hasEnded_eq ht, hruns] at hover
    cases hover
  · intro entry' hentry'
    rw [hfind] at hentry'
    cases hentry'
  · intro j d hd
    exact absurd hd (hunremoved j d)
  · intro j k d e hd
    exact absurd hd (hunremoved j d)

end OrderlyAt

/-- A step that touches no entry and no removal leaves all streams in order. -/
theorem Orderly.still (h : s.Orderly) (hold : Older s s')
    (hlength : s'.tasks.length = s.tasks.length)
    (hstreams : s'.supervisor.streams = s.supervisor.streams)
    (hi : s.calls[i]? = some (wish, c)) (hcalls : s'.calls = s.calls.set i (wish, c'))
    (hc : c.removes? = none) (hc' : c'.removes? = none) : s'.Orderly := by
  intro id
  refine (h id).frame hold ?_ (Nat.le_of_eq hlength.symm) (by rw [hstreams]) ?_
  · intro n t ht hge
    have hlt : n < s'.tasks.length := (List.getElem?_eq_some_iff.1 ht).1
    omega
  · apply removes_set_of_ne hi hcalls
    · simp [hc]
    · simp [hc']

/-- A step that touches the entry of one stream leaves the others in order. -/
theorem Orderly.elsewhere {id' : String} (h : s.Orderly) (hold : Older s s')
    (hlength : s'.tasks.length = s.tasks.length)
    (hfind : Assoc.find? id' s'.supervisor.streams = Assoc.find? id' s.supervisor.streams)
    (hi : s.calls[i]? = some (wish, c)) (hcalls : s'.calls = s.calls.set i (wish, c'))
    (hc : c.removes? ≠ some id') (hc' : c'.removes? ≠ some id') : s'.OrderlyAt id' := by
  refine (h id').frame hold ?_ (Nat.le_of_eq hlength.symm) hfind
    (removes_set_of_ne hi hcalls hc hc')
  intro n t ht hge
  have hlt : n < s'.tasks.length := (List.getElem?_eq_some_iff.1 ht).1
  omega

/-- A new entry, with its consumer if it has one, leaves all streams in order. -/
theorem Orderly.enters (h : s.Orderly) (hold : Older s s') {entry : StreamEntry}
    (hnone : Assoc.find? id s.supervisor.streams = none)
    (hstreams : s'.supervisor.streams = Assoc.insert id entry s.supervisor.streams)
    (hstopping : entry.stopping = false) (hrunning : entry.running = entry.source.worker?)
    (hlength : s.tasks.length ≤ s'.tasks.length)
    (hstarted : ∀ n, entry.source = .worker n → n < s'.tasks.length)
    (hnew : ∀ (n : Nat) (t : Task), s'.tasks[n]? = some t → s.tasks.length ≤ n →
      t.consumer = id ∧ entry.source = .worker n)
    (hremoves : ∀ id j d, s'.Removes j d id ↔ s.Removes j d id) : s'.Orderly := by
  intro id'
  by_cases hid : id' = id
  · subst hid
    have hfind : Assoc.find? id' s'.supervisor.streams = some entry := by
      rw [hstreams, Assoc.find?_insert_self]
    exact (h id').enters hold hnone hfind hstopping hrunning hstarted
      (fun n t ht hge => (hnew n t ht hge).2) (hremoves id')
  · refine (h id').frame hold ?_ hlength ?_ (hremoves id')
    · intro n t ht hge heq
      exact hid (heq.symm.trans (hnew n t ht hge).1)
    · rw [hstreams, Assoc.find?_insert, if_neg hid]

/-- Steps of the removal of one stream leave all streams in order if they leave that one so. -/
theorem Orderly.removal (h : s.Orderly) (hold : Older s s')
    (hlength : s'.tasks.length = s.tasks.length) (hi : s.calls[i]? = some (wish, c))
    (hcalls : s'.calls = s.calls.set i (wish, c'))
    (hc : ∀ id', c.removes? = some id' → id' = id) (hc' : ∀ id', c'.removes? = some id' → id' = id)
    (hfind : ∀ id', id' ≠ id →
      Assoc.find? id' s'.supervisor.streams = Assoc.find? id' s.supervisor.streams)
    (hid : s'.OrderlyAt id) : s'.Orderly := by
  intro id'
  by_cases heq : id' = id
  · exact heq ▸ hid
  · exact h.elsewhere hold hlength (hfind id' heq) hi hcalls (fun hsome => heq (hc id' hsome))
      fun hsome => heq (hc' id' hsome)

/-- A step of a call that does not take all entries leaves the streams in order. -/
theorem Orderly.advance (h : s.Orderly) {scene : Scene} {a : Advance}
    (hi : s.calls[i]? = some (wish, c)) (hadvance : s.supervisor.advance (s.sees scene) c = some a)
    (hempties : c.empties = false) (hsupervisor : s'.supervisor = a.supervisor)
    (htasks : s'.tasks = s.tasksAfter i c a.errand)
    (hcalls : s'.calls = s.calls.set i (wish, a.call)) : s'.Orderly := by
  have hold : Older s s' := .tasksAfter s i c a.errand htasks
  -- most steps touch no entry and no removal, and start nothing
  have hquiet : (∀ d pipeline, a.errand ≠ .spawn d pipeline) →
      a.supervisor.streams = s.supervisor.streams → c.removes? = none → a.call.removes? = none →
      s'.Orderly := by
    intro herrand hstreams hc hc'
    have hlength : s'.tasks.length = s.tasks.length := by
      rw [htasks, length_tasksAfter s i c herrand]
    exact h.still hold hlength (by rw [hsupervisor, hstreams]) hi hcalls hc hc'
  cases Supervisor.advances_of_advance hadvance with
  | refused hcheck => exact hquiet (by simp) rfl rfl rfl
  | admitted hcheck => exact hquiet (by simp) rfl rfl rfl
  | duplicate => exact hquiet (by simp) rfl rfl rfl
  | irremovable => exact hquiet (by simp) rfl rfl rfl
  | unretried => exact hquiet (by simp) rfl rfl rfl
  | retries => exact hquiet (by simp) rfl rfl rfl
  | wakes => exact hquiet (by simp) rfl rfl rfl
  | closes => exact hquiet (by simp) rfl rfl rfl
  | signalsAll => exact hquiet (by simp) rfl rfl rfl
  | drainedAll => exact hquiet (by simp) rfl rfl rfl
  | takesAll => cases hempties
  | @invalid d e readings hnone =>
      have hsame : s'.tasks = s.tasks := htasks.trans (tasksAfter_eq s i rfl (by simp))
      refine h.enters hold hnone (congrArg Supervisor.streams hsupervisor) rfl rfl
        (Nat.le_of_eq (congrArg List.length hsame.symm)) ?_ ?_ ?_
      · intro n hsource
        cases hsource
      · intro n t ht hge
        rw [hsame] at ht
        have hlt : n < s.tasks.length := (List.getElem?_eq_some_iff.1 ht).1
        omega
      · intro id
        exact removes_set_of_ne hi hcalls (by simp [Call.removes?]) (by simp [Call.removes?])
  | @started d pipeline readings hnone =>
      have hspawned : s'.tasks =
          s.tasks ++ [{ consumer := d.consumer, starter := i, late := s.emptied }] := by
        have hbefore : s.tasksAfter i (.register d) .nothing = s.tasks :=
          tasksAfter_eq s i rfl (by simp)
        rw [htasks]
        exact congrArg (· ++ _) hbefore
      have hlength : s'.tasks.length = s.tasks.length + 1 := by simp [hspawned]
      refine h.enters hold hnone (congrArg Supervisor.streams hsupervisor) rfl rfl (by omega)
        ?_ ?_ ?_
      · intro n hsource
        cases hsource
        change s.tasks.length < s'.tasks.length
        omega
      · intro n t ht hge
        have hlt : n < s'.tasks.length := (List.getElem?_eq_some_iff.1 ht).1
        have hn : n = s.tasks.length := by omega
        subst hn
        rw [hspawned, List.getElem?_concat_length] at ht
        cases ht
        exact ⟨rfl, rfl⟩
      · intro id
        exact removes_set_of_ne hi hcalls (by simp [Call.removes?]) (by simp [Call.removes?])
  | @removes id entry hentry hstopping =>
      have hsame : s'.tasks = s.tasks := htasks.trans (tasksAfter_eq s i rfl (by simp))
      -- the entry has its worker, if it ever had one
      have hrunning := ((h id).entered entry hentry).running
      rw [hstopping, if_neg Bool.false_ne_true] at hrunning
      obtain ⟨hc', hminds⟩ : (Supervisor.nextOf id entry.running).removes? = some id ∧
          s.Minds entry.source (Supervisor.nextOf id entry.running) := by
        rw [hrunning]
        cases hsource : entry.source with
        | worker n => exact ⟨rfl, rfl⟩
        | failed reason =>
            refine ⟨rfl, ?_⟩
            intro n hn
            cases hn
      have hfind : ∀ id', Assoc.find? id' s'.supervisor.streams =
          if id' = id then some { entry with running := none, stopping := true }
          else Assoc.find? id' s.supervisor.streams := by
        intro id'
        rw [hsupervisor, Assoc.find?_insert]
      refine h.removal hold (congrArg List.length hsame) hi hcalls (fun _ hsome => nomatch hsome)
        (fun id' hsome => ?_) (fun id' hne => by rw [hfind, if_neg hne]) ?_
      · exact (Option.some.inj (hc'.symm.trans hsome)).symm
      · exact (h id).begins hsame hentry hstopping (by rw [hfind, if_pos rfl]) hi hcalls hc' hminds
  | @signals id n =>
      have hsame : s'.tasks = s.tasks := htasks.trans (tasksAfter_eq s i rfl (by simp))
      have hlength := congrArg List.length hsame
      refine h.removal hold hlength hi hcalls (fun _ hsome => (Option.some.inj hsome).symm)
        (fun _ hsome => (Option.some.inj hsome).symm) (fun _ _ => by rw [hsupervisor]) ?_
      exact (h id).goesOn hold hlength (by rw [hsupervisor]) hi hcalls rfl rfl
        fun _ _ hknows => hknows
  | @drained id n deadline hended =>
      have hlength : s'.tasks.length = s.tasks.length := by
        rw [htasks, length_tasksAfter s i _ (by simp)]
      refine h.removal hold hlength hi hcalls (fun _ hsome => (Option.some.inj hsome).symm)
        (fun _ hsome => (Option.some.inj hsome).symm) (fun _ _ => by rw [hsupervisor]) ?_
      refine (h id).goesOn hold hlength (by rw [hsupervisor]) hi hcalls rfl rfl ?_
      intro entry hentry hsource m hm
      have heq : m = n := by
        rw [hsource] at hm
        exact (HealthSource.worker.inj hm).symm
      subst heq
      exact hold.hasEnded (((h id).entered entry hentry).started m hm) hended
  | @outlasted id n deadline =>
      have hlength : s'.tasks.length = s.tasks.length := by
        rw [htasks, length_tasksAfter s i _ (by simp)]
      refine h.removal hold hlength hi hcalls (fun _ hsome => (Option.some.inj hsome).symm)
        (fun _ hsome => (Option.some.inj hsome).symm) (fun _ _ => by rw [hsupervisor]) ?_
      refine (h id).goesOn hold hlength (by rw [hsupervisor]) hi hcalls rfl rfl ?_
      intro entry hentry hsource
      have hlt := ((h id).entered entry hentry).started n hsource
      refine ⟨hsource, _, ?_, s.tasks[n].over_leave (List.mem_singleton_self n)⟩
      rw [htasks]
      exact getElem?_tasksAfter s i _ _ (List.getElem?_eq_getElem hlt)
  | @keeps id n =>
      have hsame : s'.tasks = s.tasks := htasks.trans (tasksAfter_eq s i rfl (by simp))
      refine h.removal hold (congrArg List.length hsame) hi hcalls
        (fun _ hsome => (Option.some.inj hsome).symm) (fun _ hsome => nomatch hsome) ?_
        ((h id).keeps hsame hi hcalls rfl hsupervisor)
      intro id' hne
      rw [hsupervisor, Supervisor.find?_keep_of_ne hne]
  | @forgets id readings =>
      have hsame : s'.tasks = s.tasks := htasks.trans (tasksAfter_eq s i rfl (by simp))
      have hfind : ∀ id', Assoc.find? id' s'.supervisor.streams =
          if id' = id then none else Assoc.find? id' s.supervisor.streams := by
        intro id'
        rw [hsupervisor, Assoc.find?_erase]
      exact h.removal hold (congrArg List.length hsame) hi hcalls
        (fun _ hsome => (Option.some.inj hsome).symm) (fun _ hsome => nomatch hsome)
        (fun id' hne => by rw [hfind, if_neg hne])
        ((h id).forgets hsame hi hcalls rfl (by rw [hfind, if_pos rfl]))

theorem Orderly.beginCall (h : s.Orderly) (begun : Wish) : (s.step (.begin begun)).Orderly := by
  have hremoves : ∀ id j d, (s.step (.begin begun)).Removes j d id ↔ s.Removes j d id := by
    intro id j d
    constructor
    · rintro ⟨w, hw, hd⟩
      rcases calls_step hw with hwas | ⟨hbegin, -, rfl⟩ | ⟨scene, e, a, hadvance, -⟩
      · exact ⟨w, hwas, hd⟩
      · -- a call that begins removes nothing yet
        cases w <;> cases hd
      · cases hadvance
    · rintro ⟨w, hw, hd⟩
      exact ⟨w, getElem?_calls_begin hw begun, hd⟩
  intro id
  refine (h id).frame (.of_eq rfl) ?_ (Nat.le_refl _) rfl (hremoves id)
  intro n t ht hge
  have hlt : n < s.tasks.length := (List.getElem?_eq_some_iff.1 ht).1
  omega

theorem Orderly.exit (h : s.Orderly) (n : Nat) : (s.step (.exit n)).Orderly := by
  have hlength := s.length_exit n
  intro id
  refine (h id).frame (Older.exit s n) ?_ (Nat.le_of_eq hlength.symm) rfl fun j d => Iff.rfl
  intro m t ht hge
  have hlt : m < (s.step (.exit n)).tasks.length := (List.getElem?_eq_some_iff.1 ht).1
  omega

/-- Streams stay in order until a shutdown takes the entries. -/
theorem Orderly.step (h : s.Orderly) (e : Event) (hemptied : (s.step e).emptied = false) :
    (s.step e).Orderly := by
  cases e with
  | begin wish => exact h.beginCall wish
  | exit n => exact h.exit n
  | advance i scene =>
      rcases s.step_advance i scene with hsame | ⟨wish, c, a, hi, hadvance, hmoved⟩
      · rw [hsame]
        exact h
      · rw [hmoved] at hemptied ⊢
        have hempties := (Bool.or_eq_false_iff.1 hemptied).2
        exact h.advance hi hadvance hempties rfl rfl rfl

theorem Orderly.run (events : List Event)
    (hemptied : (({} : Supervision).run events).emptied = false) :
    (({} : Supervision).run events).Orderly := by
  induction events using List.reverseRecOn with
  | nil => exact Orderly.begin
  | append_singleton events e ih =>
      rw [run_append_singleton] at hemptied ⊢
      apply Orderly.step
      · apply ih
        by_contra hnot
        rw [emptied_of_step (by simpa using hnot)] at hemptied
        cases hemptied
      · exact hemptied

/-! ## Who runs -/

/-- Whatever is added, removed and retried side by side, whichever waits come to their deadlines and
whenever consumers end: as long as nobody shuts the supervisor down, no two consumers of one stream
run at a time. One that runs is the consumer of its entry, so that its name cannot be given to
another stream; and a removal can be made again, unless one is under way. -/
theorem one_runs_per_stream (events : List Event) (hcalm : .begin .shutdown ∉ events)
    (s : Supervision) (hrun : ({} : Supervision).run events = s) :
    (∀ (m n : Nat) (t u : Task), s.tasks[m]? = some t → s.tasks[n]? = some u →
        t.ended = false → u.ended = false → t.consumer = u.consumer → m = n) ∧
      ∀ (n : Nat) (t : Task), s.tasks[n]? = some t → t.ended = false →
        (∃ entry, Assoc.find? t.consumer s.supervisor.streams = some entry ∧
          entry.source = .worker n) ∧
        (∀ d prepared worker, d.consumer = t.consumer →
          s.supervisor.register d prepared worker =
            (s.supervisor, .error (StreamDefinition.duplicate t.consumer), [])) ∧
        ((∃ i c, s.Removes i c t.consumer) ∨
          (s.supervisor.beginRemove t.consumer).2 = .ok (some n)) := by
  subst hrun
  have horder := Orderly.run events (emptied_eq_false hcalm)
  constructor
  · intro m n t u ht hu hruns hruns' hsame
    obtain ⟨entry, hentry, hsource⟩ := (horder t.consumer).registered m t ht hruns rfl
    obtain ⟨entry', hentry', hsource'⟩ := (horder t.consumer).registered n u hu hruns' hsame.symm
    -- both are the consumer of the one entry
    rw [hentry] at hentry'
    cases hentry'
    rw [hsource] at hsource'
    exact HealthSource.worker.inj hsource'
  · intro n t ht hruns
    obtain ⟨entry, hentry, hsource⟩ := (horder t.consumer).registered n t ht hruns rfl
    have hentered := (horder t.consumer).entered entry hentry
    refine ⟨⟨entry, hentry, hsource⟩, ?_, ?_⟩
    · intro d prepared worker hd
      rw [← hd] at hentry ⊢
      exact Supervisor.register_of_find?_some hentry prepared worker
    · cases hstopping : entry.stopping with
      | true => exact .inl (hentered.removed hstopping)
      | false =>
          right
          have hrunning := hentered.running
          rw [hstopping, hsource] at hrunning
          simp only [Supervisor.beginRemove, hentry, hstopping, hrunning]
          rfl

/-- A stream of all people. -/
def people : StreamDefinition := ⟨"people", { baseDn := "dc=x" }, []⟩

/-- Every definition has a pipeline, and every wait is over at once. -/
def impatient : Scene where
  prepare d := .ok ⟨d.consumer, []⟩
  next := 0
  health _ := .streaming
  ended _ := false
  deadline := 0
  passed _ := true

/-- A stream is added, and two removals of it begin: the second is refused, the first one comes to
its deadline. Then the stream is added again. -/
def stubborn : List Event :=
  [.begin (.add people), .advance 0 impatient, .advance 0 impatient, .begin (.remove "people"),
    .begin (.remove "people"), .advance 1 impatient, .advance 2 impatient, .advance 1 impatient,
    .advance 1 impatient, .advance 1 impatient, .begin (.add people), .advance 3 impatient,
    .advance 3 impatient]

theorem one_runs_per_stream_stubborn :
    .begin .shutdown ∉ stubborn ∧
      (({} : Supervision).run stubborn).calls.map Prod.snd =
        [.returned (.ok ()), .returned (.error Supervisor.stillDraining),
          .returned (.error Supervisor.alreadyStopping),
          .returned (.error (StreamDefinition.duplicate "people"))] ∧
      ∃ t, (({} : Supervision).run stubborn).tasks[0]? = some t ∧ t.ended = false ∧
        ((({} : Supervision).run stubborn).supervisor.beginRemove "people").2 = .ok (some 0) := by
  have hcalm : .begin .shutdown ∉ stubborn := by simp [stubborn]
  have hcalls : (({} : Supervision).run stubborn).calls.map Prod.snd =
      [.returned (.ok ()), .returned (.error Supervisor.stillDraining),
        .returned (.error Supervisor.alreadyStopping),
        .returned (.error (StreamDefinition.duplicate "people"))] := by rfl
  have htask : (({} : Supervision).run stubborn).tasks[0]? =
      some ⟨"people", 0, false, false, true⟩ := by rfl
  refine ⟨hcalm, hcalls, _, htask, rfl, ?_⟩
  rcases ((one_runs_per_stream stubborn hcalm _ rfl).2 0 _ htask rfl).2.2 with hunder | hagain
  · -- all calls have returned
    obtain ⟨i, c, wish, hcall, hremoves⟩ := hunder
    have hmem : c ∈ (({} : Supervision).run stubborn).calls.map Prod.snd :=
      List.mem_map_of_mem (List.mem_of_getElem? hcall)
    rw [hcalls] at hmem
    simp only [List.mem_cons, List.not_mem_nil, or_false] at hmem
    rcases hmem with rfl | rfl | rfl | rfl <;> cases hremoves
  · exact hagain

end ChangeRelay.Supervision
