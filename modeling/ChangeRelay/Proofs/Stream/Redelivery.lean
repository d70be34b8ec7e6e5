import ChangeRelay.Proofs.Stream.Faults
import ChangeRelay.Proofs.Stream.Halt

/-!
# Where a stream is resumed

A stream that halts at a change has nothing in scope before it left beyond its checkpoint, so that
the change is the first that is handed out again after a retry, with the exception of a session
whose last commit found the checkpoint inside its range.
-/

namespace ChangeRelay

open Checkpoint (position)
open Feed (Log LogEntry Subscription)
open Store (Records)

/-! ## A group in its world -/

/-- A signal by which a feed reports a fault. -/
def Signal.reportsFault : Signal → Bool
  | .subscribed (.error _) | .item (.error _) => true
  | _ => false

/-- What does not come from the store was said as it is. -/
theorem Group.given_signal {ι : Type} [DecidableEq ι] {g : Group ι} {i : ι} {e : Group.Event ι}
    {m : Moment} {s : Signal} (h : g.given i e = some (m, s)) (hs : s.ofStore = false) :
    e = .signal i m s := by
  cases e <;> simp only [Group.given] at h <;> (repeat' split at h) <;> cases h
  · rename_i hj
    rw [hj.1]
  · cases hs
  · cases hs

namespace World

variable {ι : Type} [DecidableEq ι] {w : World ι} {like : Consumer} {known : List Records}
  {pos pos' s : UInt64} {i : ι} {e : Event ι} {m : Moment} {signal : Signal}

/-- Where a member is told something from. -/
inductive Tells (w : World ι) (i : ι) (e : Event ι) (m : Moment) : Signal → Prop where
  /-- The log has no part in it. -/
  | aside {signal : Signal} (hnothing : signal.handsOut = false)
      (hfault : signal.reportsFault = true → e = .group (.signal i m signal)) : Tells w i e m signal
  | subscribed {checkpoint : UInt64}
      (hphase : (w.group.member i).consumer.phase = .subscribing checkpoint) :
      Tells w i e m (.subscribed
        ((w.feed.subscribe (w.group.member i).consumer.query checkpoint).2.map fun _ => ()))
  | item {session : Session} {s : Subscription} {answer : FeedAnswer}
      (hphase : (w.group.member i).consumer.phase = .waiting session) (hsub : w.sub i = some s)
      (hanswer : (s.poll w.feed).2.2 = some answer) : Tells w i e m (.item answer)

theorem tells_of_given {e' : Group.Event ι} (hevent : w.groupEvent e = some e')
    (hgiven : w.group.given i e' = some (m, signal)) : w.Tells i e m signal := by
  cases e with
  | group e =>
      simp only [groupEvent] at hevent
      split at hevent
      · cases hevent
      · rename_i hnothing
        cases hevent
        refine .aside ?_ ?_
        · rw [Group.handsOut_of_given hgiven]
          simpa using hnothing
        · intro hfault
          rw [Group.given_signal hgiven ?_]
          cases signal <;> first | rfl | cases hfault
  | subscribe j m' =>
      simp only [groupEvent] at hevent
      split at hevent
      · rename_i checkpoint hphase
        cases hevent
        simp only [Group.given] at hgiven
        split at hgiven
        · rename_i hj
          cases hgiven
          obtain ⟨rfl, -⟩ := hj
          exact .subscribed hphase
        · cases hgiven
      · cases hevent
  | next j m' =>
      simp only [groupEvent] at hevent
      split at hevent
      · rename_i session s hphase hsub
        obtain ⟨answer, hanswer, rfl⟩ := Option.map_eq_some_iff.1 hevent
        simp only [Group.given] at hgiven
        split at hgiven
        · rename_i hj
          cases hgiven
          obtain ⟨rfl, -⟩ := hj
          exact .item hphase hsub hanswer
        · cases hgiven
      · cases hevent
  | _ => cases hevent

/-! ## What lies before a halt -/

/-- Before a position nothing is in scope that the log holds or that will ever be published, but
what is in hand and what the checkpoint has covered. -/
structure Clear (q : Query) (s pos : UInt64) (taken : List Change) (w : World ι) : Prop where
  published : ∀ n < s, n ≤ pos ∨ ∃ p ∈ w.log, n ≤ p.1
  inHand : ∀ c ∈ Log.inScope q w.feed.entries, c.seq < s → c ∈ taken ∨ c.seq ≤ pos

section Clear

variable {q : Query} {taken taken' : List Change}

omit [DecidableEq ι] in
theorem Clear.mono (h : Clear q s pos taken w) (hle : pos ≤ pos')
    (hsub : ∀ c ∈ taken, c ∈ taken' ∨ c.seq ≤ pos') : Clear q s pos' taken' w where
  published n hn := (h.published n hn).imp_left fun hpos => UInt64.le_trans hpos hle
  inHand c hc hlt := by
    rcases h.inHand c hc hlt with hmem | hpos
    · exact hsub c hmem
    · exact .inr (UInt64.le_trans hpos hle)

/-- What is clear stays clear, as changes are published in order. -/
theorem Clear.step (h : Clear q s pos taken w) (hord : Ordered w) (e : Event ι) :
    Clear q s pos taken (w.step e) := by
  cases w.step_logged e with
  | none hlog hentries =>
      refine ⟨?_, ?_⟩
      · rw [hlog]
        exact h.published
      · rw [hentries]
        exact h.inHand
  | @published seq entry hpositive hlast hstep =>
      rw [hstep]
      refine ⟨?_, ?_⟩
      · intro n hn
        refine (h.published n hn).imp_right ?_
        rintro ⟨p, hp, hle⟩
        exact ⟨p, List.mem_append_left _ hp, hle⟩
      · intro c hc hlt
        change c ∈ Log.inScope q (w.feed.publishRaw seq entry).entries at hc
        rw [hord.publishRaw_entries entry hlast] at hc
        obtain ⟨⟨entry', hmem, hok⟩, hsel⟩ := Log.mem_inScope.1 hc
        rcases List.mem_append.1 hmem with hmem | hmem
        · exact h.inHand c (Log.mem_inScope.2 ⟨⟨entry', hmem, hok⟩, hsel⟩) hlt
        · -- what is published now lies behind the log
          have hseq : c.seq = seq := congrArg Prod.fst (List.mem_singleton.1 hmem)
          rcases h.published c.seq hlt with hpos | ⟨p, hp, hle⟩
          · exact .inr hpos
          · exact absurd (hlast p hp) (UInt64.not_lt.2 (hseq ▸ hle))
  | trimmed he hstep =>
      rw [hstep]
      refine ⟨h.published, ?_⟩
      intro c hc
      exact h.inHand c (Log.inScope_mono (fun p hp => (w.feed.trimThrough_sublist _).subset hp) hc)

theorem Clear.run (h : Clear q s pos taken w) (hord : Ordered w) (events : List (Event ι)) :
    Clear q s pos taken (w.run events) := by
  induction events generalizing w with
  | nil => exact h
  | cons e rest ih => exact ih (h.step hord e) (hord.step e)

end Clear

/-- What a member has halted for, whose last commit is on its way. -/
def Pending (w : World ι) (i : ι) (s : UInt64) : Prop :=
  ∃ p f, (w.group.member i).consumer.phase = .committing p (.fail f) ∧ f.Halts ∧
    f.sequence?.or (w.group.member i).consumer.stalledAt = some s

section Halts

variable {f : StreamFault} {stalledAt : Option UInt64}

omit [DecidableEq ι] in
/-- Where a subscription has nothing left before a position, the session has it in hand. -/
theorem clear_of_beyond (h : Attends known like pos w i) (hord : Ordered w) {session : Session}
    (hphase : (w.group.member i).consumer.phase = .waiting session) {sub : Subscription}
    (hsub : w.sub i = some sub) {p : UInt64 × LogEntry} (hp : p ∈ w.feed.entries)
    (hbeyond : ∀ c ∈ Log.inScope like.query (w.feed.entries.filter fun p => sub.cursor < p.1),
      p.1 ≤ c.seq) : Clear like.query p.1 pos (w.group.member i).taken w where
  published n hn := .inr ⟨p, hord.mem_log p hp, UInt64.le_of_lt hn⟩
  inHand c hc hlt := by
    have htracks := h.tracks hphase hsub
    by_cases hpassed : c.seq ≤ sub.cursor
    · rcases htracks.behind c hc hpassed with hle | hpos
      · rcases h.follows.covers h.stands hphase c hc hle with hmem | hpos
        · rw [Member.handed, hphase] at hmem
          exact .inl (by simpa [ConsumerPhase.held] using hmem)
        · exact .inr hpos
      · exact .inr hpos
    · have hle := hbeyond c (Log.mem_inScope_beyond hc (UInt64.not_le.1 hpassed))
      exact absurd hlt (UInt64.not_lt.2 hle)

omit [DecidableEq ι] in
/-- A change that the triggers refuse has nothing before it that is not in hand or covered. -/
theorem clear_of_refused (h : Attends known like pos w i) (hord : Ordered w) {change : Change}
    (htells : w.Tells i e m signal) {session : Session}
    (hphase : ((w.group.member i).consumer.phase = .waiting session ∧
      signal = .item (.ok (some (.event change))) ∧ session.cursor < change.seq) ∨
      (w.group.member i).consumer.phase = .throttled session change) :
    Clear like.query change.seq pos (w.group.member i).taken w := by
  rcases hphase with ⟨hphase, rfl, -⟩ | hphase
  · cases htells with
    | aside hnothing => cases hnothing
    | @item session sub _ _ hsub hanswer =>
        have hscanned := Feed.look_scanned sub hord.entries
        obtain ⟨hc, hfirst⟩ := hscanned.found change (Feed.look_of_poll_event hanswer) _
          (h.tracks hphase hsub).matcher
        obtain ⟨p, hp, heq⟩ := Log.exists_of_mem_inScope hc
        rw [← heq] at hfirst ⊢
        exact clear_of_beyond h hord hphase hsub (List.mem_filter.1 hp).1 hfirst
  · have hheld : change ∈ (w.group.member i).handed := by
      rw [Member.handed, hphase]
      exact List.mem_append_right _ (List.mem_singleton_self _)
    refine ⟨?_, ?_⟩
    · intro n hn
      obtain ⟨p, hp, heq⟩ := Log.exists_of_mem_inScope (h.follows.handed change hheld)
      exact .inr ⟨p, hp, heq ▸ UInt64.le_of_lt hn⟩
    · intro c hc hlt
      refine (h.follows.closed c hc change hheld (UInt64.le_of_lt hlt)).imp_left fun hmem => ?_
      rw [Member.handed, hphase] at hmem
      rcases List.mem_append.1 hmem with hmem | hmem
      · exact hmem
      · rw [List.mem_singleton.1 hmem] at hlt
        exact absurd hlt (UInt64.lt_irrefl _)

omit [DecidableEq ι] in
/-- An entry that is malformed has nothing before it that is not in hand or covered. -/
theorem clear_of_item (h : Attends known like pos w i) (hord : Ordered w) {fault : FeedFault}
    (htells : w.Tells i e m (.item (.error fault)))
    (hfeed : ∀ signal, e = .group (.signal i m signal) → signal.reportsFault = false)
    (hhalts : fault.toStream.Halts) (hs : fault.toStream.sequence?.or stalledAt = some s) :
    Clear like.query s pos (w.group.member i).taken w := by
  cases htells with
  | aside hnothing hfault => exact absurd (hfeed _ (hfault rfl)) (by simp [Signal.reportsFault])
  | @item session sub _ hphase hsub hanswer =>
      rcases Feed.look_fault (Feed.look_of_poll_error hanswer) with
        ⟨operation, message, rfl⟩ | hstops
      · exact absurd hhalts.1 (by simp [FeedFault.toStream, StreamFault.isRetryable])
      · obtain ⟨reason, rfl⟩ := hstops.malformed
        obtain ⟨entry, hmem, -, -⟩ := hstops
        cases hs
        refine clear_of_beyond h hord hphase hsub hmem ?_
        intro c hc
        have hmatcher := (h.tracks hphase hsub).matcher
        -- the look has stopped at the entry, and changes in scope lie beyond
        exact UInt64.le_of_lt ((Feed.look_scanned sub hord.entries).beyond _ hmatcher c hc)

theorem le_of_lt_succ {n k : UInt64} (h : n < k + 1) : n ≤ k := by
  grind

omit [DecidableEq ι] in
/-- A subscription that is refused for good leaves out what the log has discarded, from the
checkpoint on. -/
theorem clear_of_unsubscribed (h : Attends known like pos w i) {fault : FeedFault}
    {checkpoint : UInt64} (hphase : (w.group.member i).consumer.phase = .subscribing checkpoint)
    (htells : w.Tells i e m (.subscribed (.error fault)))
    (hfeed : ∀ signal, e = .group (.signal i m signal) → signal.reportsFault = false)
    (hhalts : fault.toStream.Halts) (hs : fault.toStream.sequence?.or stalledAt = some s) :
    Clear like.query s pos (w.group.member i).taken w := by
  generalize hsignal : Signal.subscribed (.error fault) = signal at htells
  cases htells with
  | aside hnothing hfault =>
      subst hsignal
      exact absurd (hfeed _ (hfault rfl)) (by simp [Signal.reportsFault])
  | item => cases hsignal
  | @subscribed checkpoint' hphase' =>
      rw [hphase] at hphase'
      cases hphase'
      cases hopened : (w.feed.subscribe (w.group.member i).consumer.query checkpoint).2 with
      | ok sub =>
          rw [hopened] at hsignal
          cases hsignal
      | error fault' =>
          rw [hopened] at hsignal
          cases hsignal
          rcases Feed.Memory.subscribe_error hopened with
            ⟨text, rfl⟩ | ⟨operation, message, rfl⟩ | rfl
          · exact absurd rfl (hhalts.2 text)
          · exact absurd hhalts.1 (by simp [FeedFault.toStream, StreamFault.isRetryable])
          · cases hs
            have hle : checkpoint ≤ pos := by
              have hstands := h.stands
              rw [hphase] at hstands
              cases hstands with
              | quiet hquiet => cases hquiet
              | subscribing hle hnone => exact hle
            exact ⟨fun n hn => .inl (UInt64.le_trans (le_of_lt_succ hn) hle),
              fun c _ hlt => .inr (UInt64.le_trans (le_of_lt_succ hlt) hle)⟩

omit [DecidableEq ι] in
/-- Whatever a session halts for, before it the log holds nothing in scope that the session has
not in hand and the checkpoint has not covered. -/
theorem clear_of_faults (h : Attends known like pos w i) (hord : Ordered w)
    (hpending : ∀ s, w.Pending i s → Clear like.query s pos (w.group.member i).taken w)
    (htells : w.Tells i e m signal)
    (hfeed : ∀ signal, e = .group (.signal i m signal) → signal.reportsFault = false)
    (hfaults : (w.group.member i).consumer.Faults signal f stalledAt) (hhalts : f.Halts)
    (hs : f.sequence?.or stalledAt = some s) :
    Clear like.query s pos (w.group.member i).taken w := by
  cases hfaults with
  | pending hphase => exact hpending s ⟨_, _, hphase, hhalts, hs⟩
  | refused hphase happly =>
      obtain ⟨stage, reason, rfl⟩ := Pipeline.apply_error happly
      cases hs
      exact clear_of_refused h hord htells hphase
  | item hphase => exact clear_of_item h hord htells hfeed hhalts hs
  | idle hretry => exact absurd (hretry.symm.trans hhalts.1) (by simp)
  | unsubscribed hphase => exact clear_of_unsubscribed h hphase htells hfeed hhalts hs

end Halts

/-! ## Whole sessions -/

/-- A member and the log, where the checkpoint has not been beyond `top` since some moment. -/
structure Abides (like : Consumer) (i : ι) (top : UInt64) (w : World ι) : Prop where
  attends : Attends w.group.past like top w i
  ordered : w.Ordered
  present : w.group.store ∈ w.group.past
  before : position w.group.store like.checkpoint ≤ top
  pending : ∀ s, w.Pending i s → Clear like.query s top (w.group.member i).taken w

section Abides

variable {top top' : UInt64}

/-- A session that is about to halt has cleared what lies before. -/
theorem Abides.clear_step (h : Abides like i top w)
    (hfeed : ∀ m signal, e = .group (.signal i m signal) → signal.reportsFault = false)
    (hpending : (w.step e).Pending i s) :
    Clear like.query s top ((w.step e).group.member i).taken (w.step e) := by
  have hgroup := w.step_group e
  -- a member that is told nothing is as far as it was
  have hstay : (w.step e).group.member i = w.group.member i →
      Clear like.query s top ((w.step e).group.member i).taken (w.step e) := by
    intro hsame
    rw [hsame]
    refine (h.pending s ?_).step h.ordered e
    rwa [Pending, hsame] at hpending
  cases hevent : w.groupEvent e with
  | none =>
      rw [hevent] at hgroup
      exact hstay (by rw [hgroup]; rfl)
  | some e' =>
      rw [hevent, Option.elim_some] at hgroup
      obtain ⟨p, f, hphase, hhalts, hs⟩ := hpending
      cases hgiven : w.group.given i e' with
      | none =>
          rcases Group.member_of_given_none hgiven with hsame | ⟨settings, circuit, hrestart⟩
          · exact hstay (by rw [hgroup, hsame])
          · rw [hgroup, hrestart] at hphase
            cases hphase
      | some told =>
          obtain ⟨m, signal⟩ := told
          have hmember := Group.member_of_given hgiven
          rw [hgroup, hmember] at hphase hs
          have hin := Consumer.not_quiet_of_committing hphase
          obtain ⟨f', stalledAt, hfaults, hbreaks⟩ :=
            Consumer.step_breaks hin (.inr ⟨p, f, hphase⟩) fun hpaused => by
              cases hphase.symm.trans hpaused
          cases hbreaks with
          | paused hpaused => cases hphase.symm.trans hpaused
          | committing hphase' hstalled =>
              cases hphase.symm.trans hphase'
              have hclear := clear_of_faults h.attends h.ordered h.pending
                (tells_of_given hevent hgiven) (hfeed m) hfaults hhalts (hstalled ▸ hs)
              refine (hclear.step h.ordered e).mono (UInt64.le_refl _) fun c hc => .inl ?_
              rw [hgroup, hmember, taken_step, hphase]
              exact List.mem_append_left _ hc

theorem Abides.step (h : Abides like i top w)
    (hfeed : ∀ m signal, e = .group (.signal i m signal) → signal.reportsFault = false)
    (hle : top ≤ top') (hafter : position (w.step e).group.store like.checkpoint ≤ top') :
    Abides like i top' (w.step e) where
  attends := h.attends.step h.ordered h.present h.before e hle hafter
  ordered := h.ordered.step e
  present := World.present_step h.present e
  before := hafter
  pending _ hpending := (h.clear_step hfeed hpending).mono hle fun _ hc => .inl hc

/-- A session that halts at a change, and whose commits neither failed nor found the checkpoint in
their way, leaves nothing in scope before it but what the checkpoint has covered. -/
theorem Abides.clear_of_paused (h : Abides like i top w)
    (hfeed : ∀ m signal, e = .group (.signal i m signal) → signal.reportsFault = false)
    {e' : Group.Event ι} (hevent : w.groupEvent e = some e')
    (hgiven : w.group.given i e' = some (m, signal))
    (hin : ¬ (w.group.member i).consumer.phase.Quiet)
    (hpaused : ((w.group.step e').member i).consumer.phase = .paused) {reason : String}
    (hhealth : ((w.group.step e').member i).consumer.health = .paused (some s) reason)
    (hok : ¬ (w.group.member i).consumer.CommitFails m signal)
    (hfree : ¬ ∃ current, (w.group.member i).consumer.Overtaken signal current)
    (hkept : top ≤ position (w.group.step e').store like.checkpoint) :
    Clear like.query s (position (w.group.step e').store like.checkpoint) [] (w.step e) := by
  have hquiet : ((w.group.step e').member i).consumer.phase.Quiet := by
    rw [hpaused]
    exact .paused
  have hover := Group.le_of_over h.attends.stands hin hgiven hquiet hok
  rw [h.attends.keeps.checkpoint] at hover
  rw [Group.member_of_given hgiven] at hpaused hhealth
  obtain ⟨f, stalledAt, hfaults, hbreaks⟩ :=
    Consumer.step_breaks hin (.inl hpaused) fun _ => hok
  cases hbreaks with
  | committing hphase => cases hpaused.symm.trans hphase
  | paused _ hhalts hhealth' =>
      have hs := (StreamHealth.paused.inj (hhealth.symm.trans hhealth')).1
      have hclear := clear_of_faults h.attends h.ordered h.pending (tells_of_given hevent hgiven)
        (hfeed m) hfaults hhalts hs.symm
      refine (hclear.step h.ordered e).mono hkept fun c hc => .inr ?_
      rcases hover c (List.mem_append_left _ hc) with hle | ⟨current, hovertaken, -⟩
      · exact hle
      · exact absurd ⟨current, hovertaken⟩ hfree

end Abides

theorem Ordered.run (h : Ordered w) (events : List (Event ι)) : Ordered (w.run events) := by
  induction events generalizing w with
  | nil => exact h
  | cons e rest ih => exact ih (h.step e)

/-- From the beginning of a session on its member abides by the log. -/
theorem abides_of_run {rs : Records} {start : ι → Consumer} {earlier : List (Event ι)}
    (hfresh : (start i).phase = .starting)
    (hw : (begin rs start).run earlier = w)
    (hbegins : (w.group.member i).consumer.phase = .reading) (events : List (Event ι))
    (hfeed : ∀ m signal, .group (.signal i m signal) ∈ events → signal.reportsFault = false) :
    ∃ top, Highest (w.group.positionOf (start i).checkpoint) (w.groupEvents events) top ∧
      Abides (start i) i top (w.run events) := by
  induction events using List.reverseRecOn with
  | nil =>
      have hgroup := run_group (begin rs start) earlier
      rw [hw] at hgroup
      have hfirst : (begin rs start).group = .begin rs start := rfl
      rw [hfirst] at hgroup
      obtain ⟨pos, hstands, hpresent, -⟩ := Group.stands_run rs i hfresh
        ((begin rs start).groupEvents earlier)
      have hkeeps := Group.keeps_run (.begin rs start) i ((begin rs start).groupEvents earlier)
      rw [← hgroup] at hstands hpresent hkeeps
      have hquiet : (w.group.member i).consumer.phase.Quiet := hbegins ▸ .reading
      refine ⟨_, .nil _, ?_, ?_, hpresent, UInt64.le_refl _, ?_⟩
      · refine .of_quiet hquiet ?_ hkeeps
        rw [hbegins] at hstands
        cases hstands with
        | quiet _ hnone => exact hnone
      · exact hw ▸ (Ordered.begin rs start).run earlier
      · rintro s ⟨p, f, hphase, -⟩
        cases hbegins.symm.trans hphase
  | append_singleton events e ih =>
      obtain ⟨top, hhighest, habides⟩ :=
        ih fun m signal hmem => hfeed m signal (List.mem_append_left _ hmem)
      have hfeed' : ∀ m signal, e = .group (.signal i m signal) → signal.reportsFault = false := by
        rintro m signal rfl
        exact hfeed m signal (List.mem_append_right _ (List.mem_singleton_self _))
      have hgroup := (w.run events).step_group e
      rw [groupEvents_append_singleton, run_append_singleton]
      cases hevent : (w.run events).groupEvent e with
      | none =>
          rw [hevent, Option.elim_none] at hgroup
          rw [Option.toList_none, List.append_nil]
          refine ⟨top, hhighest, habides.step hfeed' (UInt64.le_refl _) ?_⟩
          rw [hgroup]
          exact habides.before
      | some e' =>
          rw [hevent, Option.elim_some] at hgroup
          obtain ⟨top', hle, hhighest'⟩ := hhighest.append_singleton e'
          refine ⟨top', hhighest', habides.step hfeed' hle ?_⟩
          have hafter := hhighest'.bound (w.groupEvents events ++ [e']) [] (by simp)
          rw [Group.positionOf, Group.run_append_singleton, ← run_group] at hafter
          rw [hgroup]
          exact hafter

/-! ## Changes left behind -/

/-- The first change that a subscription finds after the checkpoint of a consumer is the one at a
position, if there is one in scope, and none before it. -/
def ResumesAt (w : World ι) (c : Consumer) (s : UInt64) : Prop :=
  ∀ sub x, (w.feed.subscribe c.query (position w.group.store c.checkpoint)).2 = .ok sub →
    (sub.look w.feed).2 = .found x → s ≤ x.seq ∧
      ∀ y ∈ Log.inScope c.query w.feed.entries, y.seq = s →
        position w.group.store c.checkpoint < s → x = y

omit [DecidableEq ι] in
theorem Clear.resumesAt {c : Consumer} (h : Clear c.query s pos [] w) (hord : Ordered w)
    (hle : pos ≤ position w.group.store c.checkpoint) : w.ResumesAt c s := by
  intro sub x hsub hfound
  obtain ⟨hmatcher, hcursor, -⟩ := Feed.Memory.subscribe_ok hsub
  obtain ⟨hx, hfirst⟩ := (Feed.look_scanned sub hord.entries).found x hfound _ hmatcher
  have hin := Log.inScope_mono (fun _ hp => (List.mem_filter.1 hp).1) hx
  have hlt : sub.cursor < x.seq := by
    obtain ⟨p, hp, heq⟩ := Log.exists_of_mem_inScope hx
    rw [← heq]
    exact of_decide_eq_true (List.mem_filter.1 hp).2
  have hbehind : s ≤ x.seq := by
    by_contra hbefore
    rcases h.inHand x hin (UInt64.not_le.1 hbefore) with hnone | hcovered
    · cases hnone
    · rw [← hcursor] at hle
      exact absurd (UInt64.le_trans hcovered hle) (UInt64.not_le.2 hlt)
  refine ⟨hbehind, ?_⟩
  intro y hy hseq hpos
  rw [← hcursor, ← hseq] at hpos
  have hle' := hfirst y (Log.mem_inScope_beyond hy hpos)
  exact hord.entries.change_eq hin hy (UInt64.le_antisymm hle' (hseq ▸ hbehind))

/-- A session of a world that halts at a change, where the log alone reports faults of the feed. -/
structure HaltsAt (w : World ι) (i : ι) (events : List (Event ι)) (last : Event ι) (s : UInt64) :
    Prop where
  feed : ∀ m signal, .group (.signal i m signal) ∈ events ++ [last] → signal.reportsFault = false
  phase : ((w.run (events ++ [last])).group.member i).consumer.phase = .paused
  health : ∃ reason,
    ((w.run (events ++ [last])).group.member i).consumer.health = .paused (some s) reason

/-- Which of the changes that a session accepts are left behind, if its last commit does not fail.
Each was covered by the checkpoint at some moment, or the last commit found the checkpoint before
it and inside the range. Where nobody takes the checkpoint back, the latter alone leaves changes
behind. Without it a session that halts at a change of the log is resumed there, at any later
time. -/
theorem left_behind_iff_overtaken {rs : Records} {start : ι → Consumer}
    {before during : List (Group.Event ι)} {g : Group ι} {e : Group.Event ι}
    (hrun : (Group.begin rs start).run before = g) (hfresh : (start i).phase = .starting)
    (h : g.Leaves i during e m signal) :
    (∀ x ∈ g.accepted i (during ++ [e]),
      (∃ earlier later, during ++ [e] = earlier ++ later ∧
        x.seq ≤ g.positionOf (start i).checkpoint earlier) ∨
      ∃ current, ((g.run during).member i).consumer.Overtaken signal current ∧ current < x.seq) ∧
    ((∀ earlier later, during ++ [e] = earlier ++ later →
        g.positionOf (start i).checkpoint earlier ≤
          g.positionOf (start i).checkpoint (during ++ [e])) →
      ((∃ x ∈ g.accepted i (during ++ [e]),
        g.positionOf (start i).checkpoint (during ++ [e]) < x.seq) ↔
      ∃ current, ((g.run during).member i).consumer.Overtaken signal current) ∧
      ∀ (earlier events : List (Event ι)) (w : World ι) (last : Event ι),
        (begin rs start).run earlier = w → w.group = g → w.groupEvents events = during →
        (w.run events).groupEvent last = some e → w.HaltsAt i events last s →
        (¬ ∃ current, ((g.run during).member i).consumer.Overtaken signal current) →
        ∀ later : List (Event ι),
          g.positionOf (start i).checkpoint (during ++ [e]) ≤
            position (w.run (events ++ [last] ++ later)).group.store (start i).checkpoint →
          (w.run (events ++ [last] ++ later)).ResumesAt (start i) s) := by
  obtain ⟨hcovered, hbehind⟩ := Group.covered_or_overtaken hrun hfresh h
  refine ⟨hcovered, fun hkept => ⟨hbehind hkept, ?_⟩⟩
  rintro earlier events w last hw rfl rfl hlast ⟨hfeed, hpaused, reason, hhealth⟩ hfree later hlater
  obtain ⟨hunderWay, hgiven, -, hok⟩ := h
  obtain ⟨top, hhighest, habides⟩ :=
    abides_of_run hfresh hw hunderWay.begins events fun m signal hmem =>
      hfeed m signal (List.mem_append_left _ hmem)
  have hfeed' : ∀ m signal, last = .group (.signal i m signal) → signal.reportsFault = false := by
    rintro m signal rfl
    exact hfeed m signal (List.mem_append_right _ (List.mem_singleton_self _))
  have hin := hunderWay.lasts _ [] (List.append_nil _).symm hunderWay.begun
  -- the checkpoint now stands where it stood highest
  have htop : top ≤ w.group.positionOf (start i).checkpoint (w.groupEvents events ++ [e]) := by
    obtain ⟨first, rest, hsplit, hreached⟩ := hhighest.reached
    refine UInt64.le_trans hreached (hkept first (rest ++ [e]) ?_)
    rw [hsplit, List.append_assoc]
  have hstep : (w.run (events ++ [last])).group = (w.run events).group.step e := by
    rw [run_append_singleton, step_group, hlast]
    rfl
  rw [Group.positionOf, Group.run_append_singleton, ← run_group] at htop hlater
  rw [Group.phaseOf, ← run_group] at hin
  rw [← run_group] at hgiven hok hfree
  rw [hstep] at hpaused hhealth
  have hclear := habides.clear_of_paused hfeed' hlast hgiven hin hpaused hhealth hok hfree htop
  have hord := habides.ordered.step last
  rw [run_append, run_append_singleton] at hlater ⊢
  exact (hclear.run hord later).resumesAt (hord.run later) hlater

/-- Two people are published and an entry that is malformed, and a consumer begins a session. -/
def opening : List (Event Unit) :=
  [.publish 1 (person "cn=ann,dc=x" 1), .publish 2 (person "cn=ben,dc=x" 2), .publish 3 ⟨[], []⟩,
    .group (.signal () { now := { nanos := 0 } } (.start false))]

def opened : World Unit := (begin [] fun _ => patient).run opening

/-- It takes both people and comes to the entry, so that it commits them. -/
def takingBoth (meanwhile : List (Event Unit)) : List (Event Unit) :=
  let m : Moment := { now := { nanos := 0 } }
  [.group (.read () m none), .subscribe () m, .next () m, .next () m] ++ meanwhile ++ [.next () m]

/-- Before it does, another instance commits the first. -/
def halfCommitted : List (Event Unit) :=
  takingBoth [.group (.foreign patient.checkpoint (.put (Checkpoint.document patient.id 1 0)))]

/-- All that its own commit reads. -/
def allRead : List (Event Unit) :=
  takingBoth [] ++ List.replicate 3 (.group (.read () { now := { nanos := 0 } } none))

set_option maxRecDepth 100000 in
theorem left_behind_iff_overtaken_at_entry :
    let m : Moment := { now := { nanos := 0 } }
    let written := allRead ++ [.group (.write () m .decided)]
    -- the other instance has the consumer halt at the entry without the second change
    (∃ signal current,
      ((opened.run halfCommitted).group.member ()).consumer.Overtaken signal current) ∧
    -- left alone it commits both, and halts at the entry
    ∀ later, 2 ≤ position (opened.run (written ++ later)).group.store patient.checkpoint →
      (opened.run (written ++ later)).ResumesAt patient 3 := by
  intro m written
  have hrun : (Group.begin [] fun _ => patient).run
      ((begin [] fun _ => patient).groupEvents opening) = opened.group :=
    (run_group (begin [] fun _ => patient) opening).symm
  constructor
  · obtain ⟨m', signal, hleaves, -⟩ := Group.exists_leaves (g := opened.group) (i := ())
      (opened.groupEvents halfCommitted) (.read () m none) (.conflict 1) rfl
      (by decide +kernel) (by decide +kernel) (by decide +kernel) (by decide +kernel)
    have hbehind := ((left_behind_iff_overtaken (s := 3) hrun rfl hleaves).2
      (forall_beginning (by decide +kernel))).1
    rw [← run_group] at hbehind
    exact ⟨signal, hbehind.1 (by decide +kernel)⟩
  · obtain ⟨m', signal, hleaves, happlied⟩ := Group.exists_leaves (g := opened.group) (i := ())
      (opened.groupEvents allRead) (.write () m .decided) .applied rfl
      (by decide +kernel) (by decide +kernel) (by decide +kernel) (by decide +kernel)
    have hhalts : opened.HaltsAt () allRead (.group (.write () m .decided)) 3 := by
      refine ⟨?_, rfl, _, rfl⟩
      simp [allRead, takingBoth, Signal.reportsFault]
    intro later hlater
    refine ((left_behind_iff_overtaken (s := 3) hrun rfl hleaves).2
      (forall_beginning (by decide +kernel))).2 opening allRead opened _ rfl rfl rfl rfl hhalts
      (Consumer.not_overtaken_of_applied happlied) later (UInt64.le_trans ?_ hlater)
    decide +kernel

end World

end ChangeRelay
