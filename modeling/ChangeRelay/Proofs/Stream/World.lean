import ChangeRelay.Proofs.Stream.Following
import ChangeRelay.Proofs.Stream.Group

/-!
# Worlds

A group of consumers that read one change log, which others append to and trim. Only the log hands
subscriptions and changes out; everything else that can happen to a group can happen to a world.

A subscription is one step here, and so is a read: each takes effect at its look at the log, under
the log's lock. What happens before and after that look touches nothing but the subscription and
the list of what was delivered. Reads that stop at every one of their points, and others in between,
are those of `Readership` in `Proofs/Feed/Reading`; left to itself such a read comes to what a step
here makes of it (`Subscription.goOn_setOut`).
-/

namespace ChangeRelay

open Checkpoint (position standing)
open Feed (Log LogEntry Subscription)
open Store (Address Records Memory)

/-- A group, and the log that it reads. -/
structure World (ι : Type) where
  group : Group ι
  feed : Feed.Memory := {}
  /-- The last subscription of each member. -/
  sub : ι → Option Subscription := fun _ => none
  /-- Everything that was published. -/
  log : Log := []

/-- Whether an event hands a member what only the log can give. -/
def Group.Event.handsOut {ι : Type} : Group.Event ι → Bool
  | .signal _ _ s => s.handsOut
  | _ => false

namespace World

/-- What can happen to a world. -/
inductive Event (ι : Type) where
  /-- Whatever the log has no part in. -/
  | group (e : Group.Event ι)
  | publish (seq : UInt64) (entry : LogEntry)
  | trim (seq : UInt64)
  /-- The switches of the feed are set. -/
  | switch (closed : Bool) (heartbeat : Option Duration) (failSubscribes : Nat)
      (disconnectAfter : Option Nat)
  /-- A member subscribes after its checkpoint; the log is looked at then and there. -/
  | subscribe (i : ι) (m : Moment)
  /-- A member reads its subscription, and takes what a look at the log finds; one that finds
  nothing leaves it waiting, to look again later. -/
  | next (i : ι) (m : Moment)
  /-- A member looks for a change, and gives up before it is handed out. -/
  | look (i : ι)

variable {ι : Type} [DecidableEq ι]

/-- A world that is about to begin, with an empty log. -/
def begin (rs : Records) (start : ι → Consumer) : World ι := { group := .begin rs start }

/-- One event. One that its member does not wait for changes nothing; nor does a change that is
published out of order. -/
def step (w : World ι) : Event ι → World ι
  | .group e => if e.handsOut then w else { w with group := w.group.step e }
  | .publish seq entry =>
    if 0 < seq ∧ ∀ p ∈ w.log, p.1 < seq then
      { w with feed := w.feed.publishRaw seq entry, log := w.log ++ [(seq, entry)] }
    else w
  | .trim seq => { w with feed := w.feed.trimThrough seq }
  | .switch closed heartbeat failSubscribes disconnectAfter =>
    { w with feed := { w.feed with closed, heartbeat, failSubscribes, disconnectAfter } }
  | .subscribe i m =>
    match (w.group.member i).consumer.phase with
    | .subscribing checkpoint =>
      let opened := w.feed.subscribe (w.group.member i).consumer.query checkpoint
      { w with
        feed := opened.1
        sub := Function.update w.sub i opened.2.toOption
        group := w.group.step (.signal i m (.subscribed (opened.2.map fun _ => ()))) }
    | _ => w
  | .next i m =>
    match (w.group.member i).consumer.phase, w.sub i with
    | .waiting _, some s =>
      let polled := s.poll w.feed
      { w with
        feed := polled.1
        sub := Function.update w.sub i (some polled.2.1)
        group := match polled.2.2 with
          | some answer => w.group.step (.signal i m (.item answer))
          | none => w.group }
    | _, _ => w
  | .look i =>
    match w.sub i with
    | some s => { w with sub := Function.update w.sub i (some (s.look w.feed).1) }
    | none => w

/-- An entry of the log of an added person. -/
def person (dn : String) (seq : UInt64) : LogEntry := ⟨[("cn", ["x"])], entryMetadata dn seq .add⟩

/-- Events one after another. -/
def run (w : World ι) (events : List (Event ι)) : World ι := events.foldl step w

theorem run_append (w : World ι) (earlier later : List (Event ι)) :
    w.run (earlier ++ later) = (w.run earlier).run later := List.foldl_append

theorem run_append_singleton (w : World ι) (events : List (Event ι)) (e : Event ι) :
    w.run (events ++ [e]) = (w.run events).step e := by
  simp [run, List.foldl_append]

/-! ## The group of a world -/

/-- What an event of a world is to its group, if the group has a part in it. -/
def groupEvent (w : World ι) : Event ι → Option (Group.Event ι)
  | .group e => if e.handsOut then none else some e
  | .subscribe i m =>
    match (w.group.member i).consumer.phase with
    | .subscribing checkpoint =>
      let opened := w.feed.subscribe (w.group.member i).consumer.query checkpoint
      some (.signal i m (.subscribed (opened.2.map fun _ => ())))
    | _ => none
  | .next i m =>
    match (w.group.member i).consumer.phase, w.sub i with
    | .waiting _, some s => (s.poll w.feed).2.2.map fun answer => .signal i m (.item answer)
    | _, _ => none
  | _ => none

theorem step_group (w : World ι) (e : Event ι) :
    (w.step e).group = (w.groupEvent e).elim w.group w.group.step := by
  cases e with
  | group e =>
      simp only [step, groupEvent]
      split <;> rfl
  | publish seq entry =>
      simp only [step]
      split <;> rfl
  | subscribe i m =>
      cases hphase : (w.group.member i).consumer.phase with
      | subscribing checkpoint => simp only [step, groupEvent, hphase, Option.elim_some]
      | _ => simp only [step, groupEvent, hphase, Option.elim_none]
  | next i m =>
      cases hphase : (w.group.member i).consumer.phase with
      | waiting session =>
          cases hsub : w.sub i with
          | none => simp only [step, groupEvent, hphase, hsub, Option.elim_none]
          | some s =>
              simp only [step, groupEvent, hphase, hsub]
              cases (s.poll w.feed).2.2 <;> rfl
      | _ => simp only [step, groupEvent, hphase, Option.elim_none]
  | look i =>
      simp only [step]
      split <;> rfl
  | _ => rfl

/-- What events of a world are to its group. -/
def groupEvents (w : World ι) : List (Event ι) → List (Group.Event ι)
  | [] => []
  | e :: rest => (w.groupEvent e).toList ++ (w.step e).groupEvents rest

theorem groupEvents_append_singleton (w : World ι) (events : List (Event ι)) (e : Event ι) :
    w.groupEvents (events ++ [e]) =
      w.groupEvents events ++ ((w.run events).groupEvent e).toList := by
  induction events generalizing w with
  | nil => simp [groupEvents, run]
  | cons e' rest ih =>
      rw [List.cons_append, groupEvents, ih, groupEvents, List.append_assoc]
      rfl

theorem run_group (w : World ι) (events : List (Event ι)) :
    (w.run events).group = w.group.run (w.groupEvents events) := by
  induction events generalizing w with
  | nil => rfl
  | cons e rest ih =>
      have hstep : (w.run (e :: rest)).group = (w.step e).group.run ((w.step e).groupEvents rest) :=
        ih (w.step e)
      rw [hstep, step_group, groupEvents]
      cases w.groupEvent e <;> rfl

omit [DecidableEq ι] in
/-- What others write in a group they write in its world. -/
theorem foreign_of_groupEvent {w : World ι} {e : Event ι} {b : Address} {action : Store.Action}
    (h : w.groupEvent e = some (.foreign b action)) : e = .group (.foreign b action) := by
  unfold groupEvent at h
  split at h
  · split at h
    · cases h
    · rw [Option.some.inj h]
  · split at h <;> cases h
  · split at h
    · obtain ⟨answer, -, hsignal⟩ := Option.map_eq_some_iff.1 h
      cases hsignal
    · cases h
  · cases h

/-- Whatever holds of a group, and after each of its events, holds after an event of its world. What
others write in the group they write in the world. -/
theorem group_induct {P : Group ι → Prop} (w : World ι) (e : Event ι) (hstay : P w.group)
    (hstep : ∀ e', (∀ b action, e' = .foreign b action → e = .group (.foreign b action)) →
      P (w.group.step e')) : P (w.step e).group := by
  rw [step_group]
  cases hevent : w.groupEvent e with
  | none => exact hstay
  | some e' =>
      apply hstep
      rintro b action rfl
      exact foreign_of_groupEvent hevent

end World

/-! ## Members in a group -/

section Members

variable {ι : Type} [DecidableEq ι]

theorem Group.stepMember_member (g : Group ι) (i j : ι) (m : Moment) (s : Signal) :
    (g.stepMember i m s).member j =
      if j = i then (g.member i).step m s else g.member j := Function.update_apply ..

theorem Group.step_signal (g : Group ι) (i : ι) (m : Moment) {s : Signal} (h : s.ofStore = false) :
    g.step (.signal i m s) = g.stepMember i m s := by
  rw [Group.step, h]
  rfl

/-- What an event tells a member. -/
def Group.given (g : Group ι) (i : ι) : Group.Event ι → Option (Moment × Signal)
  | .signal j m s => if j = i ∧ s.ofStore = false then some (m, s) else none
  | .read j m fault =>
    match (g.member j).consumer.request with
    | some (.get a) => if j = i then some (m, .read (g.answer a fault)) else none
    | _ => none
  | .write j m fate =>
    match (g.member j).consumer.request with
    | some (.putBatch ops) => if j = i then some (m, .wrote (g.store.submit ops fate).2) else none
    | _ => none
  | _ => none

/-- An event that tells a member something is a step of it. -/
theorem Group.member_of_given {g : Group ι} {i : ι} {e : Group.Event ι} {m : Moment} {s : Signal}
    (h : g.given i e = some (m, s)) : (g.step e).member i = (g.member i).step m s := by
  cases e with
  | signal j m' s' =>
      simp only [Group.given] at h
      split at h
      · rename_i hj
        cases h
        rw [Group.step_signal g j m hj.2, Group.stepMember_member, if_pos hj.1.symm, hj.1]
      · cases h
  | read j m' fault =>
      simp only [Group.given] at h
      split at h
      · rename_i a hreq
        split at h
        · rename_i hj
          cases h
          simp only [Group.step, hreq]
          rw [Group.stepMember_member, if_pos hj.symm, hj]
        · cases h
      · cases h
  | write j m' fate =>
      simp only [Group.given] at h
      split at h
      · rename_i ops hreq
        split at h
        · rename_i hj
          cases h
          subst hj
          simp only [Group.step, hreq]
          exact Function.update_self ..
        · cases h
      · cases h
  | restart j settings circuit => cases h
  | foreign a action => cases h

/-- An event that tells a member nothing leaves it as it is, or a new instance takes its place. -/
theorem Group.member_of_given_none {g : Group ι} {i : ι} {e : Group.Event ι}
    (h : g.given i e = none) : (g.step e).member i = g.member i ∨
      ∃ settings circuit, (g.step e).member i = (g.member i).restart settings circuit := by
  cases e with
  | signal j m s =>
      left
      cases hs : s.ofStore with
      | true => rw [Group.step, hs, if_pos rfl]
      | false =>
          have hj : i ≠ j := fun hj => by simp [Group.given, hj, hs] at h
          rw [Group.step_signal g j m hs, Group.stepMember_member, if_neg hj]
  | read j m fault =>
      left
      simp only [Group.step]
      split
      · rename_i a hreq
        have hj : i ≠ j := fun hj => by simp [Group.given, ← hj, hj ▸ hreq] at h
        rw [Group.stepMember_member, if_neg hj]
      · rfl
  | write j m fate =>
      left
      simp only [Group.step]
      split
      · rename_i ops hreq
        have hj : i ≠ j := fun hj => by simp [Group.given, ← hj, hj ▸ hreq] at h
        exact Function.update_of_ne hj ..
      · rfl
  | restart j settings circuit =>
      by_cases hj : i = j
      · subst hj
        exact .inr ⟨settings, circuit, Function.update_self ..⟩
      · exact .inl (Function.update_of_ne hj ..)
  | foreign a action => exact .inl rfl

/-- What a member is told hands out what the event hands out. -/
theorem Group.handsOut_of_given {g : Group ι} {i : ι} {e : Group.Event ι} {m : Moment} {s : Signal}
    (h : g.given i e = some (m, s)) : s.handsOut = e.handsOut := by
  cases e <;> simp only [Group.given] at h <;> (repeat' split at h) <;> cases h <;> rfl

/-- What an event makes of a member. -/
theorem Group.member_step (g : Group ι) (e : Group.Event ι) (j : ι) :
    (g.step e).member j = g.member j ∨
      (∃ m s, s.handsOut = e.handsOut ∧ (g.step e).member j = (g.member j).step m s) ∨
      ∃ settings circuit, (g.step e).member j = (g.member j).restart settings circuit := by
  cases h : g.given j e with
  | none => exact (Group.member_of_given_none h).imp_right .inr
  | some told =>
      obtain ⟨m, s⟩ := told
      exact .inr (.inl ⟨m, s, Group.handsOut_of_given h, Group.member_of_given h⟩)

theorem Group.member_keeps (g : Group ι) (e : Group.Event ι) (j : ι) :
    (g.member j).consumer.Keeps ((g.step e).member j).consumer := by
  rcases g.member_step e j with h | ⟨m, s, -, h⟩ | ⟨settings, circuit, h⟩
  · rw [h]
    exact .refl _
  · rw [h]
    exact ((g.member j).consumer.step_turns m s).keeps
  · rw [h]
    exact ⟨rfl, rfl, rfl, rfl⟩

end Members

namespace World

variable {ι : Type} [DecidableEq ι] {w : World ι} {like : Consumer} {known known' : List Records}

/-! ## What holds at any time -/

/-- The log ascends, from one on, and the feed holds some of it. -/
structure Ordered (w : World ι) : Prop where
  ascending : w.log.Ascending
  positive : ∀ p ∈ w.log, 0 < p.1
  retained : w.feed.entries.Sublist w.log

omit [DecidableEq ι] in
theorem Ordered.mem_log (h : Ordered w) : ∀ p ∈ w.feed.entries, p ∈ w.log :=
  fun _ hp => h.retained.subset hp

omit [DecidableEq ι] in
theorem Ordered.entries (h : Ordered w) : Log.Ascending w.feed.entries :=
  h.ascending.sublist h.retained

omit [DecidableEq ι] in
/-- What is published behind the whole log is the last of the feed as well. -/
theorem Ordered.publishRaw_entries (h : Ordered w) {seq : UInt64} (entry : LogEntry)
    (hlast : ∀ p ∈ w.log, p.1 < seq) :
    (w.feed.publishRaw seq entry).entries = w.feed.entries ++ [(seq, entry)] :=
  Feed.Memory.publishRaw_entries entry fun p hp => hlast p (h.mem_log p hp)

/-- Subscribing leaves the log as it is. -/
theorem subscribe_frame (w : World ι) (i : ι) (m : Moment) :
    (w.step (.subscribe i m)).log = w.log ∧
      (w.step (.subscribe i m)).feed.entries = w.feed.entries ∧
      (w.step (.subscribe i m)).feed.trimmedThrough = w.feed.trimmedThrough := by
  simp only [step]
  split
  · rename_i checkpoint _
    obtain ⟨hentries, htrimmed, -⟩ :=
      w.feed.subscribe_frame (w.group.member i).consumer.query checkpoint
    exact ⟨rfl, hentries, htrimmed⟩
  · exact ⟨rfl, rfl, rfl⟩

/-- Reading leaves the log as it is. -/
theorem next_frame (w : World ι) (i : ι) (m : Moment) :
    (w.step (.next i m)).log = w.log ∧
      (w.step (.next i m)).feed.entries = w.feed.entries ∧
      (w.step (.next i m)).feed.trimmedThrough = w.feed.trimmedThrough := by
  simp only [step]
  split
  · rename_i s _ _
    obtain ⟨hentries, htrimmed⟩ := Feed.poll_frame s w.feed
    exact ⟨rfl, hentries, htrimmed⟩
  · exact ⟨rfl, rfl, rfl⟩

/-- What an event does to the log. -/
inductive Logged (w : World ι) (e : Event ι) : Prop where
  | none (hlog : (w.step e).log = w.log) (hentries : (w.step e).feed.entries = w.feed.entries)
      (htrimmed : (w.step e).feed.trimmedThrough = w.feed.trimmedThrough)
  | published {seq : UInt64} {entry : LogEntry} (hpositive : 0 < seq)
      (hlast : ∀ p ∈ w.log, p.1 < seq)
      (hstep : w.step e =
        { w with feed := w.feed.publishRaw seq entry, log := w.log ++ [(seq, entry)] })
  | trimmed {n : UInt64} (he : e = .trim n)
      (hstep : w.step e = { w with feed := w.feed.trimThrough n })

theorem step_logged (w : World ι) (e : Event ι) : w.Logged e := by
  cases e with
  | group e =>
      have hsame : (w.step (.group e)).log = w.log ∧ (w.step (.group e)).feed = w.feed := by
        simp only [step]
        split <;> exact ⟨rfl, rfl⟩
      exact .none hsame.1 (by rw [hsame.2]) (by rw [hsame.2])
  | publish seq entry =>
      by_cases h : 0 < seq ∧ ∀ p ∈ w.log, p.1 < seq
      · exact .published h.1 h.2 (if_pos h)
      · have hsame : w.step (.publish seq entry) = w := if_neg h
        exact .none (by rw [hsame]) (by rw [hsame]) (by rw [hsame])
  | trim n => exact .trimmed rfl rfl
  | switch closed heartbeat failSubscribes disconnectAfter => exact .none rfl rfl rfl
  | subscribe i m =>
      obtain ⟨hlog, hentries, htrimmed⟩ := w.subscribe_frame i m
      exact .none hlog hentries htrimmed
  | next i m =>
      obtain ⟨hlog, hentries, htrimmed⟩ := w.next_frame i m
      exact .none hlog hentries htrimmed
  | look i =>
      have hsame : (w.step (.look i)).log = w.log ∧ (w.step (.look i)).feed = w.feed := by
        simp only [step]
        split <;> exact ⟨rfl, rfl⟩
      exact .none hsame.1 (by rw [hsame.2]) (by rw [hsame.2])

theorem Ordered.step (h : Ordered w) (e : Event ι) : Ordered (w.step e) := by
  cases w.step_logged e with
  | none hlog hentries htrimmed =>
      refine ⟨?_, ?_, ?_⟩
      · rw [hlog]
        exact h.ascending
      · rw [hlog]
        exact h.positive
      · rw [hlog, hentries]
        exact h.retained
  | @published seq entry hpositive hlast hstep =>
      rw [hstep]
      refine ⟨?_, ?_, ?_⟩
      · -- what is published lies behind everything
        rw [Log.Ascending, List.pairwise_append]
        refine ⟨h.ascending, List.pairwise_singleton _ _, ?_⟩
        intro p hp p' hp'
        rw [List.mem_singleton.1 hp']
        exact hlast p hp
      · intro p hp
        rcases List.mem_append.1 hp with hp | hp
        · exact h.positive p hp
        · rw [List.mem_singleton.1 hp]
          exact hpositive
      · rw [h.publishRaw_entries entry hlast]
        exact h.retained.append_right _
  | trimmed he hstep =>
      rw [hstep]
      exact ⟨h.ascending, h.positive, (w.feed.trimThrough_sublist _).trans h.retained⟩

/-- What an event does to the store of a world, and what is noted of it. -/
theorem step_store (w : World ι) (e : Event ι) :
    ((w.step e).group.store = w.group.store ∧ (w.step e).group.commits = w.group.commits) ∨
      (∃ b action, e = .group (.foreign b action) ∧
        (w.step e).group.store = w.group.store.set b action.result ∧
        (w.step e).group.commits = w.group.commits) ∨
      ∃ i ops, (w.group.member i).consumer.request = some (.putBatch ops) ∧
        Memory.stage w.group.store none ops = .ok (w.step e).group.store ∧
        (w.step e).group.commits =
          w.group.commits ++ [w.group.commitOf i (w.step e).group.store] := by
  rw [step_group]
  cases hevent : w.groupEvent e with
  | none => exact .inl ⟨rfl, rfl⟩
  | some e' =>
      cases w.group.step_effect e' with
      | none hstore hcommits => exact .inl ⟨hstore, hcommits⟩
      | @foreign b action he' hstore hcommits =>
          subst he'
          exact .inr (.inl ⟨b, action, foreign_of_groupEvent hevent, hstore, hcommits⟩)
      | written hreq hs hcommits => exact .inr (.inr ⟨_, _, hreq, hs, hcommits⟩)

/-- What an event is to a member and to its subscription. -/
inductive Meets (w : World ι) (e : Event ι) (j : ι) : Prop where
  /-- It hands the member nothing, and its subscription has no part in it. -/
  | apart (h : Shrinks (w.group.member j) ((w.step e).group.member j))
      (hsub : (w.step e).sub j = w.sub j)
  | subscribes {m : Moment} {checkpoint : UInt64} (he : e = .subscribe j m)
      (hphase : (w.group.member j).consumer.phase = .subscribing checkpoint)
  | reads {m : Moment} {session : Session} {s : Subscription} (he : e = .next j m)
      (hphase : (w.group.member j).consumer.phase = .waiting session) (hs : w.sub j = some s)
  | looks {s : Subscription} (he : e = .look j) (hs : w.sub j = some s)

/-- An event that leaves a member and its subscription as they are. -/
theorem Meets.of_eq {e : Event ι} {j : ι}
    (hmember : (w.step e).group.member j = w.group.member j)
    (hsub : (w.step e).sub j = w.sub j) : Meets w e j :=
  .apart (hmember ▸ Shrinks.refl _) hsub

theorem meets_group {pos : UInt64} {j : ι}
    (hstands : Stands known pos (w.group.member j).consumer (w.group.member j).taken
      (w.group.member j).consumer.phase) (e : Group.Event ι) : Meets w (.group e) j := by
  by_cases he : e.handsOut = true
  · apply Meets.of_eq <;> simp only [step, he, if_true]
  · have hstep : w.step (.group e) = { w with group := w.group.step e } := by
      simp only [step, he]
      rfl
    refine .apart ?_ (by rw [hstep])
    rw [hstep]
    rcases w.group.member_step e j with hsame | ⟨m, s, hs, hmember⟩ | ⟨settings, circuit, hmember⟩
    · rw [hsame]
      exact .refl _
    · rw [hmember]
      exact shrinks_step hstands m (hs.trans (Bool.not_eq_true _ ▸ he))
    · rw [hmember]
      exact ⟨.inr (.inr rfl), .inl rfl⟩

theorem meets_subscribe (i : ι) (m : Moment) (j : ι) : Meets w (.subscribe i m) j := by
  cases hphase : (w.group.member i).consumer.phase with
  | subscribing checkpoint =>
      by_cases hj : j = i
      · subst hj
        exact .subscribes rfl hphase
      · apply Meets.of_eq
        · simp only [step, hphase]
          rw [Group.step_signal _ _ _ rfl, Group.stepMember_member, if_neg hj]
        · simp only [step, hphase, Function.update_of_ne hj]
  | _ => apply Meets.of_eq <;> simp only [step, hphase]

theorem meets_next (i : ι) (m : Moment) (j : ι) : Meets w (.next i m) j := by
  cases hphase : (w.group.member i).consumer.phase with
  | waiting session =>
      cases hsub : w.sub i with
      | none => apply Meets.of_eq <;> simp only [step, hphase, hsub]
      | some s =>
          by_cases hj : j = i
          · subst hj
            exact .reads rfl hphase hsub
          · apply Meets.of_eq
            · simp only [step, hphase, hsub]
              split
              · rw [Group.step_signal _ _ _ rfl, Group.stepMember_member, if_neg hj]
              · rfl
            · simp only [step, hphase, hsub, Function.update_of_ne hj]
  | _ => apply Meets.of_eq <;> simp only [step, hphase]

theorem meets_look (i j : ι) : Meets w (.look i) j := by
  cases hsub : w.sub i with
  | none => apply Meets.of_eq <;> simp only [step, hsub]
  | some s =>
      by_cases hj : j = i
      · subst hj
        exact .looks rfl hsub
      · apply Meets.of_eq <;> simp only [step, hsub, Function.update_of_ne hj]

/-- Every event is one of these to a member that stands. -/
theorem meets {pos : UInt64} {j : ι}
    (hstands : Stands known pos (w.group.member j).consumer (w.group.member j).taken
      (w.group.member j).consumer.phase) (e : Event ι) : Meets w e j := by
  cases e with
  | group e => exact meets_group hstands e
  | publish seq entry => apply Meets.of_eq <;> simp only [step] <;> split <;> rfl
  | trim n => exact .of_eq rfl rfl
  | switch closed heartbeat failSubscribes disconnectAfter => exact .of_eq rfl rfl
  | subscribe i m => exact meets_subscribe i m j
  | next i m => exact meets_next i m j
  | look i => exact meets_look i j

/-- What the feed answers to a member that subscribes. -/
theorem subscribe_member {i : ι} {m : Moment} {checkpoint : UInt64}
    (hphase : (w.group.member i).consumer.phase = .subscribing checkpoint) :
    (w.step (.subscribe i m)).group.member i = (w.group.member i).step m (.subscribed
        ((w.feed.subscribe (w.group.member i).consumer.query checkpoint).2.map fun _ => ())) ∧
      (w.step (.subscribe i m)).sub i =
        (w.feed.subscribe (w.group.member i).consumer.query checkpoint).2.toOption := by
  simp only [step, hphase]
  rw [Group.step_signal _ _ _ rfl, Group.stepMember_member, if_pos rfl, Function.update_self]
  exact ⟨rfl, rfl⟩

/-- A look moves a subscription and nothing else. -/
theorem look_member {i : ι} {s : Subscription} (hs : w.sub i = some s) :
    (w.step (.look i)).group = w.group ∧ (w.step (.look i)).sub i = some (s.look w.feed).1 := by
  simp only [step, hs, Function.update_self, and_self]

/-- The members of a world keep what they have to. -/
theorem keeps_step {j : ι} (h : like.Keeps (w.group.member j).consumer) (e : Event ι) :
    like.Keeps ((w.step e).group.member j).consumer := by
  apply w.group_induct (P := fun g => like.Keeps (g.member j).consumer) e h
  intro e' _
  exact h.trans (w.group.member_keeps e' j)

/-- A member against the log, where `known` are the states of the store that it may have read, and
none of them has its checkpoint beyond `pos`. -/
structure Attends (known : List Records) (like : Consumer) (pos : UInt64) (w : World ι) (j : ι) :
    Prop where
  stands : Stands known pos (w.group.member j).consumer (w.group.member j).taken
    (w.group.member j).consumer.phase
  keeps : like.Keeps (w.group.member j).consumer
  follows : Follows like.query w.log w.feed.entries pos (w.group.member j) (w.sub j)

/-- What a member finds that reads its subscription. -/
inductive Reads (like : Consumer) (w : World ι) (i : ι) (m : Moment) (s : Subscription) : Prop where
  /-- The first change in scope beyond the subscription. -/
  | change {c : Change} {s' : Subscription} (hfound : (s.look w.feed).2 = .found c)
      (hc : c ∈ Log.inScope like.query (w.feed.entries.filter fun p => s.cursor < p.1))
      (hfirst : ∀ c' ∈ Log.inScope like.query (w.feed.entries.filter fun p => s.cursor < p.1),
        c.seq ≤ c'.seq)
      (hmatcher : s'.matcher = s.matcher) (hcursor : s'.cursor = c.seq)
      (hgroup : (w.step (.next i m)).group =
        w.group.stepMember i m (.item (.ok (some (.event c)))))
      (hsub : (w.step (.next i m)).sub = Function.update w.sub i (some s'))
      (hdelivered : (w.step (.next i m)).feed.delivered = w.feed.delivered ++ [c.seq])
  /-- A fault, which ends the session. -/
  | fault {e : FeedFault} (hfound : (s.look w.feed).2 = .fault e)
      (hgroup : (w.step (.next i m)).group = w.group.stepMember i m (.item (.error e)))
      (hsub : (w.step (.next i m)).sub = Function.update w.sub i (some (s.look w.feed).1))
      (hdelivered : (w.step (.next i m)).feed.delivered = w.feed.delivered)
  | nothing (hfound : (s.look w.feed).2 = .nothing)
      (hgroup : (w.step (.next i m)).group = w.group ∨
        (w.step (.next i m)).group = w.group.stepMember i m (.item (.ok none)))
      (hsub : (w.step (.next i m)).sub = Function.update w.sub i (some (s.look w.feed).1))
      (hdelivered : (w.step (.next i m)).feed.delivered = w.feed.delivered)

section Attends

variable {pos : UInt64} {j : ι}

omit [DecidableEq ι] in
/-- A session that waits has a subscription that tracks it. -/
theorem Attends.tracks (h : Attends known like pos w j) {session : Session}
    (hphase : (w.group.member j).consumer.phase = .waiting session) {s : Subscription}
    (hsub : w.sub j = some s) :
    Tracks like.query w.log w.feed.entries pos session.cursor s := by
  have hcursor : (w.group.member j).consumer.phase.cursor? = some session.cursor := by
    rw [hphase]
    rfl
  obtain ⟨_, hs, htracks⟩ := h.follows.live _ hcursor
  rw [hsub] at hs
  cases hs
  exact htracks

theorem Attends.reads (h : Attends known like pos w j) (hord : Ordered w) (m : Moment)
    {session : Session} (hphase : (w.group.member j).consumer.phase = .waiting session)
    {s : Subscription} (hsub : w.sub j = some s) : Reads like w j m s := by
  have hscanned := Feed.look_scanned s hord.entries
  have hanswer : ∀ answer, w.group.step (.signal j m (.item answer)) =
      w.group.stepMember j m (.item answer) := fun _ => Group.step_signal _ _ _ rfl
  -- the answer of the subscription, case by case
  cases hfound : (s.look w.feed).2 with
  | found c =>
      have hpolled := Feed.poll_of_found hfound
      obtain ⟨hc, hfirst⟩ := hscanned.found c hfound like.query (h.tracks hphase hsub).matcher
      have hmatcher : ((s.look w.feed).1.deliver w.feed c).2.matcher = s.matcher :=
        hscanned.matcher
      refine .change hfound hc hfirst hmatcher rfl ?_ ?_ ?_
      · simp only [step, hphase, hsub, hpolled]
        exact hanswer _
      · simp only [step, hphase, hsub, hpolled]
      · simp only [step, hphase, hsub, hpolled]
        rfl
  | fault e =>
      have hpolled := Feed.poll_of_fault hfound
      refine .fault hfound ?_ ?_ ?_
      · simp only [step, hphase, hsub, hpolled]
        exact hanswer _
      · simp only [step, hphase, hsub, hpolled]
      · simp only [step, hphase, hsub, hpolled]
  | nothing =>
      have hpolled := Feed.poll_of_nothing hfound
      refine .nothing hfound ?_ ?_ ?_
      · simp only [step, hphase, hsub, hpolled]
        by_cases hclosed : w.feed.closed = true
        · right
          rw [if_pos hclosed]
          exact hanswer _
        · left
          rw [if_neg hclosed]
      · simp only [step, hphase, hsub, hpolled]
      · simp only [step, hphase, hsub, hpolled]

/-- A member follows the log when it is given a subscription. -/
theorem Attends.follows_subscribe (h : Attends known like pos w j) (m : Moment)
    {checkpoint : UInt64}
    (hphase : (w.group.member j).consumer.phase = .subscribing checkpoint) :
    Follows like.query w.log w.feed.entries pos ((w.step (.subscribe j m)).group.member j)
      ((w.step (.subscribe j m)).sub j) := by
  obtain ⟨hmember, hsub⟩ := subscribe_member (m := m) hphase
  rw [h.keeps.query] at hmember hsub
  obtain ⟨hle, hhanded, hcursor⟩ := subscribed_step h.stands hphase m
    ((w.feed.subscribe like.query checkpoint).2.map fun _ => ())
  rw [hmember, hsub]
  refine ⟨?_, ?_, ?_⟩
  · rw [hhanded]
    exact fun _ hc => by cases hc
  · rw [hhanded]
    exact fun _ _ _ hx => by cases hx
  · intro cursor hcur
    rcases hcursor with hnone | ⟨hok, hsome⟩
    · rw [hnone] at hcur
      cases hcur
    · -- the subscription begins at the checkpoint, as the session does
      rw [hsome] at hcur
      cases hcur
      cases hopened : (w.feed.subscribe like.query checkpoint).2 with
      | error e =>
          rw [hopened] at hok
          cases hok
      | ok s =>
          obtain ⟨hmatcher, hs, -⟩ := Feed.Memory.subscribe_ok hopened
          refine ⟨s, rfl, hmatcher, ?_, ?_⟩
          · intro c _ hc
            exact .inl (hs ▸ hc)
          · exact .inl (hs ▸ hle)

/-- A member follows the log when it reads its subscription. -/
theorem Attends.follows_next (h : Attends known like pos w j) (hord : Ordered w) (m : Moment)
    {session : Session} (hphase : (w.group.member j).consumer.phase = .waiting session)
    {s : Subscription} (hsub : w.sub j = some s) :
    Follows like.query w.log w.feed.entries pos ((w.step (.next j m)).group.member j)
      ((w.step (.next j m)).sub j) := by
  have hretained := hord.mem_log
  have hscanned := Feed.look_scanned s hord.entries
  have hfollows := h.follows
  rw [hsub] at hfollows
  have htold : ∀ answer, Signal.handsOut (.item answer) = false →
      Follows like.query w.log w.feed.entries pos ((w.group.member j).step m (.item answer))
        (some (s.look w.feed).1) := fun answer hnothing =>
    (hfollows.shrinks (shrinks_step h.stands m hnothing) h.stands.lt_held).scanned hretained
      hscanned
  cases h.reads hord m hphase hsub with
  | change _ hc hfirst hmatcher hcursor hgroup hsub' =>
      rw [hgroup, hsub', Group.stepMember_member, if_pos rfl, Function.update_self]
      exact hfollows.receives h.stands hphase hord.entries hretained hc hfirst
        (receives_step h.stands m hphase _) hmatcher hcursor
  | fault _ hgroup hsub' =>
      rw [hgroup, hsub', Group.stepMember_member, if_pos rfl, Function.update_self]
      exact htold _ rfl
  | nothing _ hgroup hsub' =>
      rw [hsub', Function.update_self]
      rcases hgroup with hgroup | hgroup
      · rw [hgroup]
        exact hfollows.scanned hretained hscanned
      · rw [hgroup, Group.stepMember_member, if_pos rfl]
        exact htold _ rfl

/-- A member follows the log whatever happens. -/
theorem Attends.follows_step (h : Attends known like pos w j) (hord : Ordered w) (e : Event ι) :
    Follows like.query (w.step e).log (w.step e).feed.entries pos ((w.step e).group.member j)
      ((w.step e).sub j) := by
  cases w.step_logged e with
  | @published seq entry _ hlast hstep =>
      rw [hstep]
      dsimp only
      rw [hord.publishRaw_entries entry hlast]
      exact h.follows.publish hlast
  | trimmed _ hstep =>
      rw [hstep]
      exact h.follows.mono (fun p hp => (w.feed.trimThrough_sublist _).subset hp)
        (UInt64.le_refl _)
  | none hlog hentries =>
      rw [hlog, hentries]
      cases meets h.stands e with
      | apart hshrinks hsub =>
          rw [hsub]
          exact h.follows.shrinks hshrinks h.stands.lt_held
      | subscribes he hphase =>
          rw [he]
          exact h.follows_subscribe _ hphase
      | reads he hphase hs =>
          rw [he]
          exact h.follows_next hord _ hphase hs
      | looks he hs =>
          obtain ⟨hgroup, hsub⟩ := look_member hs
          rw [he, hgroup, hsub]
          have hfollows := h.follows
          rw [hs] at hfollows
          exact hfollows.scanned hord.mem_log (Feed.look_scanned _ hord.entries)

end Attends

/-- What a world keeps up, where every member keeps what `like` does. -/
structure Inv (known : List Records) (like : Consumer) (w : World ι) : Prop where
  sound : Group.Sound known like.checkpoint w.group
  keeps : ∀ i, like.Keeps (w.group.member i).consumer
  ordered : w.Ordered
  follows : ∀ i, Follows like.query w.log w.feed.entries
    (position w.group.store like.checkpoint) (w.group.member i) (w.sub i)

omit [DecidableEq ι] in
theorem Inv.attends (h : Inv known like w) (i : ι) :
    Attends known like (position w.group.store like.checkpoint) w i :=
  ⟨h.sound.stands i, h.keeps i, h.follows i⟩

/-- A world whose group stays sound keeps up the rest. -/
theorem Inv.step (h : Inv known like w) (e : Event ι)
    (hsound : Group.Sound known' like.checkpoint (w.step e).group)
    (hle : position w.group.store like.checkpoint ≤
      position (w.step e).group.store like.checkpoint) : Inv known' like (w.step e) where
  sound := hsound
  keeps i := keeps_step (h.keeps i) e
  ordered := h.ordered.step e
  follows i := ((h.attends i).follows_step h.ordered e).mono (fun _ hp => hp) hle

omit [DecidableEq ι] in
theorem Ordered.begin (rs : Records) (start : ι → Consumer) : Ordered (begin rs start) :=
  ⟨List.Pairwise.nil, by simp [World.begin], List.Sublist.refl _⟩

omit [DecidableEq ι] in
/-- A member without a session has nothing in hand that the log could be held against. -/
theorem Attends.of_quiet {pos : UInt64} {i : ι}
    (hquiet : (w.group.member i).consumer.phase.Quiet) (htaken : (w.group.member i).taken = [])
    (hkeeps : like.Keeps (w.group.member i).consumer) : Attends known like pos w i := by
  have hhanded : (w.group.member i).handed = [] := by
    rw [Member.handed, htaken, hquiet.held]
    rfl
  refine ⟨.quiet hquiet htaken, hkeeps, ?_, ?_, ?_⟩
  · rw [hhanded]
    exact fun _ hc => by cases hc
  · rw [hhanded]
    exact fun _ _ _ hx => by cases hx
  · intro cursor hcursor
    rw [hquiet.cursor?] at hcursor
    cases hcursor

omit [DecidableEq ι] in
/-- A member that is about to begin has no session. -/
theorem Attends.begin {rs : Records} {start : ι → Consumer}
    (hfresh : ∀ i, (start i).phase = .starting) (hlike : ∀ i, like.Keeps (start i)) (pos : UInt64)
    (i : ι) : Attends known like pos (begin rs start) i := by
  have hphase : ((World.begin rs start).group.member i).consumer.phase = .starting := hfresh i
  exact .of_quiet (hphase ▸ .starting) rfl (hlike i)

omit [DecidableEq ι] in
theorem Inv.begin {rs : Records} {start : ι → Consumer} (hfresh : ∀ i, (start i).phase = .starting)
    (hlike : ∀ i, like.Keeps (start i)) (hoff : like.pipeline.KeepsOff like.checkpoint) :
    Inv [rs] like (begin rs start) where
  sound := by
    refine Group.Sound.begin hfresh (fun i => (hlike i).checkpoint) ?_
    intro i
    rw [(hlike i).pipeline]
    exact hoff
  keeps := hlike
  ordered := .begin rs start
  follows i := by
    have hattends : Attends [rs] like (position rs like.checkpoint) (World.begin rs start) i :=
      .begin hfresh hlike _ i
    exact hattends.follows

end World

end ChangeRelay
