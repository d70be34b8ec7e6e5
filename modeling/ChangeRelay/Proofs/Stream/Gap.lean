import ChangeRelay.Proofs.Stream.World

/-!
# Gaps

What becomes of a change that the log discards before a consumer has come to it. A consumer
without a subscription finds the gap when it next subscribes, and halts there. One that has a
subscription is not told: it goes on with the changes behind the gap, and once it commits one of
them, its checkpoint is past a change that it never saw.
-/

namespace ChangeRelay

open Checkpoint (position standing)
open Feed (Log Subscription)
open Store (Address Records Memory)

/-- Only the log opens a subscription. -/
theorem Consumer.opens_eq_false (c : Consumer) {s : Signal} (h : s.handsOut = false) :
    c.opens s = false := by
  unfold Consumer.opens
  split
  · cases h
  · rfl

theorem Member.session_step (mb : Member) (m : Moment) {s : Signal} (h : s.handsOut = false) :
    (mb.step m s).session = mb.session := by
  rw [Member.step, mb.consumer.opens_eq_false h]
  rfl

theorem Member.session_step_item (mb : Member) (m : Moment) (answer : FeedAnswer) :
    (mb.step m (.item answer)).session = mb.session := by
  have hopens : mb.consumer.opens (.item answer) = false := by
    unfold Consumer.opens
    split
    · rename_i heq
      cases heq
    · rfl
  rw [Member.step, hopens]
  rfl

namespace World

section Hands

variable {ι : Type} [DecidableEq ι] {w : World ι} {like : Consumer} {known : List Records}

/-- What an event hands a member. -/
inductive Hands (like : Consumer) (w : World ι) (e : Event ι) (j : ι) : Prop where
  | nothing (h : Shrinks (w.group.member j) ((w.step e).group.member j))
      (hsession : ((w.step e).group.member j).session = (w.group.member j).session)
  /-- A subscription, which leaves out nothing that was trimmed. -/
  | opened {checkpoint : UInt64}
      (hphase : (w.group.member j).consumer.phase = .subscribing checkpoint)
      (hle : w.feed.trimmedThrough ≤ checkpoint)
      (hhanded : ((w.step e).group.member j).handed = [])
  | change {s : Session} {c : Change} (hphase : (w.group.member j).consumer.phase = .waiting s)
      (hc : c ∈ Log.inScope like.query w.feed.entries)
      (h : Receives (w.group.member j) ((w.step e).group.member j) c)
      (hdelivered : (w.step e).feed.delivered = w.feed.delivered ++ [c.seq])
      (hsession : ((w.step e).group.member j).session = (w.group.member j).session)

/-- A member that stays as it is was handed nothing. -/
theorem Hands.of_eq {e : Event ι} {j : ι}
    (h : (w.step e).group.member j = w.group.member j) : Hands like w e j :=
  .nothing (h ▸ Shrinks.refl _) (by rw [h])

theorem Inv.hands_group (h : Inv known like w) (e : Group.Event ι) (j : ι) :
    Hands like w (.group e) j := by
  by_cases he : e.handsOut = true
  · apply Hands.of_eq
    simp only [World.step, he, if_true]
  · -- whatever it is, it does not come from the log
    have hstep : (w.step (.group e)).group = w.group.step e := by simp only [World.step, he]; rfl
    rcases w.group.member_step e j with hsame | ⟨m, s, hs, hmember⟩ | ⟨settings, circuit, hmember⟩
    · exact .of_eq (by rw [hstep, hsame])
    · have hnone : s.handsOut = false := hs.trans (Bool.not_eq_true _ ▸ he)
      refine .nothing ?_ ?_
      · rw [hstep, hmember]
        exact shrinks_step (h.sound.stands j) m hnone
      · rw [hstep, hmember]
        exact Member.session_step _ m hnone
    · refine .nothing ?_ ?_
      · rw [hstep, hmember]
        exact ⟨.inr (.inr rfl), .inl rfl⟩
      · rw [hstep, hmember]
        rfl

theorem Inv.hands_subscribe (h : Inv known like w) (i : ι) (m : Moment) (j : ι) :
    Hands like w (.subscribe i m) j := by
  cases hphase : (w.group.member i).consumer.phase with
  | subscribing checkpoint =>
      generalize hopened : w.feed.subscribe like.query checkpoint = opened
      have hmember : (w.step (.subscribe i m)).group.member j =
          if j = i then (w.group.member i).step m (.subscribed (opened.2.map fun _ => ()))
          else w.group.member j := by
        simp only [World.step, hphase]
        rw [Group.step_signal _ _ _ rfl, Group.stepMember_member, (h.keeps i).query, hopened]
      by_cases hj : j = i
      · subst hj
        rw [if_pos rfl] at hmember
        cases hanswer : opened.2 with
        | error e =>
            rw [hanswer] at hmember
            refine .nothing ?_ ?_
            · rw [hmember]
              exact shrinks_step (h.sound.stands j) m rfl
            · rw [hmember]
              exact Member.session_step _ m rfl
        | ok s =>
            -- a subscription is given, so that nothing behind the checkpoint was trimmed
            rw [← hopened] at hanswer
            refine .opened hphase (Feed.Memory.subscribe_ok hanswer).2.2 ?_
            rw [hmember]
            exact (subscribed_step (h.sound.stands j) hphase m _).2.1
      · exact .of_eq (hmember.trans (if_neg hj))
  | _ =>
      apply Hands.of_eq
      simp only [World.step, hphase]

/-- An answer without a change hands nobody anything. -/
theorem Inv.hands_told (h : Inv known like w) {e : Event ι} {i : ι} (m : Moment)
    {answer : FeedAnswer} (hnothing : Signal.handsOut (.item answer) = false)
    (hgroup : (w.step e).group = w.group.stepMember i m (.item answer)) (j : ι) :
    Hands like w e j := by
  by_cases hj : j = i
  · subst hj
    refine .nothing ?_ ?_
    · rw [hgroup, Group.stepMember_member, if_pos rfl]
      exact shrinks_step (h.sound.stands j) m hnothing
    · rw [hgroup, Group.stepMember_member, if_pos rfl]
      exact Member.session_step _ m hnothing
  · exact .of_eq (by rw [hgroup, Group.stepMember_member, if_neg hj])

theorem Inv.hands_next (h : Inv known like w) (i : ι) (m : Moment) (j : ι) :
    Hands like w (.next i m) j := by
  cases hphase : (w.group.member i).consumer.phase with
  | waiting session =>
      cases hsub : w.sub i with
      | none =>
          apply Hands.of_eq
          simp only [World.step, hphase, hsub]
      | some s =>
          cases (h.attends i).reads h.ordered m hphase hsub with
          | change _ hc hfirst hmatcher hcursor hgroup hsub' hdelivered =>
              by_cases hj : j = i
              · subst hj
                have hin := Log.inScope_mono (fun _ hp => (List.mem_filter.1 hp).1) hc
                refine .change hphase hin ?_ hdelivered ?_
                · rw [hgroup, Group.stepMember_member, if_pos rfl]
                  exact receives_step (h.sound.stands j) m hphase _
                · rw [hgroup, Group.stepMember_member, if_pos rfl]
                  exact Member.session_step_item _ m _
              · exact .of_eq (by rw [hgroup, Group.stepMember_member, if_neg hj])
          | fault _ hgroup => exact h.hands_told m rfl hgroup j
          | nothing _ hgroup =>
              rcases hgroup with hgroup | hgroup
              · exact .of_eq (by rw [hgroup])
              · exact h.hands_told m rfl hgroup j
  | _ =>
      apply Hands.of_eq
      simp only [World.step, hphase]

theorem Inv.hands (h : Inv known like w) (e : Event ι) (j : ι) : Hands like w e j := by
  cases e with
  | group e => exact h.hands_group e j
  | publish seq entry =>
      apply Hands.of_eq
      simp only [World.step]
      split <;> rfl
  | trim n => exact .of_eq rfl
  | switch closed heartbeat failSubscribes disconnectAfter => exact .of_eq rfl
  | subscribe i m => exact h.hands_subscribe i m j
  | next i m => exact h.hands_next i m j
  | look i =>
      apply Hands.of_eq
      simp only [World.step]
      split <;> rfl

end Hands

/-! ## One consumer -/

/-- What was handed out stays noted. -/
theorem mem_delivered_step {ι : Type} [DecidableEq ι] (w : World ι) (e : Event ι) {n : UInt64}
    (h : n ∈ w.feed.delivered) : n ∈ (w.step e).feed.delivered := by
  cases e with
  | group e =>
      simp only [step]
      split <;> exact h
  | publish seq entry =>
      simp only [step]
      split <;> exact h
  | trim seq => exact h
  | switch closed heartbeat failSubscribes disconnectAfter => exact h
  | subscribe i m =>
      simp only [step]
      split
      · rename_i checkpoint _
        rw [(w.feed.subscribe_frame (w.group.member i).consumer.query checkpoint).2.2]
        exact h
      · exact h
  | next i m =>
      simp only [step]
      split
      · exact Feed.poll_delivered _ _ h
      · exact h
  | look i =>
      simp only [step]
      split <;> exact h

variable {w : World Unit} {like : Consumer}

theorem guardsTell_self (rs : Records) (a : Address) : Store.GuardsTell [rs] a rs := by
  intro rs₀ hrs₀ _
  rw [List.mem_singleton.1 hrs₀]

/-- A store that is written by nobody else is known as it is. -/
theorem sound_step_alone {g : Group Unit} {a : Address} (h : Group.Sound [g.store] a g)
    (e : Group.Event Unit) (hforeign : ∀ b action, e ≠ .foreign b action) :
    Group.Sound [(g.step e).store] a (g.step e) ∧
      standing g.store a ≤ standing (g.step e).store a := by
  have htell := guardsTell_self g.store a
  refine ⟨?_, h.standing_le htell e fun b action he => absurd he (hforeign b action)⟩
  -- nobody else reads, so that what the last batch left is all there is to know
  cases e with
  | signal i m s =>
      have hstore : (g.step (.signal i m s)).store = g.store := by
        simp only [Group.step]
        split <;> rfl
      rw [hstore]
      exact h.signal i m s
  | read i m fault =>
      have hstore : (g.step (.read i m fault)).store = g.store := by
        simp only [Group.step]
        split <;> rfl
      rw [hstore]
      exact h.read i m fault
  | write i m fate =>
      simp only [Group.step]
      split
      · rename_i ops hreq
        apply h.stepStore htell hreq
        · exact fun j hj => absurd rfl hj
        · exact List.mem_singleton_self _
      · exact h
  | restart i settings circuit => exact h.restart i settings circuit
  | foreign b action => exact absurd rfl (hforeign b action)

/-- What the world of one consumer keeps up. -/
structure Alone (like : Consumer) (w : World Unit) : Prop where
  inv : Inv [w.group.store] like w
  noted : ∀ y ∈ (w.group.member ()).handed, y.seq ∈ w.feed.delivered

/-- The group of one consumer stays sound, and its checkpoint does not go back. -/
theorem Alone.sound_step (h : Alone like w) {e : Event Unit}
    (hforeign : ∀ b action, e ≠ .group (.foreign b action)) :
    Group.Sound [(w.step e).group.store] like.checkpoint (w.step e).group ∧
      position w.group.store like.checkpoint ≤
        position (w.step e).group.store like.checkpoint := by
  apply w.group_induct (P := fun g => Group.Sound [g.store] like.checkpoint g ∧
    position w.group.store like.checkpoint ≤ position g.store like.checkpoint) e
  · exact ⟨h.inv.sound, UInt64.le_refl _⟩
  · intro e' hforeign'
    have hours : ∀ b action, e' ≠ .foreign b action :=
      fun b action he => hforeign b action (hforeign' b action he)
    obtain ⟨hsound, hle⟩ := sound_step_alone h.inv.sound e' hours
    exact ⟨hsound, position_le_of_standing_le hle⟩

theorem Alone.step (h : Alone like w) {e : Event Unit}
    (hforeign : ∀ b action, e ≠ .group (.foreign b action)) : Alone like (w.step e) where
  inv := by
    obtain ⟨hsound, hle⟩ := h.sound_step hforeign
    exact h.inv.step e hsound hle
  noted y hy := by
    cases h.inv.hands e () with
    | nothing hshrinks => exact mem_delivered_step w e (h.noted y (mem_of_shrinks hshrinks hy))
    | opened hphase hle hhanded =>
        rw [hhanded] at hy
        cases hy
    | change hphase hc hreceives hdelivered =>
        rcases mem_of_receives hreceives hy with hy | rfl
        · exact mem_delivered_step w e (h.noted y hy)
        · rw [hdelivered]
          exact List.mem_append_right _ (List.mem_singleton_self _)

theorem Alone.begin (rs : Records) (hfresh : like.phase = .starting)
    (hoff : like.pipeline.KeepsOff like.checkpoint) : Alone like (begin rs fun _ => like) where
  inv := Inv.begin (fun _ => hfresh) (fun _ => Consumer.Keeps.refl _) hoff
  noted y hy := by
    have hnone : ((World.begin rs fun _ => like).group.member ()).handed = [] := by
      rw [Member.handed]
      exact congrArg ConsumerPhase.held hfresh
    rw [hnone] at hy
    cases hy

theorem Alone.run {w₀ : World Unit} (h : Alone like w₀) (events : List (Event Unit))
    (hforeign : ∀ b action, .group (.foreign b action) ∉ events) : Alone like (w₀.run events) := by
  induction events using List.reverseRecOn with
  | nil => exact h
  | append_singleton events e ih =>
      rw [run_append_singleton]
      refine (ih fun b action he => hforeign b action (List.mem_append_left _ he)).step ?_
      rintro b action rfl
      exact hforeign b action (List.mem_append_right _ (List.mem_singleton_self _))

/-! ## A change that was missed -/

/-- How the checkpoint stands to a change that was discarded unseen, in a session that was live or
not at the time. -/
inductive Course (like : Consumer) (x : Change) (live : Prop) (session : Nat) (w : World Unit) :
    Prop where
  /-- The checkpoint is before it, and so is what the consumer has in hand, unless its session was
  live. -/
  | before (hlt : position w.group.store like.checkpoint < x.seq)
      (hsession : (w.group.member ()).session = session)
      (hsides : live ∨ (w.group.member ()).consumer.phase.cursor? = none ∧
        ∀ y ∈ (w.group.member ()).handed, y.seq < x.seq)
  /-- The session that was live has committed a change behind it. -/
  | passed (hlive : live) {k : Commit Unit} (hk : k ∈ w.group.commits)
      (hsession : k.session = session) {y : Change} (hy : y ∈ k.changes) (hlt : x.seq < y.seq)

/-- A change that was discarded unseen. -/
structure Missed (like : Consumer) (x : Change) (live : Prop) (session : Nat) (w : World Unit) :
    Prop where
  gone : ∀ p ∈ w.feed.entries, p.1 ≠ x.seq
  published : ∃ p ∈ w.log, x.seq ≤ p.1
  trimmed : x.seq ≤ w.feed.trimmedThrough
  unseen : ∀ y ∈ (w.group.member ()).handed, y.seq ≠ x.seq
  unapplied : ∀ k ∈ w.group.commits, ∀ y ∈ k.changes, y.seq ≠ x.seq
  course : Course like x live session w

variable {x : Change} {live : Prop} {session : Nat}

/-- What was noted of a batch stays noted. -/
theorem mem_commits_step {e : Event Unit} {k : Commit Unit}
    (hforeign : ∀ b action, e ≠ .group (.foreign b action)) (h : k ∈ w.group.commits) :
    k ∈ (w.step e).group.commits := by
  rcases w.step_store e with ⟨-, hcommits⟩ | ⟨b, action, he, -⟩ | ⟨i, ops, -, -, hcommits⟩
  · rw [hcommits]
    exact h
  · exact absurd he (hforeign b action)
  · rw [hcommits]
    exact List.mem_append_left _ h

/-- No subscription is given that begins before a discarded change. -/
theorem Missed.not_opened (h : Missed like x live session w) (ha : Alone like w)
    (hlt : position w.group.store like.checkpoint < x.seq) {checkpoint : UInt64}
    (hphase : (w.group.member ()).consumer.phase = .subscribing checkpoint) :
    checkpoint < w.feed.trimmedThrough := by
  have hstands := ha.inv.sound.stands ()
  rw [hphase] at hstands
  cases hstands with
  | quiet hq => cases hq
  | subscribing hle hnone =>
      exact UInt64.lt_of_le_of_lt hle (UInt64.lt_of_lt_of_le hlt h.trimmed)

/-- A step that leaves the checkpoint before a discarded change leaves the session as it was. -/
theorem Missed.before_step (h : Missed like x live session w) (ha : Alone like w) {e : Event Unit}
    (hlt : position w.group.store like.checkpoint < x.seq)
    (hsession : (w.group.member ()).session = session)
    (hsides : live ∨ (w.group.member ()).consumer.phase.cursor? = none ∧
      ∀ y ∈ (w.group.member ()).handed, y.seq < x.seq)
    (hlt' : position (w.step e).group.store like.checkpoint < x.seq) :
    Course like x live session (w.step e) := by
  cases ha.inv.hands e () with
  | nothing hshrinks hsession' =>
      refine .before hlt' (hsession'.trans hsession) ?_
      rcases hsides with hlive | ⟨hnone, hall⟩
      · exact .inl hlive
      · refine .inr ⟨?_, fun y hy => hall y (mem_of_shrinks hshrinks hy)⟩
        rcases hshrinks.cursor with hcursor | hcursor
        · exact hcursor
        · exact hcursor.trans hnone
  -- no session begins as long as the checkpoint is before the change
  | opened hphase hle hhanded =>
      exact absurd hle (UInt64.not_le.2 (h.not_opened ha hlt hphase))
  | change hphase hc hreceives hdelivered hsession' =>
      refine .before hlt' (hsession'.trans hsession) (.inl ?_)
      rcases hsides with hlive | ⟨hnone, -⟩
      · exact hlive
      · -- a session that reads is live
        rw [hphase] at hnone
        cases hnone

theorem Missed.course_step (h : Missed like x live session w) (ha : Alone like w) {e : Event Unit}
    (hforeign : ∀ b action, e ≠ .group (.foreign b action)) :
    Course like x live session (w.step e) := by
  cases h.course with
  | passed hlive hk hsession hy hlt =>
      exact .passed hlive (mem_commits_step hforeign hk) hsession hy hlt
  | before hlt hsession hsides =>
      by_cases hlt' : position (w.step e).group.store like.checkpoint < x.seq
      · exact h.before_step ha hlt hsession hsides hlt'
      · rcases w.step_store e with ⟨hstore, -⟩ | ⟨b, action, he, -⟩ | ⟨i, ops, hreq, hs, hcommits⟩
        · rw [hstore] at hlt'
          exact absurd hlt hlt'
        · exact absurd he (hforeign b action)
        · -- the last change of the batch lies behind the one that was discarded
          obtain ⟨p, after, hw⟩ := ha.inv.sound.writes (guardsTell_self _ _) hreq hs
          obtain ⟨y, hy, hreaches⟩ := hw.reaches ha.inv.sound
          rw [hreaches, UInt64.not_lt] at hlt'
          have hhanded : y ∈ (w.group.member ()).handed := List.mem_append_left _ hy
          have hbeyond : x.seq < y.seq := by
            have hne := h.unseen y hhanded
            grind
          have hmem : w.group.commitOf i (w.step e).group.store ∈ (w.step e).group.commits := by
            rw [hcommits]
            exact List.mem_append_right _ (List.mem_singleton_self _)
          rcases hsides with hlive | ⟨-, hall⟩
          · exact .passed hlive hmem hsession hy hbeyond
          · exact absurd (hall y hhanded) (UInt64.lt_asymm hbeyond)

/-- The log never takes a discarded change up again. -/
theorem Missed.log_step (h : Missed like x live session w) (ha : Alone like w) (e : Event Unit) :
    (∀ p ∈ (w.step e).feed.entries, p.1 ≠ x.seq) ∧ (∃ p ∈ (w.step e).log, x.seq ≤ p.1) ∧
      x.seq ≤ (w.step e).feed.trimmedThrough := by
  obtain ⟨p₀, hp₀, hle₀⟩ := h.published
  cases w.step_logged e with
  | none hlog hentries htrimmed =>
      rw [hlog, hentries, htrimmed]
      exact ⟨h.gone, h.published, h.trimmed⟩
  | @published seq entry hpositive hlast hstep =>
      rw [hstep, ha.inv.ordered.publishRaw_entries entry hlast]
      refine ⟨?_, ⟨p₀, List.mem_append_left _ hp₀, hle₀⟩, h.trimmed⟩
      intro p hp
      rcases List.mem_append.1 hp with hp | hp
      · exact h.gone p hp
      · -- what is new lies beyond everything that was ever published
        rw [List.mem_singleton.1 hp]
        exact (UInt64.ne_of_lt (UInt64.lt_of_le_of_lt hle₀ (hlast p₀ hp₀))).symm
  | @trimmed n he hstep =>
      rw [hstep]
      refine ⟨?_, h.published, UInt64.le_trans h.trimmed (w.feed.trimmedThrough_le n)⟩
      exact fun p hp => h.gone p ((w.feed.trimThrough_sublist n).subset hp)

theorem Missed.step (h : Missed like x live session w) (ha : Alone like w) {e : Event Unit}
    (hforeign : ∀ b action, e ≠ .group (.foreign b action)) :
    Missed like x live session (w.step e) := by
  obtain ⟨hgone, hpublished, htrimmed⟩ := h.log_step ha e
  refine ⟨hgone, hpublished, htrimmed, ?_, ?_, h.course_step ha hforeign⟩
  · intro y hy
    cases ha.inv.hands e () with
    | nothing hshrinks => exact h.unseen y (mem_of_shrinks hshrinks hy)
    | opened hphase hle hhanded =>
        rw [hhanded] at hy
        cases hy
    | change hphase hc hreceives =>
        rcases mem_of_receives hreceives hy with hy | rfl
        · exact h.unseen y hy
        · obtain ⟨p, hp, heq⟩ := Log.exists_of_mem_inScope hc
          exact heq ▸ h.gone p hp
  · intro k hk
    rcases w.step_store e with ⟨-, hcommits⟩ | ⟨b, action, he, -⟩ | ⟨i, ops, -, -, hcommits⟩
    · exact h.unapplied k (hcommits ▸ hk)
    · exact absurd he (hforeign b action)
    · rw [hcommits] at hk
      rcases List.mem_append.1 hk with hk | hk
      · exact h.unapplied k hk
      · rw [List.mem_singleton.1 hk]
        exact fun y hy => h.unseen y (List.mem_append_left _ hy)

theorem Missed.run {w₀ : World Unit} (h : Missed like x live session w₀) (ha : Alone like w₀)
    (events : List (Event Unit)) (hforeign : ∀ b action, .group (.foreign b action) ∉ events) :
    Missed like x live session (w₀.run events) := by
  -- from the end, as the world of one consumer is kept up at every beginning of the run
  induction events using List.reverseRecOn with
  | nil => exact h
  | append_singleton events e ih =>
      rw [run_append_singleton]
      have hforeign' : ∀ b action, .group (.foreign b action) ∉ events :=
        fun b action he => hforeign b action (List.mem_append_left _ he)
      refine (ih hforeign').step (ha.run events hforeign') ?_
      rintro b action rfl
      exact hforeign b action (List.mem_append_right _ (List.mem_singleton_self _))

/-- Where a change is discarded unseen, all that the consumer has in hand lies before it. -/
theorem Alone.lt_of_discarded (h : Alone like w) (hin : x ∈ Log.inScope like.query w.feed.entries)
    (hbehind : position w.group.store like.checkpoint < x.seq)
    (hunseen : x.seq ∉ w.feed.delivered) : ∀ y ∈ (w.group.member ()).handed, y.seq < x.seq := by
  intro y hy
  rw [← UInt64.not_le]
  intro hle
  rcases (h.inv.follows ()).closed x hin y hy hle with hmine | hpassed
  · exact hunseen (h.noted x hmine)
  · exact UInt64.not_le.2 hbehind hpassed

/-- A change that is discarded unseen is missed. -/
theorem Alone.missed (h : Alone like w) {n : UInt64}
    (hin : x ∈ Log.inScope like.query w.feed.entries)
    (hout : x ∉ Log.inScope like.query (w.feed.trimThrough n).entries)
    (hbehind : position w.group.store like.checkpoint < x.seq)
    (hunseen : x.seq ∉ w.feed.delivered) :
    Missed like x ((w.group.member ()).consumer.phase.cursor?.isSome = true)
      (w.group.member ()).session (w.step (.trim n)) := by
  obtain ⟨⟨entry, hmem, hok⟩, hselects⟩ := Log.mem_inScope.1 hin
  have hgone : (x.seq, entry) ∉ (w.feed.trimThrough n).entries := fun hkept =>
    hout (Log.mem_inScope.2 ⟨⟨entry, hkept, hok⟩, hselects⟩)
  have hlt := h.lt_of_discarded hin hbehind hunseen
  refine ⟨?_, ?_, ?_, ?_, ?_, ?_⟩
  · -- at the position of the change there was no other entry
    rintro ⟨seq, entry'⟩ hkept rfl
    have hentry := h.inv.ordered.entries.entry_eq hmem ((w.feed.trimThrough_sublist n).subset hkept)
    exact hgone (hentry ▸ hkept)
  · exact ⟨_, h.inv.ordered.mem_log _ hmem, UInt64.le_refl _⟩
  · exact UInt64.le_trans (Feed.Memory.le_of_trimmed hmem hgone) (w.feed.le_trimmedThrough n)
  · exact fun y hy => UInt64.ne_of_lt (hlt y hy)
  · intro k hk y hy
    have hreached := le_position_of_le_standing (h.inv.sound.journal.reached k hk y hy)
    exact UInt64.ne_of_lt (UInt64.lt_of_le_of_lt hreached hbehind)
  · refine .before hbehind rfl ?_
    cases hcursor : (w.group.member ()).consumer.phase.cursor? with
    | none => exact .inr ⟨hcursor, hlt⟩
    | some cursor => exact .inl rfl

/-- A consumer that subscribes before a discarded change finds the gap and halts. -/
theorem Missed.halts (h : Missed like x live session w) (ha : Alone like w)
    (hselects : like.query.selects x = true)
    (hlt : position w.group.store like.checkpoint < x.seq) {checkpoint : UInt64} (m : Moment)
    (hphase : (w.group.member ()).consumer.phase = .subscribing checkpoint)
    (hfail : w.feed.failSubscribes = 0) :
    ((w.step (.subscribe () m)).group.member ()).consumer.phase = .paused ∧
      ((w.step (.subscribe () m)).group.member ()).consumer.health =
        .paused (some (checkpoint + 1))
          (StreamFault.gap (checkpoint + 1) w.feed.oldest).message := by
  have hgap := h.not_opened ha hlt hphase
  obtain ⟨matcher, hmatcher⟩ : ∃ matcher, like.query.matcher = .ok matcher := by
    unfold Query.selects at hselects
    split at hselects
    · exact ⟨_, by assumption⟩
    · cases hselects
  have hopened := Feed.Memory.subscribe_gap hmatcher hfail hgap
  have hmember : (w.step (.subscribe () m)).group.member () =
      (w.group.member ()).step m (.subscribed (.error (.gap (checkpoint + 1) w.feed.oldest))) := by
    simp only [World.step, hphase]
    rw [Group.step_signal _ _ _ rfl, Group.stepMember_member, if_pos rfl, (ha.inv.keeps ()).query,
      hopened]
    rfl
  rw [hmember]
  simp only [Member.step, Consumer.step, hphase]
  exact ⟨rfl, rfl⟩

/-- What becomes of a change in scope that a trim discards beyond the checkpoint, before it was
handed out. It is never applied. The checkpoint comes past it exactly if a session was live at the
trim and commits a change behind it; as long as the checkpoint has not, every subscription is
refused for the gap, and the stream halts there. -/
theorem passes_discarded_iff (rs : Records) (start : Consumer) (earlier later : List (Event Unit))
    (w w' : World Unit) (x : Change) (n : UInt64)
    (hrun : (begin rs fun _ => start).run earlier = w) (hrun' : (w.step (.trim n)).run later = w')
    (hfresh : start.phase = .starting) (hoff : start.pipeline.KeepsOff start.checkpoint)
    (hforeign : ∀ b action, .group (.foreign b action) ∉ earlier ++ later)
    (hin : x ∈ Log.inScope start.query w.feed.entries)
    (hout : x ∉ Log.inScope start.query (w.feed.trimThrough n).entries)
    (hbehind : position w.group.store start.checkpoint < x.seq)
    (hunseen : x.seq ∉ w.feed.delivered) :
    (x.seq ≤ position w'.group.store start.checkpoint ↔
      (w.group.member ()).consumer.phase.cursor?.isSome ∧ ∃ k ∈ w'.group.commits,
        k.session = (w.group.member ()).session ∧ ∃ y ∈ k.changes, x.seq < y.seq) ∧
    (∀ k ∈ w'.group.commits, x ∉ k.changes) ∧
    (position w'.group.store start.checkpoint < x.seq → ∀ checkpoint m,
      (w'.group.member ()).consumer.phase = .subscribing checkpoint → w'.feed.failSubscribes = 0 →
        ((w'.step (.subscribe () m)).group.member ()).consumer.phase = .paused ∧
        ((w'.step (.subscribe () m)).group.member ()).consumer.health =
          .paused (some (checkpoint + 1))
            (StreamFault.gap (checkpoint + 1) w'.feed.oldest).message) := by
  have halone : Alone start w := by
    rw [← hrun]
    apply (Alone.begin rs hfresh hoff).run earlier
    exact fun b action h => hforeign b action (List.mem_append_left _ h)
  have hlater : ∀ b action, .group (.foreign b action) ∉ later := fun b action h =>
    hforeign b action (List.mem_append_right _ h)
  have htrimmed := halone.step (e := .trim n) (by simp)
  have hmissed := (halone.missed hin hout hbehind hunseen).run htrimmed later hlater
  have halone' := htrimmed.run later hlater
  rw [hrun'] at hmissed halone'
  refine ⟨⟨?_, ?_⟩, ?_, ?_⟩
  · intro hpassed
    cases hmissed.course with
    | before hlt => exact absurd hpassed (UInt64.not_le.2 hlt)
    | passed hlive hk hsession hy hlt => exact ⟨hlive, _, hk, hsession, _, hy, hlt⟩
  · rintro ⟨-, k, hk, -, y, hy, hlt⟩
    have hreached := le_position_of_le_standing (halone'.inv.sound.journal.reached k hk y hy)
    exact UInt64.le_of_lt (UInt64.lt_of_lt_of_le hlt hreached)
  · intro k hk hx
    exact hmissed.unapplied k hk x hx rfl
  · intro hlt checkpoint m hphase hfail
    exact hmissed.halts halone' (Log.mem_inScope.1 hin).2 hlt m hphase hfail

/-- A consumer that mirrors the people two at a time. -/
def pairwise : Consumer := { Group.people with settings := { batch := { maxEvents := 2 } } }

/-- Three people are published, and the consumer is handed the first of them. -/
def reading : List (Event Unit) :=
  let m : Moment := { now := { nanos := 0 } }
  [.publish 1 (person "cn=ann,dc=x" 1), .publish 2 (person "cn=bob,dc=x" 2),
    .publish 3 (person "cn=cyd,dc=x" 3), .group (.signal () m (.start false)),
    .group (.read () m none), .subscribe () m, .next () m]

/-- The consumer is handed another one, and commits both. -/
def readingOn : List (Event Unit) :=
  let m : Moment := { now := { nanos := 0 } }
  [.next () m, .group (.read () m none), .group (.read () m none), .group (.read () m none),
    .group (.write () m .decided)]

/-- The second of them. -/
def bob : Change := ⟨2, .add, "cn=bob,dc=x", [("cn", ["x"])], entryMetadata "cn=bob,dc=x" 2 .add⟩

set_option maxRecDepth 100000 in
/-- A change that is trimmed away under a live session is passed without a word. -/
theorem passes_discarded_iff_readingOn :
    let w := (begin [] fun _ => pairwise).run reading
    let w' := (w.step (.trim 2)).run readingOn
    (position w.group.store pairwise.checkpoint = 0 ∧
      position w'.group.store pairwise.checkpoint = 3 ∧
      w'.group.commits.map (fun k => k.changes.map Change.seq) = [[1, 3]]) ∧
    (bob.seq ≤ position w'.group.store pairwise.checkpoint ↔
      (w.group.member ()).consumer.phase.cursor?.isSome ∧ ∃ k ∈ w'.group.commits,
        k.session = (w.group.member ()).session ∧ ∃ y ∈ k.changes, bob.seq < y.seq) := by
  intro w w'
  refine ⟨by decide +kernel, ?_⟩
  have hbuild : Registry.builtins.build "people" Group.peopleChain = .ok pairwise.pipeline := rfl
  refine (passes_discarded_iff [] pairwise reading readingOn w w' bob 2 rfl rfl rfl
    (Registry.build_keepsOff hbuild (by decide)) ?_ ?_ ?_ ?_ ?_).1
  · intro b action h
    simp [reading, readingOn] at h
  · decide +kernel
  · decide +kernel
  · decide +kernel
  · decide +kernel

end World

end ChangeRelay
