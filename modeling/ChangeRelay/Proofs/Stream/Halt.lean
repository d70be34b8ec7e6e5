import ChangeRelay.Proofs.Stream.Standing

/-!
# Halting before an entry

An entry that is malformed, or whose change the triggers refuse, bars the log to a consumer. The
subscription itself gets past it, and what came before is committed when the session ends; yet each
session ends there and the next begins at the checkpoint again, so that the checkpoint stays before
the entry however often the consumer tries, and nothing from there on is written.
-/

namespace ChangeRelay

open Checkpoint (Proposal position standing batchOf)
open Feed (Log LogEntry Subscription)
open Store (Address Record Records BatchOp Memory)

/-- An entry that a consumer cannot take: it is malformed, in scope or not, or its change is in
scope and the triggers refuse it. -/
inductive Consumer.Barred (c : Consumer) (seq : UInt64) (entry : LogEntry) : Prop where
  | malformed {e : FeedFault} (h : entry.change seq = .error e)
  | refused {x : Change} {e : StreamFault} (hchange : entry.change seq = .ok x)
      (hscope : c.query.selects x = true) (happly : c.pipeline.apply x = .error e)

/-- A scan that comes to such an entry ends there. -/
theorem Consumer.Barred.accepts {c : Consumer} {seq : UInt64} {entry : LogEntry}
    (h : c.Barred seq entry) {m : Matcher} (hm : c.query.matcher = .ok m) :
    ∀ x, entry.change seq = .ok x → m.accepts x.target = true := by
  intro x hx
  cases h with
  | malformed h =>
      rw [h] at hx
      cases hx
  | refused hchange hscope happly =>
      rw [hchange] at hx
      cases hx
      rw [← hscope, Query.selects, hm]

/-- The end of a session leaves no cursor. -/
theorem Consumer.flush_cursor? (c : Consumer) (s : Session) {after : AfterCommit}
    (hafter : ∀ cursor, after ≠ .goOn cursor) (m : Moment) :
    (c.flush s after m).1.phase.cursor? = none := by
  cases hrange : s.batch.range with
  | none =>
      rcases (c.flush_none_turns hrange after m).phase with hquiet | ⟨cursor, hgoOn, -⟩
      · exact hquiet.cursor?
      · exact absurd hgoOn (hafter cursor)
  | some range =>
      rcases (c.flush_turns hrange after m).phase with hquiet | ⟨time, hphase⟩
      · exact hquiet.cursor?
      · rw [hphase]
        cases after with
        | goOn cursor => exact absurd rfl (hafter cursor)
        | stop => rfl
        | fail e => rfl

namespace World

variable {ι : Type} [DecidableEq ι] {w : World ι} {like : Consumer} {seq : UInt64}
  {entry : LogEntry}

/-- A reader that gives up on a look has found no fault. -/
def NotFault (w : World ι) (e : Event ι) : Prop :=
  ∀ i s f, e = .look i → w.sub i = some s → (s.look w.feed).2 ≠ .fault f

/-- One event, where a reader that comes to a fault is told: it gives up on a change that was found
or on an empty log, but not on a fault. -/
def heed (w : World ι) (e : Event ι) : World ι :=
  match e with
  | .look i =>
    match (w.sub i).map fun s => (s.look w.feed).2 with
    | some (Feed.Finding.fault _) => w
    | _ => w.step e
  | _ => w.step e

/-- Such events one after another. -/
def heedAll (w : World ι) (events : List (Event ι)) : World ι := events.foldl heed w

theorem heedAll_append (w : World ι) (earlier later : List (Event ι)) :
    w.heedAll (earlier ++ later) = (w.heedAll earlier).heedAll later := List.foldl_append

theorem heedAll_append_singleton (w : World ι) (events : List (Event ι)) (e : Event ι) :
    w.heedAll (events ++ [e]) = (w.heedAll events).heed e := by
  simp [heedAll, List.foldl_append]

theorem heed_cases (w : World ι) (e : Event ι) :
    w.heed e = w ∨ w.heed e = w.step e ∧ w.NotFault e := by
  unfold heed
  split
  · rename_i i
    split
    · exact .inl rfl
    · rename_i hfound
      refine .inr ⟨rfl, ?_⟩
      intro j s f he hs hfault
      cases he
      exact hfound f (by rw [hs, Option.map_some, hfault])
  · rename_i hlook
    exact .inr ⟨rfl, fun i _ _ he => absurd he (hlook i)⟩

/-! ## Members before the entry -/

theorem lt_of_le_pred {a b : UInt64} (hb : 0 < b) (h : a ≤ b - 1) : a < b := by
  grind

theorem le_pred_of_lt {a b : UInt64} (h : a < b) : a ≤ b - 1 := by
  grind

/-- A member before a position: nothing beyond it is in its hand, and its subscription has not
passed it, unless the member holds the change there back. -/
structure Held (seq : UInt64) (mb : Member) (sub : Option Subscription) : Prop where
  handed : ∀ c ∈ mb.handed, c.seq ≤ seq
  behind : ∀ cursor, mb.consumer.phase.cursor? = some cursor →
    ∃ s, sub = some s ∧ (s.cursor < seq ∨ seq ≤ cursor)

section Held

variable {mb mb' : Member} {sub : Option Subscription} {s s' : Subscription}

theorem Held.shrinks (h : Held seq mb sub) (hshrinks : Shrinks mb mb') : Held seq mb' sub where
  handed c hc := h.handed c (mem_of_shrinks hshrinks hc)
  behind cursor hcursor := by
    rcases hshrinks.cursor with heq | heq
    · rw [heq] at hcursor
      cases hcursor
    · exact h.behind cursor (heq ▸ hcursor)

theorem Held.of_cursor_none (h : Held seq mb sub)
    (hnone : mb.consumer.phase.cursor? = none) (sub' : Option Subscription) : Held seq mb sub' where
  handed := h.handed
  behind cursor hcursor := by
    rw [hnone] at hcursor
    cases hcursor

theorem Held.looked (h : Held seq mb (some s)) (hlt : s.cursor < seq → s'.cursor < seq) :
    Held seq mb (some s') where
  handed := h.handed
  behind cursor hcursor := by
    obtain ⟨_, hs, hbehind⟩ := h.behind cursor hcursor
    cases hs
    exact ⟨s', rfl, hbehind.imp_left hlt⟩

/-- A change that is not beyond the position may be handed out. -/
theorem Held.receives {c : Change} (h : Held seq mb (some s)) (hreceives : Receives mb mb' c)
    (hle : c.seq ≤ seq) (hcursor : s'.cursor = c.seq) : Held seq mb' (some s') where
  handed y hy := by
    rcases mem_of_receives hreceives hy with hy | rfl
    · exact h.handed y hy
    · exact hle
  behind cursor hcur := by
    -- the subscription stands at the change, and the session there or behind it
    have hbetween : c.seq ≤ cursor → s'.cursor < seq ∨ seq ≤ cursor := by
      intro hc
      rw [hcursor]
      rcases UInt64.lt_or_le c.seq seq with hlt | hge
      · exact .inl hlt
      · exact .inr (UInt64.le_trans hge hc)
    refine ⟨s', rfl, ?_⟩
    cases hreceives with
    | skipped hhanded hsame hskip =>
        rw [hsame] at hcur
        exact hbetween (hskip cursor hcur)
    | ended hhanded hnone =>
        rw [hnone] at hcur
        cases hcur
    | grown hhanded hgrown =>
        rw [hgrown] at hcur
        cases hcur
        exact hbetween (UInt64.le_refl _)

/-- A fault of the subscription leaves a member without a cursor. -/
theorem fault_cursor? {session : Session} (hphase : mb.consumer.phase = .waiting session)
    (m : Moment) (e : FeedFault) :
    (mb.step m (.item (.error e))).consumer.phase.cursor? = none := by
  have hstep : (mb.step m (.item (.error e))).consumer =
      (mb.consumer.flush session (.fail e.toStream) m).1 := by
    simp only [Member.step, Consumer.step, hphase, Consumer.itemRead]
  rw [hstep]
  exact mb.consumer.flush_cursor? session (fun _ h => by cases h) m

end Held

/-! ## Worlds before the entry -/

/-- A world whose consumers are held up before a position, which the feed still holds. -/
structure Halted (like : Consumer) (seq : UInt64) (w : World ι) : Prop where
  ordered : w.Ordered
  present : w.group.store ∈ w.group.past
  before : position w.group.store like.checkpoint < seq
  attends : ∀ i, Attends w.group.past like (seq - 1) w i
  retained : ∀ p ∈ w.log, seq ≤ p.1 → p ∈ w.feed.entries
  held : ∀ i, Held seq (w.group.member i) (w.sub i)

/-- What an event writes that keeps before a position: what others write, or a batch of changes of
the log that lie before it. -/
inductive WritesBefore (like : Consumer) (seq : UInt64) (w : World ι) (e : Event ι) :
    Records → Prop where
  | none : WritesBefore like seq w e w.group.store
  | foreign {b : Address} {action : Store.Action} (he : e = .group (.foreign b action)) :
      WritesBefore like seq w e (w.group.store.set b action.result)
  | batch {changes : List Change} {read : Address → Option Record} {op : BatchOp} {rs : Records}
      (hchanges : ∀ c ∈ changes, c ∈ w.log.inScope like.query ∧ c.seq < seq)
      (hop : op.address = like.checkpoint)
      (hs : Memory.stage w.group.store none
        (batchOf read (changes.flatMap like.pipeline.intentsOf) op) = .ok rs) :
      WritesBefore like seq w e rs

/-- Whatever was published at a position or behind it, the entry there was. -/
def Published (seq : UInt64) (entry : LogEntry) (w : World ι) : Prop :=
  ∀ p ∈ w.log, seq ≤ p.1 → (seq, entry) ∈ w.log

namespace Halted

omit [DecidableEq ι] in
/-- What a batch is made of lies before the entry. -/
theorem taken_lt (h : Halted like seq w) (hbarred : like.Barred seq entry)
    (hpublished : Published seq entry w) (i : ι) :
    ∀ x ∈ (w.group.member i).taken, x ∈ w.log.inScope like.query ∧ x.seq < seq := by
  intro x hx
  have hhanded : x ∈ (w.group.member i).handed := List.mem_append_left _ hx
  have hin := (h.attends i).follows.handed x hhanded
  refine ⟨hin, ?_⟩
  rcases UInt64.lt_or_eq_of_le ((h.held i).handed x hhanded) with hlt | heq
  · exact hlt
  · -- at the position there is no change that was accepted
    exfalso
    obtain ⟨⟨entry', hmem, hchange⟩, -⟩ := Log.mem_inScope.1 hin
    rw [heq] at hmem hchange
    have hentry := h.ordered.ascending.entry_eq hmem (hpublished _ hmem (UInt64.le_refl _))
    rw [hentry] at hchange
    obtain ⟨intents, haccepted⟩ := (h.attends i).stands.accepted x hx
    rw [(h.attends i).keeps.pipeline] at haccepted
    cases hbarred with
    | malformed herror =>
        rw [herror] at hchange
        cases hchange
    | refused hchange' _ hrefused =>
        rw [hchange'] at hchange
        cases hchange
        rw [hrefused] at haccepted
        cases haccepted

omit [DecidableEq ι] in
/-- A look that finds no fault stays before the entry, and finds nothing beyond it. -/
theorem look (h : Halted like seq w) (hbarred : like.Barred seq entry)
    (hpublished : Published seq entry w) {s : Subscription}
    (hmatcher : like.query.matcher = .ok s.matcher) (hlt : s.cursor < seq)
    (hfault : ∀ f, (s.look w.feed).2 ≠ .fault f) :
    (s.look w.feed).1.cursor < seq ∧ ∀ c, (s.look w.feed).2 = .found c → c.seq ≤ seq := by
  have hscanned := Feed.look_scanned s h.ordered.entries
  by_cases hbehind : ∃ p ∈ w.log, seq ≤ p.1
  · obtain ⟨p, hp, hle⟩ := hbehind
    have hentry := h.retained _ (hpublished p hp hle) (UInt64.le_refl _)
    rcases Feed.look_stops h.ordered.entries hentry hlt (hbarred.accepts hmatcher) with
      ⟨f, hf⟩ | ⟨c, hc, hle⟩
    · exact absurd hf (hfault f)
    · -- the cursor stays before what is found
      have hin := (hscanned.found c hc like.query hmatcher).1
      have hcursor := hscanned.beyond like.query hmatcher c hin
      refine ⟨UInt64.lt_of_lt_of_le hcursor hle, ?_⟩
      intro c' hc'
      rw [hc] at hc'
      cases hc'
      exact hle
  · -- nothing was published there yet
    have hall : ∀ p ∈ w.feed.entries.filter fun p => s.cursor < p.1, p.1 < seq := by
      intro p hp
      have hlog := h.ordered.mem_log p (List.mem_filter.1 hp).1
      exact UInt64.not_le.1 fun hle => hbehind ⟨p, hlog, hle⟩
    constructor
    · rcases hscanned.cursor with heq | ⟨p, hp, heq⟩
      · rw [heq]
        exact hlt
      · rw [heq]
        exact hall p hp
    · intro c hc
      obtain ⟨p, hp, heq⟩ :=
        Log.exists_of_mem_inScope (hscanned.found c hc like.query hmatcher).1
      rw [← heq]
      exact UInt64.le_of_lt (hall p hp)

omit [DecidableEq ι] in
/-- A session that waits for its next item stands before the entry. -/
theorem cursor_lt (h : Halted like seq w) (hbarred : like.Barred seq entry)
    (hpublished : Published seq entry w) {i : ι} {session : Session}
    (hphase : (w.group.member i).consumer.phase = .waiting session) : session.cursor < seq := by
  have hstands := (h.attends i).stands
  rw [hphase] at hstands
  cases hstands with
  | quiet hquiet => cases hquiet
  | waiting hcol =>
      cases hlast : (w.group.member i).taken.getLast? with
      | none =>
          have hreached := hcol.reached (List.getLast?_eq_none_iff.1 hlast)
          have hpos := UInt64.lt_of_le_of_lt UInt64.zero_le h.before
          exact lt_of_le_pred hpos hreached
      | some x =>
          rw [← hcol.last x hlast]
          exact (h.taken_lt hbarred hpublished i x (List.mem_of_getLast? hlast)).2

/-- A member that reads its subscription stays before the entry. -/
theorem held_next (h : Halted like seq w) (hbarred : like.Barred seq entry)
    (hpublished : Published seq entry w) {i : ι} (m : Moment) {session : Session}
    (hphase : (w.group.member i).consumer.phase = .waiting session) {s : Subscription}
    (hsub : w.sub i = some s) :
    Held seq ((w.step (.next i m)).group.member i) ((w.step (.next i m)).sub i) := by
  have hheld := h.held i
  rw [hsub] at hheld
  have hstands := (h.attends i).stands
  have hcursor : (w.group.member i).consumer.phase.cursor? = some session.cursor := by
    rw [hphase]
    rfl
  have htracks := (h.attends i).tracks hphase hsub
  have hlt : s.cursor < seq := by
    obtain ⟨_, hs, hbehind⟩ := hheld.behind _ hcursor
    cases hs
    rcases hbehind with hlt | hle
    · exact hlt
    · exact absurd (h.cursor_lt hbarred hpublished hphase) (UInt64.not_lt.2 hle)
  cases (h.attends i).reads h.ordered m hphase hsub with
  | change hfound hc hfirst hmatcher hcursor' hgroup hsub' =>
      have hlook := h.look hbarred hpublished htracks.matcher hlt (by simp [hfound])
      rw [hgroup, hsub', Group.stepMember_member, if_pos rfl, Function.update_self]
      exact hheld.receives (receives_step hstands m hphase _) (hlook.2 _ hfound) hcursor'
  | fault hfound hgroup hsub' =>
      -- the subscription has passed the entry, but the session is over
      rw [hgroup, hsub', Group.stepMember_member, if_pos rfl, Function.update_self]
      exact (hheld.shrinks (shrinks_step hstands m rfl)).of_cursor_none (fault_cursor? hphase m _) _
  | nothing hfound hgroup hsub' =>
      have hlook := h.look hbarred hpublished htracks.matcher hlt (by simp [hfound])
      rw [hsub', Function.update_self]
      rcases hgroup with hgroup | hgroup
      · rw [hgroup]
        exact hheld.looked fun _ => hlook.1
      · rw [hgroup, Group.stepMember_member, if_pos rfl]
        exact (hheld.shrinks (shrinks_step hstands m rfl)).looked fun _ => hlook.1

/-- A member stays before the entry whatever happens. -/
theorem held_step (h : Halted like seq w) (hbarred : like.Barred seq entry)
    (hpublished : Published seq entry w) {e : Event ι} (hnotFault : w.NotFault e) (j : ι) :
    Held seq ((w.step e).group.member j) ((w.step e).sub j) := by
  have hheld := h.held j
  have hattends := h.attends j
  cases meets hattends.stands e with
  | apart hshrinks hsub =>
      rw [hsub]
      exact hheld.shrinks hshrinks
  | @subscribes m checkpoint he hphase =>
      subst he
      obtain ⟨hmember, hsub⟩ := subscribe_member (m := m) hphase
      obtain ⟨hle, hhanded, hcursor⟩ := subscribed_step hattends.stands hphase m
        ((w.feed.subscribe (w.group.member j).consumer.query checkpoint).2.map fun _ => ())
      rw [hmember, hsub]
      refine ⟨?_, ?_⟩
      · rw [hhanded]
        exact fun _ hc => by cases hc
      · intro cursor hcur
        rcases hcursor with hnone | ⟨hok, hsome⟩
        · rw [hnone] at hcur
          cases hcur
        · -- the subscription begins at the checkpoint, before the entry
          cases hopened : (w.feed.subscribe (w.group.member j).consumer.query checkpoint).2 with
          | error f =>
              rw [hopened] at hok
              cases hok
          | ok s =>
              obtain ⟨-, hs, -⟩ := Feed.Memory.subscribe_ok hopened
              have hpos := UInt64.lt_of_le_of_lt UInt64.zero_le h.before
              exact ⟨s, rfl, .inl (hs ▸ lt_of_le_pred hpos hle)⟩
  | reads he hphase hs =>
      rw [he]
      exact h.held_next hbarred hpublished _ hphase hs
  | looks he hs =>
      obtain ⟨hgroup, hsub⟩ := look_member hs
      have hfault := fun f => hnotFault j _ f he hs
      rw [he, hgroup, hsub]
      rw [hs] at hheld
      refine ⟨hheld.handed, ?_⟩
      intro cursor hcur
      obtain ⟨_, heq, htracks⟩ := hattends.follows.live cursor hcur
      rw [hs] at heq
      cases heq
      exact (hheld.looked fun hlt =>
        (h.look hbarred hpublished htracks.matcher hlt hfault).1).behind cursor hcur

/-- A batch that is written is made of changes before the entry, and leaves the checkpoint at the
last of them. -/
theorem written (h : Halted like seq w) (hbarred : like.Barred seq entry)
    (hpublished : Published seq entry w) (e : Event ι)
    (hforeign : ∀ b action, e = .group (.foreign b action) → b ≠ like.checkpoint) :
    WritesBefore like seq w e (w.step e).group.store ∧
      position (w.step e).group.store like.checkpoint < seq := by
  rcases w.step_store e with ⟨hstore, -⟩ | ⟨b, action, he, hstore, -⟩ | ⟨i, ops, hreq, hs, -⟩
  · rw [hstore]
    exact ⟨.none, h.before⟩
  · rw [hstore]
    refine ⟨.foreign he, ?_⟩
    rw [position, standing_set_of_ne _ (hforeign b action he)]
    exact h.before
  · have hattends := h.attends i
    obtain ⟨p, after, hcommitted, hwrite⟩ := Group.committed_of_stage hattends.stands hreq hs
    have hp := hcommitted.proposes
    have htaken := h.taken_lt hbarred hpublished i
    constructor
    · have hground := hp.grounded
      rw [hwrite] at hground
      cases hground with
      | write read cp hcp hseen hops =>
          rw [hops, hp.intents, hattends.keeps.pipeline] at hs
          refine .batch htaken ?_ hs
          exact hp.address.trans hattends.keeps.checkpoint
    · obtain ⟨x, hx, hlast⟩ := collect_last hp.range
      rw [position, ← hattends.keeps.checkpoint, hcommitted.reaches, Option.getD_some, ← hlast]
      exact (htaken x (List.mem_of_getLast? hx)).2

theorem step (h : Halted like seq w) (hbarred : like.Barred seq entry)
    (hpublished : Published seq entry w) {e : Event ι} (hnotFault : w.NotFault e)
    (hforeign : ∀ b action, e = .group (.foreign b action) → b ≠ like.checkpoint)
    (htrim : ∀ n, e = .trim n → n < seq) : Halted like seq (w.step e) where
  ordered := h.ordered.step e
  present := World.present_step h.present e
  before := (h.written hbarred hpublished e hforeign).2
  attends i := by
    have hafter := (h.written hbarred hpublished e hforeign).2
    exact (h.attends i).step h.ordered h.present (le_pred_of_lt h.before) e (UInt64.le_refl _)
      (le_pred_of_lt hafter)
  retained := by
    cases w.step_logged e with
    | none hlog hentries =>
        rw [hlog, hentries]
        exact h.retained
    | @published n entry' hpos hlast hstep =>
        rw [hstep]
        intro p hp hle
        change p ∈ (w.feed.publishRaw n entry').entries
        rw [h.ordered.publishRaw_entries entry' hlast]
        rcases List.mem_append.1 hp with hp | hp
        · exact List.mem_append_left _ (h.retained p hp hle)
        · exact List.mem_append_right _ hp
    | @trimmed n he hstep =>
        rw [hstep]
        intro p hp hle
        by_contra hout
        have hdiscarded := Feed.Memory.le_of_trimmed (h.retained p hp hle) hout
        exact absurd (htrim n he) (UInt64.not_lt.2 (UInt64.le_trans hle hdiscarded))
  held := h.held_step hbarred hpublished hnotFault

omit [DecidableEq ι] in
theorem begin {rs : Records} {start : ι → Consumer} (hfresh : ∀ i, (start i).phase = .starting)
    (hlike : ∀ i, like.Keeps (start i)) (hstart : position rs like.checkpoint < seq) :
    Halted like seq (begin rs start) where
  ordered := .begin rs start
  present := List.mem_singleton_self _
  before := hstart
  attends i := .begin hfresh hlike _ i
  retained _ hp := by cases hp
  held i := by
    have hphase : ((World.begin rs start).group.member i).consumer.phase = .starting := hfresh i
    refine ⟨?_, ?_⟩
    · rw [Member.handed, hphase]
      exact fun _ hc => by cases hc
    · intro cursor hcursor
      rw [hphase] at hcursor
      cases hcursor

/-- A world stays before the entry, where its readers are told of faults. -/
theorem heed (h : Halted like seq w) (hbarred : like.Barred seq entry)
    (hpublished : Published seq entry w) (e : Event ι)
    (hforeign : ∀ b action, e = .group (.foreign b action) → b ≠ like.checkpoint)
    (htrim : ∀ n, e = .trim n → n < seq) :
    Halted like seq (w.heed e) ∧ WritesBefore like seq w e (w.heed e).group.store := by
  rcases w.heed_cases e with hsame | ⟨hstep, hnotFault⟩
  · rw [hsame]
    exact ⟨h, .none⟩
  · rw [hstep]
    exact ⟨h.step hbarred hpublished hnotFault hforeign htrim,
      (h.written hbarred hpublished e hforeign).1⟩

end Halted

/-! ## Runs -/

theorem log_prefix_heed (w : World ι) (e : Event ι) : w.log <+: (w.heed e).log := by
  rcases w.heed_cases e with hsame | ⟨hstep, -⟩
  · simp only [hsame, List.prefix_rfl]
  · rw [hstep]
    cases w.step_logged e with
    | none hlog => simp only [hlog, List.prefix_rfl]
    | published hpos hlast hstep =>
        rw [hstep]
        exact List.prefix_append ..
    | trimmed he hstep => simp only [hstep, List.prefix_rfl]

theorem log_prefix_heedAll (w : World ι) (events : List (Event ι)) :
    w.log <+: (w.heedAll events).log := by
  induction events generalizing w with
  | nil => exact List.prefix_refl _
  | cons e rest ih => exact (w.log_prefix_heed e).trans (ih (w.heed e))

theorem Ordered.heedAll (h : Ordered w) (events : List (Event ι)) : Ordered (w.heedAll events) := by
  induction events generalizing w with
  | nil => exact h
  | cons e rest ih =>
      apply ih
      rcases w.heed_cases e with hsame | ⟨hstep, -⟩
      · rwa [hsame]
      · rw [hstep]
        exact h.step e

omit [DecidableEq ι] in
/-- An entry of a log that ascends was there before whatever was published behind it. -/
theorem published_of_extends {log : Log} (hasc : log.Ascending) (hmem : (seq, entry) ∈ log)
    (hextends : w.log <+: log) : Published seq entry w := by
  intro p hp hle
  obtain ⟨rest, rfl⟩ := hextends
  rcases List.mem_append.1 hmem with hmem | hmem
  · exact hmem
  · have hlt := (List.pairwise_append.1 hasc).2.2 p hp _ hmem
    exact absurd hlt (UInt64.not_lt.2 hle)

/-- A world stays before the entry of a log that its own comes to. -/
theorem Halted.heedAll (h : Halted like seq w) (hbarred : like.Barred seq entry) {log : Log}
    (hasc : log.Ascending) (hmem : (seq, entry) ∈ log) (events : List (Event ι))
    (hextends : (w.heedAll events).log <+: log)
    (hforeign : ∀ b action, .group (.foreign b action) ∈ events → b ≠ like.checkpoint)
    (htrim : ∀ n, .trim n ∈ events → n < seq) : Halted like seq (w.heedAll events) := by
  induction events using List.reverseRecOn with
  | nil => exact h
  | append_singleton events e ih =>
      rw [heedAll_append_singleton] at hextends ⊢
      have hextends' := ((w.heedAll events).log_prefix_heed e).trans hextends
      have hbefore := ih hextends' (fun b action h => hforeign b action (List.mem_append_left _ h))
        fun n h => htrim n (List.mem_append_left _ h)
      have hlast : e ∈ events ++ [e] := List.mem_append_right _ (List.mem_singleton_self e)
      refine (hbefore.heed hbarred (published_of_extends hasc hmem hextends') e ?_ ?_).1
      · rintro b action rfl
        exact hforeign b action hlast
      · rintro n rfl
        exact htrim n hlast

/-- An entry that is malformed, or that the triggers refuse, is never passed. A checkpoint that
began before it stays before it, and no batch that is written has an intent of a change from there
on, whatever else happens: retries, lost subscriptions, faults of the store, crashes, stops and
batches of any size. -/
theorem never_passes_barred (rs : Records) (start : ι → Consumer) (like : Consumer)
    (events : List (Event ι)) (seq : UInt64) (entry : LogEntry)
    (hfresh : ∀ i, (start i).phase = .starting) (hlike : ∀ i, like.Keeps (start i))
    (hstart : position rs like.checkpoint < seq) (hbarred : like.Barred seq entry)
    (hpublished : (seq, entry) ∈ ((begin rs start).heedAll events).log)
    (hforeign : ∀ b action, .group (.foreign b action) ∈ events → b ≠ like.checkpoint)
    (htrim : ∀ n, .trim n ∈ events → n < seq) :
    (∀ earlier later, events = earlier ++ later →
      position ((begin rs start).heedAll earlier).group.store like.checkpoint < seq) ∧
    ∀ earlier e later, events = earlier ++ e :: later →
      WritesBefore like seq ((begin rs start).heedAll earlier) e
        (((begin rs start).heedAll earlier).heed e).group.store := by
  have hasc := ((Ordered.begin rs start).heedAll events).ascending
  have hextends : ∀ earlier later, events = earlier ++ later →
      ((begin rs start).heedAll earlier).log <+: ((begin rs start).heedAll events).log := by
    rintro earlier later rfl
    rw [heedAll_append]
    exact log_prefix_heedAll _ later
  have hhalted : ∀ earlier later, events = earlier ++ later →
      Halted like seq ((begin rs start).heedAll earlier) := by
    intro earlier later hsplit
    apply (Halted.begin hfresh hlike hstart).heedAll hbarred hasc hpublished earlier
      (hextends earlier later hsplit)
    · intro b action h
      exact hforeign b action (hsplit ▸ List.mem_append_left _ h)
    · intro n h
      exact htrim n (hsplit ▸ List.mem_append_left _ h)
  refine ⟨fun earlier later hsplit => (hhalted earlier later hsplit).before, ?_⟩
  intro earlier e later hsplit
  have hmem : e ∈ events := hsplit ▸ List.mem_append_right _ List.mem_cons_self
  have hbefore := published_of_extends hasc hpublished (hextends earlier (e :: later) hsplit)
  refine ((hhalted earlier (e :: later) hsplit).heed hbarred hbefore e ?_ ?_).2
  · rintro b action rfl
    exact hforeign b action hmem
  · rintro n rfl
    exact htrim n hmem

/-- A consumer that mirrors the people several at a time. -/
def patient : Consumer := { Group.people with settings := { batch := .testing } }

/-- Two people are published around an entry that is malformed. The consumer takes the first, comes
to the entry, commits what it has and is paused; another try ends at the entry again. -/
def retrying : List (Event Unit) :=
  let m : Moment := { now := { nanos := 0 } }
  let session : List (Event Unit) :=
    [.group (.signal () m (.start false)), .group (.read () m none), .subscribe () m]
  [.publish 1 (person "cn=ann,dc=x" 1), .publish 2 ⟨[], []⟩,
    .publish 3 (person "cn=cyd,dc=x" 3)] ++ session ++ [.next () m, .look (), .next () m,
    .group (.read () m none), .group (.read () m none), .group (.write () m .decided),
    .group (.signal () m .resumed)] ++ session ++ [.next () m]

set_option maxRecDepth 100000 in
theorem never_passes_barred_retrying :
    let w := (begin [] fun _ => patient).heedAll retrying
    (w.feed.delivered = [1] ∧ w.feed.subscriptions = [0, 1] ∧
      (w.group.member ()).consumer.health.label = "paused" ∧
      position w.group.store patient.checkpoint = 1) ∧
      position w.group.store patient.checkpoint < 2 := by
  intro w
  refine ⟨by decide +kernel, ?_⟩
  have herror : ∃ e, LogEntry.change ⟨[], []⟩ 2 = .error e := ⟨_, rfl⟩
  obtain ⟨e, he⟩ := herror
  refine (never_passes_barred [] (fun _ => patient) patient retrying 2 ⟨[], []⟩
    (fun _ => rfl) (fun _ => .refl _) (by decide) (.malformed he) ?_ ?_ ?_).1 retrying [] ?_
  · decide +kernel
  · intro b action h
    simp [retrying] at h
  · intro n h
    simp [retrying] at h
  · rw [List.append_nil]

end World

end ChangeRelay
