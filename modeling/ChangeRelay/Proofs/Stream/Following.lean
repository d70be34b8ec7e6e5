import ChangeRelay.Proofs.Feed.Log
import ChangeRelay.Proofs.Stream.Member

/-!
# Following the change log

What a member was handed is closed under the log: whatever the log still holds before it was handed
out as well, or lies at or before the checkpoint. A subscription is never ahead of its session by
more than that.
-/

namespace ChangeRelay

open Feed (Log Subscription)

/-- The cursor of a session that goes on. -/
def ConsumerPhase.cursor? : ConsumerPhase → Option UInt64
  | .waiting s => some s.cursor
  | .throttled _ change => some change.seq
  | .committing _ (.goOn cursor) => some cursor
  | _ => none

/-- A change that the rate limit holds back. -/
def ConsumerPhase.held : ConsumerPhase → List Change
  | .throttled _ change => [change]
  | _ => []

theorem ConsumerPhase.Quiet.cursor? {phase : ConsumerPhase} (h : phase.Quiet) :
    phase.cursor? = none := by
  cases h <;> rfl

theorem ConsumerPhase.Quiet.held {phase : ConsumerPhase} (h : phase.Quiet) : phase.held = [] := by
  cases h <;> rfl

/-- What a member was handed and has not committed. -/
def Member.handed (mb : Member) : List Change := mb.taken ++ mb.consumer.phase.held

/-! ## Steps -/

/-- A signal that hands a subscription or a change to its consumer. -/
def Signal.handsOut : Signal → Bool
  | .subscribed (.ok ()) | .item (.ok (some (.event _))) => true
  | _ => false

/-- A step by which a member is handed nothing. -/
structure Shrinks (mb mb' : Member) : Prop where
  handed : mb'.handed = mb.handed ∨ mb'.handed = mb.taken ∨ mb'.handed = []
  cursor : mb'.consumer.phase.cursor? = none ∨
    mb'.consumer.phase.cursor? = mb.consumer.phase.cursor?

theorem Shrinks.refl (mb : Member) : Shrinks mb mb := ⟨.inl rfl, .inr rfl⟩

/-- A step by which a member is handed a change. -/
inductive Receives (mb mb' : Member) (change : Change) : Prop where
  /-- It had it before. -/
  | skipped (hhanded : mb'.handed = mb.handed)
      (hcursor : mb'.consumer.phase.cursor? = mb.consumer.phase.cursor?)
      (hle : ∀ cursor, mb.consumer.phase.cursor? = some cursor → change.seq ≤ cursor)
  /-- The session is over. -/
  | ended (hhanded : mb'.handed = mb.taken ∨ mb'.handed = [])
      (hcursor : mb'.consumer.phase.cursor? = none)
  | grown (hhanded : mb'.handed = mb.handed ++ [change])
      (hcursor : mb'.consumer.phase.cursor? = some change.seq)

theorem mem_of_shrinks {mb mb' : Member} (h : Shrinks mb mb') {y : Change} (hy : y ∈ mb'.handed) :
    y ∈ mb.handed := by
  rcases h.handed with heq | heq | heq
  · exact heq ▸ hy
  · exact List.mem_append_left _ (heq ▸ hy)
  · rw [heq] at hy
    cases hy

theorem mem_of_receives {mb mb' : Member} {c : Change} (h : Receives mb mb' c) {y : Change}
    (hy : y ∈ mb'.handed) : y ∈ mb.handed ∨ y = c := by
  cases h with
  | skipped hhanded => exact .inl (hhanded ▸ hy)
  | ended hhanded =>
      rcases hhanded with heq | heq
      · exact .inl (List.mem_append_left _ (heq ▸ hy))
      · rw [heq] at hy
        cases hy
  | grown hhanded =>
      rw [hhanded] at hy
      rcases List.mem_append.1 hy with hy | hy
      · exact .inl hy
      · exact .inr (List.mem_singleton.1 hy)

section Steps

variable {known : List Store.Records} {pos : UInt64} {mb : Member}

/-- What a member has in hand after a step, by the phase that it ends in. -/
theorem handed_step (mb : Member) (m : Moment) (signal : Signal) {phase : ConsumerPhase}
    (hphase : (mb.step m signal).consumer.phase = phase) :
    (mb.step m signal).handed =
      (if phase.holdsBatch then mb.taken ++ (mb.consumer.admitted signal).toList else []) ++
        phase.held := by
  rw [Member.handed, taken_step, hphase]

/-- The end of a session leaves nothing in hand. -/
theorem handed_step_of_quiet {m : Moment} {signal : Signal}
    (h : (mb.step m signal).consumer.phase.Quiet) : (mb.step m signal).handed = [] := by
  rw [handed_step mb m signal rfl, h.holdsBatch, h.held]
  rfl

/-- A step that changes no phase and adds nothing leaves in hand what was there. -/
theorem Stands.handed_step_of_stay (h : Stands known pos mb.consumer mb.taken mb.consumer.phase)
    {m : Moment} {signal : Signal} (hnone : mb.consumer.admitted signal = none)
    (hphase : (mb.step m signal).consumer.phase = mb.consumer.phase) :
    (mb.step m signal).handed = mb.handed := by
  rw [handed_step mb m signal hphase, hnone, Option.toList_none, List.append_nil, h.taken_eq]
  rfl

/-- The answer to a proposal hands a member nothing. -/
theorem Consumer.Answered.shrinks {p p' : Checkpoint.Proposal} {after : AfterCommit} {m : Moment}
    {signal : Signal} (hphase : mb.consumer.phase = .committing p after)
    (h : Answered p' after (mb.step m signal).consumer.phase) :
    Shrinks mb (mb.step m signal) := by
  have hnone : mb.consumer.admitted signal = none := by simp only [Consumer.admitted, hphase]
  generalize hphase' : (mb.step m signal).consumer.phase = phase at h
  have hhanded := handed_step mb m signal hphase'
  rw [hnone, Option.toList_none, List.append_nil] at hhanded
  cases h with
  | further hpending =>
      refine ⟨.inr (.inl ?_), .inr ?_⟩
      · rw [hhanded]
        exact List.append_nil _
      · rw [hphase', hphase]
        cases after <;> rfl
  -- the session is over, and what is left of its batch with it
  | quiet hq =>
      rw [← hphase'] at hq
      exact ⟨.inr (.inr (handed_step_of_quiet hq)), .inl hq.cursor?⟩
  | settled hgoOn hresult =>
      refine ⟨.inr (.inr hhanded), .inr ?_⟩
      rw [hphase', hphase, hgoOn]
      rfl

/-- A signal that hands nothing out leaves a member with what it had, or with less. -/
theorem shrinks_step (h : Stands known pos mb.consumer mb.taken mb.consumer.phase) (m : Moment)
    {signal : Signal} (hs : signal.handsOut = false) : Shrinks mb (mb.step m signal) := by
  have hmove : mb.consumer.Move signal (mb.step m signal).consumer.phase :=
    (mb.consumer.step_turns m signal).phase
  generalize hphase' : (mb.step m signal).consumer.phase = phase at hmove
  have hhanded := handed_step mb m signal hphase'
  -- without an item only a change that was held back can be taken
  have hcases : ∀ {s change intents}, mb.consumer.Takes signal s change intents →
      mb.consumer.phase = .throttled s change := by
    intro s change intents htakes
    rcases htakes.phase with ⟨-, rfl, -⟩ | ⟨hphase, -⟩
    · cases hs
    · exact hphase
  cases hmove with
  | stay hnone hskip =>
      refine ⟨.inl (h.handed_step_of_stay hnone hphase'), .inr ?_⟩
      rw [hphase']
  | leave hq =>
      rw [← hphase'] at hq
      exact ⟨.inr (.inr (handed_step_of_quiet hq)), .inl hq.cursor?⟩
  | found hphase hsignal hfound => exact ⟨.inr (.inr hhanded), .inl (by rw [hphase']; rfl)⟩
  | opened hphase hsignal =>
      rw [hsignal] at hs
      cases hs
  | held hphase hsignal hlt hnone =>
      rw [hsignal] at hs
      cases hs
  | took htakes =>
      -- the change was held back before
      have hphase := hcases htakes
      refine ⟨.inl ?_, .inr ?_⟩
      · rw [hhanded, htakes.admitted, Member.handed, hphase]
        exact List.append_nil _
      · rw [hphase', hphase]
        rfl
  | tookFull htakes hrange =>
      have hphase := hcases htakes
      refine ⟨.inl ?_, .inr ?_⟩
      · rw [hhanded, htakes.admitted, Member.handed, hphase]
        exact List.append_nil _
      · rw [hphase', hphase]
        rfl
  | @flushed s range time after hphase hnone hrange hafter =>
      rw [hnone, Option.toList_none, List.append_nil] at hhanded
      refine ⟨.inr (.inl ?_), ?_⟩
      · rw [hhanded]
        exact List.append_nil _
      · cases after with
        | goOn cursor =>
            obtain ⟨hwaiting, rfl, -⟩ := hafter cursor rfl
            right
            rw [hphase', hwaiting]
            rfl
        | stop => exact .inl (by rw [hphase']; rfl)
        | fail e => exact .inl (by rw [hphase']; rfl)
  | drained hphase hsignal hrange hempty =>
      refine ⟨.inr (.inr hhanded), .inr ?_⟩
      rw [hphase', hphase]
      rfl
  | read hphase hsignal hanswered => exact Consumer.Answered.shrinks hphase (hphase' ▸ hanswered)
  | wrote hphase hsignal hanswered => exact Consumer.Answered.shrinks hphase (hphase' ▸ hanswered)

/-- A change that a subscription hands out is new to its member, or ends the session, or was there
before. -/
theorem receives_step (h : Stands known pos mb.consumer mb.taken mb.consumer.phase) (m : Moment)
    {s : Session} (hphase : mb.consumer.phase = .waiting s) (change : Change) :
    Receives mb (mb.step m (.item (.ok (some (.event change))))) change := by
  have hmove : mb.consumer.Move (.item (.ok (some (.event change))))
      (mb.step m (.item (.ok (some (.event change))))).consumer.phase :=
    (mb.consumer.step_turns m _).phase
  generalize hphase' :
    (mb.step m (.item (.ok (some (.event change))))).consumer.phase = phase at hmove
  have hhanded := handed_step mb m _ hphase'
  -- a session that waits holds nothing back
  have hmine : mb.handed = mb.taken := by
    rw [Member.handed, hphase]
    exact List.append_nil _
  have htaken := h.taken_eq
  rw [hphase] at htaken
  cases hmove with
  | stay hnone hskip =>
      refine .skipped (h.handed_step_of_stay hnone hphase') (by rw [hphase']) ?_
      intro cursor hcursor
      rw [hphase] at hcursor
      cases hcursor
      exact hskip s change hphase rfl
  | leave hq =>
      rw [← hphase'] at hq
      exact .ended (.inr (handed_step_of_quiet hq)) hq.cursor?
  | found hreading =>
      rw [hphase] at hreading
      cases hreading
  | opened hsubscribing =>
      rw [hphase] at hsubscribing
      cases hsubscribing
  | held hwaiting hsignal hlt hnone =>
      rw [hphase] at hwaiting
      cases hwaiting
      cases hsignal
      refine .grown ?_ (by rw [hphase']; rfl)
      rw [hhanded, hnone, Option.toList_none, List.append_nil, hmine]
      exact congrArg (· ++ [change]) htaken
  | took htakes =>
      rcases htakes.phase with ⟨-, hsignal, -⟩ | ⟨-, hsignal⟩
      · cases hsignal
        refine .grown ?_ (by rw [hphase']; rfl)
        rw [hhanded, htakes.admitted, hmine]
        exact List.append_nil _
      · cases hsignal
  | tookFull htakes hrange =>
      rcases htakes.phase with ⟨-, hsignal, -⟩ | ⟨-, hsignal⟩
      · cases hsignal
        refine .grown ?_ (by rw [hphase']; rfl)
        rw [hhanded, htakes.admitted, hmine]
        exact List.append_nil _
      · cases hsignal
  | @flushed s' range time after hsession hnone hrange hafter =>
      rw [hnone, Option.toList_none, List.append_nil] at hhanded
      refine .ended (.inl ?_) ?_
      · rw [hhanded]
        exact List.append_nil _
      · cases after with
        | goOn cursor =>
            obtain ⟨-, -, hsignal⟩ := hafter cursor rfl
            cases hsignal
        | stop => rw [hphase']; rfl
        | fail e => rw [hphase']; rfl
  | drained hwaiting hsignal => cases hsignal
  | read hcommitting =>
      rw [hphase] at hcommitting
      cases hcommitting
  | wrote hcommitting =>
      rw [hphase] at hcommitting
      cases hcommitting

end Steps

/-! ## Members against the log -/

/-- A subscription against the session that reads it. -/
structure Tracks (q : Query) (log entries : Log) (pos cursor : UInt64) (s : Subscription) :
    Prop where
  matcher : q.matcher = .ok s.matcher
  behind : ∀ c ∈ entries.inScope q, c.seq ≤ s.cursor → c.seq ≤ cursor ∨ c.seq ≤ pos
  reached : s.cursor ≤ pos ∨ ∃ p ∈ log, s.cursor ≤ p.1

/-- A member against what was published and what the log still holds of it. -/
structure Follows (q : Query) (log entries : Log) (pos : UInt64) (mb : Member)
    (sub : Option Subscription) : Prop where
  handed : ∀ c ∈ mb.handed, c ∈ log.inScope q
  closed : ∀ c ∈ entries.inScope q, ∀ x ∈ mb.handed, c.seq ≤ x.seq →
    c ∈ mb.handed ∨ c.seq ≤ pos
  live : ∀ cursor, mb.consumer.phase.cursor? = some cursor →
    ∃ s, sub = some s ∧ Tracks q log entries pos cursor s

section Follows

variable {q : Query} {log log' entries entries' : Log} {pos pos' : UInt64} {mb mb' : Member}
  {sub : Option Subscription}

/-- A member follows on while others move the checkpoint and the log is trimmed. -/
theorem Follows.mono (h : Follows q log entries pos mb sub) (hsub : ∀ p ∈ entries', p ∈ entries)
    (hpos : pos ≤ pos') : Follows q log entries' pos' mb sub where
  handed := h.handed
  closed c hc x hx hle := by
    rcases h.closed c (Log.inScope_mono hsub hc) x hx hle with h | h
    · exact .inl h
    · exact .inr (UInt64.le_trans h hpos)
  live cursor hcursor := by
    obtain ⟨s, hs, htracks⟩ := h.live cursor hcursor
    refine ⟨s, hs, htracks.matcher, ?_, ?_⟩
    · intro c hc hle
      rcases htracks.behind c (Log.inScope_mono hsub hc) hle with h | h
      · exact .inl h
      · exact .inr (UInt64.le_trans h hpos)
    · rcases htracks.reached with h | h
      · exact .inl (UInt64.le_trans h hpos)
      · exact .inr h

/-- A member follows on when a change is published behind all others. -/
theorem Follows.publish (h : Follows q log entries pos mb sub) {p : UInt64 × Feed.LogEntry}
    (hlast : ∀ p' ∈ log, p'.1 < p.1) : Follows q (log ++ [p]) (entries ++ [p]) pos mb sub := by
  have hold : ∀ p' ∈ log, p' ∈ log ++ [p] := fun _ hp' => List.mem_append_left _ hp'
  -- what is in scope was so before, or is the new change
  have hnew : ∀ c ∈ Log.inScope q (entries ++ [p]), c ∈ entries.inScope q ∨ c.seq = p.1 := by
    intro c hc
    obtain ⟨⟨entry, hmem, hok⟩, hsel⟩ := Log.mem_inScope.1 hc
    rcases List.mem_append.1 hmem with hmem | hmem
    · exact .inl (Log.mem_inScope.2 ⟨⟨entry, hmem, hok⟩, hsel⟩)
    · exact .inr (congrArg Prod.fst (List.mem_singleton.1 hmem))
  refine ⟨fun c hc => Log.inScope_mono hold (h.handed c hc), ?_, ?_⟩
  · intro c hc x hx hle
    rcases hnew c hc with hc | hseq
    · exact h.closed c hc x hx hle
    · -- nothing that was handed out lies beyond the others
      obtain ⟨p', hp', heq⟩ := Log.exists_of_mem_inScope (h.handed x hx)
      rw [← heq, hseq] at hle
      exact absurd (hlast p' hp') (UInt64.not_lt.2 hle)
  · intro cursor hcursor
    obtain ⟨s, hs, htracks⟩ := h.live cursor hcursor
    refine ⟨s, hs, htracks.matcher, ?_, ?_⟩
    · intro c hc hle
      rcases hnew c hc with hc | hseq
      · exact htracks.behind c hc hle
      · rcases htracks.reached with hpos | ⟨p', hp', hp'le⟩
        · exact .inr (UInt64.le_trans hle hpos)
        · have hlt := UInt64.lt_of_le_of_lt hp'le (hlast p' hp')
          rw [← hseq] at hlt
          exact absurd hlt (UInt64.not_lt.2 hle)
    · rcases htracks.reached with hpos | ⟨p', hp', hp'le⟩
      · exact .inl hpos
      · exact .inr ⟨p', hold p' hp', hp'le⟩

/-- A subscription tracks its session on when it looks at the log. -/
theorem Tracks.scanned {cursor : UInt64} {s : Subscription}
    (h : Tracks q log entries pos cursor s) (hsub : ∀ p ∈ entries, p ∈ log)
    {r : Subscription × Feed.Finding}
    (hr : Feed.Scanned s (entries.filter fun p => s.cursor < p.1) r) :
    Tracks q log entries pos cursor r.1 where
  matcher := hr.matcher ▸ h.matcher
  behind c hc hle := by
    by_cases hpassed : c.seq ≤ s.cursor
    · exact h.behind c hc hpassed
    · have hbeyond := hr.beyond q h.matcher c (Log.mem_inScope_beyond hc (UInt64.not_le.1 hpassed))
      exact absurd hbeyond (UInt64.not_lt.2 hle)
  reached := by
    rcases hr.cursor with heq | ⟨p, hp, heq⟩
    · rw [heq]
      exact h.reached
    · rw [heq]
      exact .inr ⟨p, hsub p (List.mem_filter.1 hp).1, UInt64.le_refl _⟩

/-- A member follows on while its subscription looks at the log. -/
theorem Follows.scanned {s : Subscription} (h : Follows q log entries pos mb (some s))
    (hsub : ∀ p ∈ entries, p ∈ log) {r : Subscription × Feed.Finding}
    (hr : Feed.Scanned s (entries.filter fun p => s.cursor < p.1) r) :
    Follows q log entries pos mb (some r.1) where
  handed := h.handed
  closed := h.closed
  live cursor hcursor := by
    obtain ⟨_, hs, htracks⟩ := h.live cursor hcursor
    cases hs
    exact ⟨r.1, rfl, htracks.scanned hsub hr⟩

/-- A change that is held back lies behind those of the batch. -/
theorem Stands.lt_held {known : List Store.Records} {c : Consumer} {taken : List Change}
    (h : Stands known pos c taken c.phase) :
    ∀ x ∈ taken, ∀ change ∈ c.phase.held, x.seq < change.seq := by
  intro x hx change hchange
  generalize c.phase = phase at h hchange
  cases h with
  | quiet hq =>
      rw [hq.held] at hchange
      cases hchange
  | throttled h hlt =>
      rw [List.mem_singleton.1 hchange]
      exact UInt64.lt_of_le_of_lt (h.le_cursor x hx) hlt
  | subscribing hle hnone => cases hchange
  | waiting h => cases hchange
  | committing h hpending => cases hchange

/-- A member that is handed nothing follows on. -/
theorem Follows.shrinks (h : Follows q log entries pos mb sub) (hshrinks : Shrinks mb mb')
    (hordered : ∀ x ∈ mb.taken, ∀ c ∈ mb.consumer.phase.held, x.seq < c.seq) :
    Follows q log entries pos mb' sub := by
  refine ⟨?_, ?_, ?_⟩
  · intro c hc
    rcases hshrinks.handed with heq | heq | heq
    · exact h.handed c (heq ▸ hc)
    · exact h.handed c (List.mem_append_left _ (heq ▸ hc))
    · rw [heq] at hc
      cases hc
  · intro c hc x hx hle
    rcases hshrinks.handed with heq | heq | heq
    · -- all of it is still in hand
      rw [heq] at hx ⊢
      exact h.closed c hc x hx hle
    · rw [heq] at hx ⊢
      rcases h.closed c hc x (List.mem_append_left _ hx) hle with hmem | hpos
      · rcases List.mem_append.1 hmem with hmem | hmem
        · exact .inl hmem
        · exact absurd (hordered x hx c hmem) (UInt64.not_lt.2 hle)
      · exact .inr hpos
    · rw [heq] at hx
      cases hx
  · intro cursor hcursor
    rcases hshrinks.cursor with heq | heq
    · rw [heq] at hcursor
      cases hcursor
    · exact h.live cursor (heq ▸ hcursor)

/-- Up to its cursor a session has in hand what the log holds, or it is committed. -/
theorem Follows.covers {known : List Store.Records} (h : Follows q log entries pos mb sub)
    (hstands : Stands known pos mb.consumer mb.taken mb.consumer.phase) {s : Session}
    (hphase : mb.consumer.phase = .waiting s) :
    ∀ c ∈ entries.inScope q, c.seq ≤ s.cursor → c ∈ mb.handed ∨ c.seq ≤ pos := by
  intro c hc hle
  rw [hphase] at hstands
  cases hstands with
  | quiet hq => cases hq
  | waiting hcol =>
      -- the cursor is at the last change of the batch, or else at or before the checkpoint
      cases hlast : mb.taken.getLast? with
      | none =>
          have hnil : mb.taken = [] := List.getLast?_eq_none_iff.1 hlast
          exact .inr (UInt64.le_trans hle (hcol.reached hnil))
      | some x =>
          have hx := hcol.last x hlast
          refine h.closed c hc x (List.mem_append_left _ (List.mem_of_getLast? hlast)) ?_
          rw [hx]
          exact hle

/-- Without a session it does not matter what a subscription has come to. -/
theorem Follows.of_cursor_none (h : Follows q log entries pos mb sub)
    (hnone : mb.consumer.phase.cursor? = none) (sub' : Option Subscription) :
    Follows q log entries pos mb sub' := by
  refine ⟨h.handed, h.closed, ?_⟩
  intro cursor hcursor
  rw [hnone] at hcursor
  cases hcursor

/-- A subscription that handed out the change at its cursor tracks every session that is not before
it. -/
theorem Tracks.of_le {cursor : UInt64} {s : Subscription} (hmatcher : q.matcher = .ok s.matcher)
    (hpublished : ∃ p ∈ log, s.cursor ≤ p.1) (hle : s.cursor ≤ cursor) :
    Tracks q log entries pos cursor s where
  matcher := hmatcher
  behind _ _ hc := .inl (UInt64.le_trans hc hle)
  reached := .inr hpublished

/-- What a session is handed next closes the gap behind what it has in hand. -/
theorem Follows.closed_grown {s : Subscription} (h : Follows q log entries pos mb (some s))
    {cursor : UInt64} (htracks : Tracks q log entries pos cursor s)
    (hcovers : ∀ c ∈ entries.inScope q, c.seq ≤ cursor → c ∈ mb.handed ∨ c.seq ≤ pos)
    (hasc : Log.Ascending entries) {c : Change} (hin : c ∈ entries.inScope q)
    (hfirst : ∀ c' ∈ Log.inScope q (entries.filter fun p => s.cursor < p.1), c.seq ≤ c'.seq)
    {c' x : Change} (hc' : c' ∈ entries.inScope q) (hx : x ∈ mb.handed ++ [c])
    (hle : c'.seq ≤ x.seq) : c' ∈ mb.handed ++ [c] ∨ c'.seq ≤ pos := by
  have hold : (c' ∈ mb.handed ∨ c'.seq ≤ pos) → c' ∈ mb.handed ++ [c] ∨ c'.seq ≤ pos :=
    fun h => h.imp_left (List.mem_append_left _)
  rcases List.mem_append.1 hx with hx | hx
  · exact hold (h.closed c' hc' x hx hle)
  · rw [List.mem_singleton.1 hx] at hle
    by_cases hpassed : c'.seq ≤ s.cursor
    · -- the subscription has passed it, and so has the session
      rcases htracks.behind c' hc' hpassed with hle' | hpos
      · exact hold (hcovers c' hc' hle')
      · exact .inr hpos
    · -- beyond the subscription there is nothing before the new change
      have hle' := hfirst c' (Log.mem_inScope_beyond hc' (UInt64.not_le.1 hpassed))
      have heq := hasc.change_eq hc' hin (UInt64.le_antisymm hle hle')
      exact .inl (List.mem_append_right _ (List.mem_singleton.2 heq))

/-- A member that is handed the next change in scope follows on. -/
theorem Follows.receives {known : List Store.Records} {s : Subscription}
    (h : Follows q log entries pos mb (some s))
    (hstands : Stands known pos mb.consumer mb.taken mb.consumer.phase) {session : Session}
    (hphase : mb.consumer.phase = .waiting session) (hasc : Log.Ascending entries)
    (hsub : ∀ p ∈ entries, p ∈ log) {c : Change}
    (hc : c ∈ Log.inScope q (entries.filter fun p => s.cursor < p.1))
    (hfirst : ∀ c' ∈ Log.inScope q (entries.filter fun p => s.cursor < p.1), c.seq ≤ c'.seq)
    (hreceives : Receives mb mb' c) {s' : Subscription} (hmatcher : s'.matcher = s.matcher)
    (hcursor' : s'.cursor = c.seq) : Follows q log entries pos mb' (some s') := by
  have hcursor : mb.consumer.phase.cursor? = some session.cursor := by
    rw [hphase]
    rfl
  obtain ⟨_, hs, htracks⟩ := h.live _ hcursor
  cases hs
  have hin : c ∈ entries.inScope q := Log.inScope_mono (fun _ hp => (List.mem_filter.1 hp).1) hc
  have hlive : ∀ cursor, c.seq ≤ cursor → Tracks q log entries pos cursor s' := by
    intro cursor hle
    obtain ⟨p, hp, heq⟩ := Log.exists_of_mem_inScope (Log.inScope_mono hsub hin)
    refine .of_le (hmatcher ▸ htracks.matcher) ⟨p, hp, ?_⟩ (hcursor' ▸ hle)
    rw [hcursor', heq]
    exact UInt64.le_refl _
  cases hreceives with
  | skipped hhanded hsame hle =>
      refine ⟨hhanded ▸ h.handed, hhanded ▸ h.closed, ?_⟩
      intro cursor hcur
      rw [hsame] at hcur
      exact ⟨s', rfl, hlive cursor (hle cursor hcur)⟩
  | ended hhanded hnone =>
      have hshrinks : Shrinks mb mb' := ⟨.inr hhanded, .inl hnone⟩
      exact (h.shrinks hshrinks hstands.lt_held).of_cursor_none hnone _
  | grown hhanded hcur' =>
      refine ⟨?_, ?_, ?_⟩
      · intro x hx
        rw [hhanded] at hx
        rcases List.mem_append.1 hx with hx | hx
        · exact h.handed x hx
        · rw [List.mem_singleton.1 hx]
          exact Log.inScope_mono hsub hin
      · intro c' hc' x hx hle
        rw [hhanded] at hx ⊢
        exact h.closed_grown htracks (h.covers hstands hphase) hasc hin hfirst hc' hx hle
      · intro cursor hcur
        rw [hcur'] at hcur
        cases hcur
        exact ⟨s', rfl, hlive _ (UInt64.le_refl _)⟩

/-- What the feed answers to a consumer that subscribes leaves nothing in its hand. -/
theorem subscribed_step {known : List Store.Records} {checkpoint : UInt64}
    (hstands : Stands known pos mb.consumer mb.taken mb.consumer.phase)
    (hphase : mb.consumer.phase = .subscribing checkpoint) (m : Moment)
    (answer : Except FeedFault Unit) :
    checkpoint ≤ pos ∧ (mb.step m (.subscribed answer)).handed = [] ∧
      ((mb.step m (.subscribed answer)).consumer.phase.cursor? = none ∨
        answer = .ok () ∧
          (mb.step m (.subscribed answer)).consumer.phase.cursor? = some checkpoint) := by
  -- the checkpoint was read before, and has not gone back since
  have hle : checkpoint ≤ pos := by
    rw [hphase] at hstands
    cases hstands with
    | quiet hq => cases hq
    | subscribing hle hnone => exact hle
  refine ⟨hle, ?_⟩
  cases answer with
  | error e =>
      have hq : (mb.step m (.subscribed (.error e))).consumer.phase.Quiet := by
        have hstep : (mb.step m (.subscribed (.error e))).consumer =
            (mb.consumer.react e.toStream m).1 := by
          simp only [Member.step, Consumer.step, hphase]
        rw [hstep]
        exact (mb.consumer.react_turns e.toStream m).phase
      exact ⟨handed_step_of_quiet hq, .inl hq.cursor?⟩
  | ok u =>
      have hphase' : (mb.step m (.subscribed (.ok u))).consumer.phase =
          .waiting { cursor := checkpoint } := by
        simp only [Member.step, Consumer.step, hphase, Consumer.publish]
      refine ⟨handed_step mb m _ hphase', .inr ⟨rfl, ?_⟩⟩
      rw [hphase']
      rfl

end Follows

end ChangeRelay
