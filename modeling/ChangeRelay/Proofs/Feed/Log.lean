import ChangeRelay.Feed.Memory
import ChangeRelay.Proofs.Change
import Mathlib.Data.List.Basic

/-!
# Reading the change log

A subscription goes through the log in order and passes no change that its query asks for without
handing it out. What the log discards it can no longer hand out: that is tested when a subscription
is opened, and only then.
-/

namespace ChangeRelay

/-- Whether a query asks for a change. -/
def Query.selects (q : Query) (c : Change) : Bool :=
  match q.matcher with
  | .ok m => m.accepts c.target
  | .error _ => false

/-- The only fault of a query is that it is invalid. -/
theorem Query.invalid_of_matcher {q : Query} {e : FeedFault} (h : q.matcher = .error e) :
    ∃ text, e = .invalidQuery text := by
  unfold Query.matcher at h
  split at h
  · cases h
    exact ⟨_, rfl⟩
  · split at h
    · cases h
      exact ⟨_, rfl⟩
    · cases h

namespace Feed

/-- A log: entries by position. -/
abbrev Log := List (UInt64 × LogEntry)

/-- Positions in strictly ascending order. -/
def Log.Ascending (log : Log) : Prop := log.Pairwise fun p q => p.1 < q.1

/-- The changes of the entries that are well formed. -/
def Log.changes (log : Log) : List Change :=
  log.filterMap fun p => (p.2.change p.1).toOption

/-- The changes that a query asks for. -/
def Log.inScope (q : Query) (log : Log) : List Change := (Log.changes log).filter q.selects

theorem seq_of_change {entry : LogEntry} {seq : UInt64} {c : Change}
    (h : entry.change seq = .ok c) : c.seq = seq := by
  unfold LogEntry.change at h
  split at h
  · cases h
  · split at h
    · rename_i hseq
      cases h
      exact hseq
    · cases h

/-- An entry that tells of no change is malformed at its position. -/
theorem malformed_of_change {entry : LogEntry} {seq : UInt64} {e : FeedFault}
    (h : entry.change seq = .error e) : ∃ reason, e = .malformed (some seq) reason := by
  unfold LogEntry.change at h
  split at h
  · rename_i fault hfault
    obtain ⟨n, reason, rfl⟩ := Change.malformed_of_ofMetadata hfault
    cases h
    exact ⟨reason, rfl⟩
  · split at h
    · cases h
    · cases h
      exact ⟨_, rfl⟩

namespace Log

variable {log log' : Log} {q : Query} {c : Change}

theorem mem_inScope : c ∈ log.inScope q ↔
    (∃ entry, (c.seq, entry) ∈ log ∧ entry.change c.seq = .ok c) ∧ q.selects c = true := by
  unfold inScope changes
  rw [List.mem_filter, List.mem_filterMap]
  constructor
  · rintro ⟨⟨⟨seq, entry⟩, hmem, hchange⟩, hsel⟩
    have hok : entry.change seq = .ok c := by
      cases hc : entry.change seq with
      | error e => simp [hc, Except.toOption] at hchange
      | ok c' =>
          have : c' = c := by simpa [hc, Except.toOption] using hchange
          rw [this]
    have hseq := seq_of_change hok
    exact ⟨⟨entry, hseq ▸ hmem, hseq ▸ hok⟩, hsel⟩
  · rintro ⟨⟨entry, hmem, hok⟩, hsel⟩
    exact ⟨⟨(c.seq, entry), hmem, by simp [hok, Except.toOption]⟩, hsel⟩

/-- A change in scope stands in the log. -/
theorem exists_of_mem_inScope (h : c ∈ log.inScope q) : ∃ p ∈ log, p.1 = c.seq := by
  obtain ⟨⟨entry, hmem, -⟩, -⟩ := mem_inScope.1 h
  exact ⟨(c.seq, entry), hmem, rfl⟩

theorem inScope_mono (h : ∀ p ∈ log, p ∈ log') (hc : c ∈ log.inScope q) : c ∈ log'.inScope q := by
  obtain ⟨⟨entry, hmem, hok⟩, hsel⟩ := mem_inScope.1 hc
  exact mem_inScope.2 ⟨⟨entry, h _ hmem, hok⟩, hsel⟩

theorem mem_inScope_beyond {cursor : UInt64} (hc : c ∈ log.inScope q) (hlt : cursor < c.seq) :
    c ∈ Log.inScope q (log.filter fun p => cursor < p.1) := by
  obtain ⟨⟨entry, hmem, hok⟩, hsel⟩ := mem_inScope.1 hc
  exact mem_inScope.2 ⟨⟨entry, List.mem_filter.2 ⟨hmem, decide_eq_true hlt⟩, hok⟩, hsel⟩

theorem Ascending.inScope (h : log.Ascending) (q : Query) :
    (log.inScope q).Pairwise fun a b => a.seq < b.seq := by
  apply List.Pairwise.filter
  rw [changes, List.pairwise_filterMap]
  refine h.imp ?_
  intro p p' hlt c hc c' hc'
  have hseq : ∀ {p : UInt64 × LogEntry} {c : Change}, (p.2.change p.1).toOption = some c →
      c.seq = p.1 := by
    intro p c hc
    cases hchange : p.2.change p.1 with
    | error e => simp [hchange, Except.toOption] at hc
    | ok c' =>
        have : c' = c := by simpa [hchange, Except.toOption] using hc
        exact this ▸ seq_of_change hchange
  rw [hseq hc, hseq hc']
  exact hlt

/-- At a position of the log there is one entry. -/
theorem Ascending.entry_eq (h : log.Ascending) {seq : UInt64} {e e' : LogEntry}
    (he : (seq, e) ∈ log) (he' : (seq, e') ∈ log) : e = e' := by
  induction log with
  | nil => cases he
  | cons p rest ih =>
      rw [Ascending, List.pairwise_cons] at h
      rcases List.mem_cons.1 he with rfl | hmem
      · rcases List.mem_cons.1 he' with heq | hmem'
        · exact (Prod.mk.inj heq).2.symm
        · exact absurd (h.1 _ hmem') (UInt64.lt_irrefl _)
      · rcases List.mem_cons.1 he' with rfl | hmem'
        · exact absurd (h.1 _ hmem) (UInt64.lt_irrefl _)
        · exact ih h.2 hmem hmem'

/-- At a position of the log there is one change. -/
theorem Ascending.change_eq (h : log.Ascending) {c' : Change} (hc : c ∈ log.inScope q)
    (hc' : c' ∈ log.inScope q) (heq : c.seq = c'.seq) : c = c' := by
  obtain ⟨⟨e, he, hok⟩, -⟩ := mem_inScope.1 hc
  obtain ⟨⟨e', he', hok'⟩, -⟩ := mem_inScope.1 hc'
  rw [← heq] at he' hok'
  rw [h.entry_eq he he', hok'] at hok
  exact (Except.ok.inj hok).symm

theorem inScope_cons_of_error {p : UInt64 × LogEntry} {e : FeedFault}
    (h : p.2.change p.1 = .error e) : Log.inScope q (p :: log) = log.inScope q := by
  simp [inScope, changes, h, Except.toOption]

theorem inScope_cons_of_ok {p : UInt64 × LogEntry} (h : p.2.change p.1 = .ok c) :
    Log.inScope q (p :: log) = if q.selects c then c :: log.inScope q else log.inScope q := by
  simp only [inScope, changes, List.filterMap_cons, h, Except.toOption, List.filter_cons]

end Log

/-! ## The log itself -/

namespace Memory

variable {f : Memory}

theorem publishRaw_entries {seq : UInt64} (entry : LogEntry) (h : ∀ p ∈ f.entries, p.1 < seq) :
    (f.publishRaw seq entry).entries = f.entries ++ [(seq, entry)] :=
  Assoc.insert_eq_append entry fun p hp =>
    ⟨(UInt64.ne_of_lt (h p hp)).symm, UInt64.lt_asymm (h p hp)⟩

theorem trimThrough_sublist (f : Memory) (n : UInt64) :
    (f.trimThrough n).entries.Sublist f.entries := List.filter_sublist

/-- What a trim discards lies at or before its position. -/
theorem le_of_trimmed {n : UInt64} {p : UInt64 × LogEntry} (h : p ∈ f.entries)
    (hout : p ∉ (f.trimThrough n).entries) : p.1 ≤ n := by
  have hnot : ¬ n + 1 ≤ p.1 := by
    intro hle
    exact hout (List.mem_filter.2 ⟨h, decide_eq_true hle⟩)
  grind

theorem le_trimmedThrough (f : Memory) (n : UInt64) : n ≤ (f.trimThrough n).trimmedThrough := by
  unfold trimThrough
  simp only
  split
  · exact UInt64.le_refl _
  · rename_i h
    exact UInt64.le_of_lt (UInt64.not_le.1 h)

theorem trimmedThrough_le (f : Memory) (n : UInt64) :
    f.trimmedThrough ≤ (f.trimThrough n).trimmedThrough := by
  unfold trimThrough
  simp only
  split
  · rename_i h
    exact h
  · exact UInt64.le_refl _

/-- A subscription is given only at or behind what was trimmed. -/
theorem subscribe_ok {query : Query} {after : UInt64} {s : Subscription}
    (h : (f.subscribe query after).2 = .ok s) :
    query.matcher = .ok s.matcher ∧ s.cursor = after ∧ f.trimmedThrough ≤ after := by
  unfold subscribe at h
  split at h
  · cases h
  · rename_i m hm
    split at h
    · cases h
    · split at h
      · cases h
      · rename_i hgap
        cases h
        exact ⟨hm, rfl, UInt64.not_lt.1 hgap⟩

/-- A subscription is given where nothing of what it asks for was trimmed. -/
theorem subscribe_of_kept {query : Query} {after : UInt64} {matcher : Matcher}
    (hmatcher : query.matcher = .ok matcher) (hfail : f.failSubscribes = 0)
    (hkept : f.trimmedThrough ≤ after) :
    f.subscribe query after =
      ({ f with subscriptions := f.subscriptions ++ [after], disconnectAfter := none },
        .ok { matcher, cursor := after, remaining := f.disconnectAfter }) := by
  have hserved : ¬ 0 < f.failSubscribes := by simp [hfail]
  rw [subscribe, hmatcher]
  simp only [if_neg hserved, if_neg (UInt64.not_lt.2 hkept)]

/-- Behind what was trimmed no subscription is given. -/
theorem subscribe_gap {query : Query} {after : UInt64} {matcher : Matcher}
    (hmatcher : query.matcher = .ok matcher) (hfail : f.failSubscribes = 0)
    (hlt : after < f.trimmedThrough) :
    f.subscribe query after = (f, .error (.gap (after + 1) f.oldest)) := by
  unfold subscribe
  rw [hmatcher]
  simp only [hfail, hlt, Nat.lt_irrefl, if_true, if_false]

/-- For what reasons no subscription is given. -/
theorem subscribe_error {query : Query} {after : UInt64} {e : FeedFault}
    (h : (f.subscribe query after).2 = .error e) :
    (∃ text, e = .invalidQuery text) ∨ (∃ operation message, e = .unavailable operation message) ∨
      e = .gap (after + 1) f.oldest := by
  unfold subscribe at h
  split at h
  · rename_i fault hmatcher
    cases h
    exact .inl (Query.invalid_of_matcher hmatcher)
  · split at h
    · cases h
      exact .inr (.inl ⟨_, _, rfl⟩)
    · split at h
      · cases h
        exact .inr (.inr rfl)
      · cases h

/-- Subscribing leaves the log as it is. -/
theorem subscribe_frame (f : Memory) (query : Query) (after : UInt64) :
    (f.subscribe query after).1.entries = f.entries ∧
      (f.subscribe query after).1.trimmedThrough = f.trimmedThrough ∧
      (f.subscribe query after).1.delivered = f.delivered := by
  unfold subscribe
  split
  · exact ⟨rfl, rfl, rfl⟩
  · split
    · exact ⟨rfl, rfl, rfl⟩
    · split <;> exact ⟨rfl, rfl, rfl⟩

end Memory

/-! ## Going through the log -/

/-- What going through entries that lie beyond a cursor does to a subscription. -/
structure Scanned (s : Subscription) (log : Log) (r : Subscription × Finding) : Prop where
  matcher : r.1.matcher = s.matcher
  cursor : r.1.cursor = s.cursor ∨ ∃ p ∈ log, r.1.cursor = p.1
  /-- No change in scope is passed. -/
  beyond : ∀ q : Query, q.matcher = .ok s.matcher → ∀ c ∈ log.inScope q, r.1.cursor < c.seq
  /-- The change that is found is the first in scope. -/
  found : ∀ c, r.2 = .found c → ∀ q : Query, q.matcher = .ok s.matcher →
    c ∈ log.inScope q ∧ ∀ c' ∈ log.inScope q, c.seq ≤ c'.seq

/-- An entry whose change nobody asks for is passed. -/
theorem Scanned.pass {s : Subscription} {seq : UInt64} {entry : LogEntry} {rest : Log}
    {r : Subscription × Finding} (h : Scanned { s with cursor := seq } rest r)
    (hout : ∀ q : Query, q.matcher = .ok s.matcher →
      Log.inScope q ((seq, entry) :: rest) = Log.inScope q rest) :
    Scanned s ((seq, entry) :: rest) r where
  matcher := h.matcher
  cursor := by
    rcases h.cursor with heq | ⟨p, hp, heq⟩
    · exact .inr ⟨(seq, entry), List.mem_cons_self, heq⟩
    · exact .inr ⟨p, List.mem_cons_of_mem _ hp, heq⟩
  beyond q hq := by
    rw [hout q hq]
    exact h.beyond q hq
  found c hc q hq := by
    rw [hout q hq]
    exact h.found c hc q hq

/-- The first change of a log that is in scope is the one that is found. -/
theorem Scanned.here {s : Subscription} {seq : UInt64} {entry : LogEntry} {rest : Log} {c : Change}
    (hok : entry.change seq = .ok c) (haccepts : s.matcher.accepts c.target = true)
    (hbeyond : ∀ p ∈ (seq, entry) :: rest, s.cursor < p.1)
    (hrest : ∀ q : Query, ∀ c' ∈ Log.inScope q rest, seq < c'.seq) :
    Scanned s ((seq, entry) :: rest) (s, .found c) where
  matcher := rfl
  cursor := .inl rfl
  beyond q _ c' hc' := by
    obtain ⟨p, hp, heq⟩ := Log.exists_of_mem_inScope hc'
    exact heq ▸ hbeyond p hp
  found c' hc' q hq := by
    cases hc'
    have hcseq : c.seq = seq := seq_of_change hok
    have hselects : q.selects c = true := by simp only [Query.selects, hq, haccepts]
    rw [Log.inScope_cons_of_ok hok, if_pos hselects]
    refine ⟨List.mem_cons_self, ?_⟩
    intro c' hc'
    rcases List.mem_cons.1 hc' with rfl | hc'
    · exact UInt64.le_refl _
    · exact UInt64.le_of_lt (hcseq ▸ hrest q c' hc')

theorem scan_scanned (s : Subscription) {log : Log} (hasc : log.Ascending)
    (hbeyond : ∀ p ∈ log, s.cursor < p.1) : Scanned s log (s.scan log) := by
  induction log generalizing s with
  | nil =>
      refine ⟨rfl, .inl rfl, ?_, ?_⟩
      · intro q _ c hc
        cases hc
      · intro c hc
        cases hc
  | cons p rest ih =>
      obtain ⟨seq, entry⟩ := p
      rw [Log.Ascending, List.pairwise_cons] at hasc
      obtain ⟨hfirst, hasc⟩ := hasc
      -- changes behind the first entry lie beyond it
      have hrest : ∀ q : Query, ∀ c ∈ Log.inScope q rest, seq < c.seq := by
        intro q c hc
        obtain ⟨p, hp, heq⟩ := Log.exists_of_mem_inScope hc
        exact heq ▸ hfirst p hp
      unfold Subscription.scan
      split
      · -- a malformed entry is passed, and the scan ends with its fault
        rename_i e herror
        refine ⟨rfl, .inr ⟨(seq, entry), List.mem_cons_self, rfl⟩, ?_, ?_⟩
        · intro q _ c hc
          rw [Log.inScope_cons_of_error herror] at hc
          exact hrest q c hc
        · intro c hc
          cases hc
      · rename_i c hok
        split
        · rename_i haccepts
          exact .here hok haccepts hbeyond hrest
        · -- out of scope: the cursor passes it, as it does in the rest
          rename_i haccepts
          refine (ih { s with cursor := seq } hasc hfirst).pass ?_
          intro q hq
          have hselects : ¬ q.selects c = true := by simp [Query.selects, hq, haccepts]
          rw [Log.inScope_cons_of_ok hok, if_neg hselects]

theorem look_scanned (s : Subscription) {f : Memory} (hasc : Log.Ascending f.entries) :
    Scanned s (f.entries.filter fun p => s.cursor < p.1) (s.look f) := by
  have hbeyond : ∀ p ∈ f.entries.filter fun p => s.cursor < p.1, s.cursor < p.1 := by
    intro p hp
    exact of_decide_eq_true (List.mem_filter.1 hp).2
  unfold Subscription.look
  split
  · -- the subscription is dropped
    refine ⟨rfl, .inl rfl, ?_, ?_⟩
    · intro q _ c hc
      obtain ⟨p, hp, heq⟩ := Log.exists_of_mem_inScope hc
      exact heq ▸ hbeyond p hp
    · intro c hc
      cases hc
  · exact scan_scanned s (hasc.filter _) hbeyond

/-- No scan gets past an entry that is malformed or asked for. -/
theorem scan_stops {s : Subscription} {log : Log} (hasc : log.Ascending) {seq : UInt64}
    {entry : LogEntry} (hmem : (seq, entry) ∈ log)
    (hstop : ∀ c, entry.change seq = .ok c → s.matcher.accepts c.target = true) :
    (∃ e, (s.scan log).2 = .fault e) ∨ ∃ c, (s.scan log).2 = .found c ∧ c.seq ≤ seq := by
  induction log generalizing s with
  | nil => cases hmem
  | cons p rest ih =>
      obtain ⟨n, e⟩ := p
      rw [Log.Ascending, List.pairwise_cons] at hasc
      unfold Subscription.scan
      split
      · rename_i fault _
        exact .inl ⟨fault, rfl⟩
      · rename_i c hok
        split
        · -- what is found here is not behind the entry
          refine .inr ⟨c, rfl, ?_⟩
          rw [seq_of_change hok]
          rcases List.mem_cons.1 hmem with heq | hmem
          · rw [(Prod.mk.inj heq).1]
            exact UInt64.le_refl _
          · exact UInt64.le_of_lt (hasc.1 _ hmem)
        · rename_i hout
          rcases List.mem_cons.1 hmem with heq | hmem
          · cases heq
            exact absurd (hstop c hok) hout
          · exact ih hasc.2 hmem hstop

theorem look_stops {s : Subscription} {f : Memory} (hasc : Log.Ascending f.entries) {seq : UInt64}
    {entry : LogEntry} (hmem : (seq, entry) ∈ f.entries) (hlt : s.cursor < seq)
    (hstop : ∀ c, entry.change seq = .ok c → s.matcher.accepts c.target = true) :
    (∃ e, (s.look f).2 = .fault e) ∨ ∃ c, (s.look f).2 = .found c ∧ c.seq ≤ seq := by
  unfold Subscription.look
  split
  · exact .inl ⟨_, rfl⟩
  · exact scan_stops (hasc.filter _) (List.mem_filter.2 ⟨hmem, decide_eq_true hlt⟩) hstop

/-- A scan that comes to a fault has passed the entry that is malformed. -/
theorem scan_fault {s : Subscription} {log : Log} {e : FeedFault} (h : (s.scan log).2 = .fault e) :
    ∃ entry, ((s.scan log).1.cursor, entry) ∈ log ∧
      entry.change (s.scan log).1.cursor = .error e := by
  induction log generalizing s with
  | nil => cases h
  | cons p rest ih =>
      obtain ⟨n, entry⟩ := p
      unfold Subscription.scan at h ⊢
      cases hchange : entry.change n with
      | error fault =>
          simp only [hchange] at h ⊢
          cases h
          exact ⟨entry, List.mem_cons_self, hchange⟩
      | ok c =>
          simp only [hchange] at h ⊢
          split at h
          · cases h
          · rename_i hout
            rw [if_neg hout]
            obtain ⟨entry', hmem, hfault⟩ := ih h
            exact ⟨entry', List.mem_cons_of_mem _ hmem, hfault⟩

/-- A subscription has come on to an entry that is malformed. -/
def Subscription.StopsAt (s : Subscription) (f : Memory) (t : Subscription) (e : FeedFault) :
    Prop :=
  ∃ entry, (t.cursor, entry) ∈ f.entries ∧ s.cursor < t.cursor ∧ entry.change t.cursor = .error e

theorem Subscription.StopsAt.malformed {s t : Subscription} {f : Memory} {e : FeedFault}
    (h : s.StopsAt f t e) : ∃ reason, e = .malformed (some t.cursor) reason := by
  obtain ⟨entry, -, -, hchange⟩ := h
  exact malformed_of_change hchange

theorem look_fault {s : Subscription} {f : Memory} {e : FeedFault} (h : (s.look f).2 = .fault e) :
    (∃ operation message, e = .unavailable operation message) ∨ s.StopsAt f (s.look f).1 e := by
  unfold Subscription.look at h ⊢
  split at h
  · cases h
    exact .inl ⟨_, _, rfl⟩
  · rename_i hremaining
    rw [if_neg hremaining]
    obtain ⟨entry, hmem, hfault⟩ := scan_fault h
    obtain ⟨hmem, hbeyond⟩ := List.mem_filter.1 hmem
    exact .inr ⟨entry, hmem, of_decide_eq_true hbeyond, hfault⟩

section Poll

variable {s : Subscription} {f : Memory}

theorem poll_of_found {c : Change} (h : (s.look f).2 = .found c) :
    s.poll f = (((s.look f).1.deliver f c).1, ((s.look f).1.deliver f c).2,
      some (.ok (some (.event c)))) := by
  rw [Subscription.poll]
  rcases hlook : s.look f with ⟨s', found⟩
  rw [hlook] at h
  cases h
  rfl

theorem poll_of_fault {e : FeedFault} (h : (s.look f).2 = .fault e) :
    s.poll f = (f, (s.look f).1, some (.error e)) := by
  rw [Subscription.poll]
  rcases hlook : s.look f with ⟨s', found⟩
  rw [hlook] at h
  cases h
  rfl

theorem poll_of_nothing (h : (s.look f).2 = .nothing) :
    s.poll f = (f, (s.look f).1, if f.closed then some (.ok none) else none) := by
  rw [Subscription.poll]
  rcases hlook : s.look f with ⟨s', found⟩
  rw [hlook] at h
  cases h
  rfl

/-- The answer of a poll tells what was found. -/
theorem look_of_poll_event {c : Change} (h : (s.poll f).2.2 = some (.ok (some (.event c)))) :
    (s.look f).2 = .found c := by
  cases hfound : (s.look f).2 with
  | found c' =>
      rw [poll_of_found hfound] at h
      cases h
      rfl
  | fault e =>
      rw [poll_of_fault hfound] at h
      cases h
  | nothing =>
      rw [poll_of_nothing hfound] at h
      dsimp only at h
      split at h <;> cases h

theorem look_of_poll_error {e : FeedFault} (h : (s.poll f).2.2 = some (.error e)) :
    (s.look f).2 = .fault e := by
  cases hfound : (s.look f).2 with
  | found c =>
      rw [poll_of_found hfound] at h
      cases h
  | fault e' =>
      rw [poll_of_fault hfound] at h
      cases h
      rfl
  | nothing =>
      rw [poll_of_nothing hfound] at h
      dsimp only at h
      split at h <;> cases h

end Poll

/-- Reading leaves the log as it is. -/
theorem poll_frame (s : Subscription) (f : Memory) :
    (s.poll f).1.entries = f.entries ∧ (s.poll f).1.trimmedThrough = f.trimmedThrough := by
  unfold Subscription.poll
  split <;> exact ⟨rfl, rfl⟩

/-- What was handed out stays noted. -/
theorem poll_delivered (s : Subscription) (f : Memory) {n : UInt64} (h : n ∈ f.delivered) :
    n ∈ (s.poll f).1.delivered := by
  unfold Subscription.poll
  split
  · exact h
  · exact List.mem_append_left _ h
  · exact h

end Feed

end ChangeRelay
