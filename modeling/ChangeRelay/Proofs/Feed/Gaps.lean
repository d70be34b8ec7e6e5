import ChangeRelay.Feed.StreamFeed
import ChangeRelay.Proofs.Assoc
import ChangeRelay.Proofs.Feed.Log

/-!
# What gaps are told with

A subscription behind what a feed has discarded is refused with two positions: the one it needs
and the oldest one that it could be given. A reader who is told of a gap takes them for granted: the
first lies at or before what was discarded, the second beyond it. Which histories of a log keep that
promise is said here, as is where positions run out: the last one has no successor.
-/

namespace ChangeRelay.Feed

/-! ## The last position -/

/-- The last position there is. -/
def lastPosition : UInt64 := 18446744073709551615

theorem le_lastPosition (n : UInt64) : n ≤ lastPosition := by
  unfold lastPosition
  grind

theorem lt_succ_iff {n : UInt64} : n < n + 1 ↔ n ≠ lastPosition := by
  unfold lastPosition
  grind

theorem succ_le_iff {n m : UInt64} : n + 1 ≤ m ↔ n < m ∨ n = lastPosition := by
  unfold lastPosition
  grind

/-- A position with one beyond it has a successor. -/
theorem toNat_succ_of_lt {n m : UInt64} (h : n < m) : (n + 1).toNat = n.toNat + 1 := by
  have hm := m.toNat_lt
  rw [UInt64.lt_iff_toNat_lt] at h
  rw [UInt64.toNat_add, UInt64.toNat_one, Nat.mod_eq_of_lt (by omega)]

theorem succ_le_of_lt {n m : UInt64} (h : n < m) : n + 1 ≤ m := succ_le_iff.2 (.inl h)

/-! ## Histories of a log -/

/-- What is done to a log. -/
inductive LogEvent where
  /-- An entry is put at a position. -/
  | publish (seq : UInt64) (entry : LogEntry)
  /-- What stands up to a position is discarded. -/
  | trim (through : UInt64)

/-- Whether a trim discards what stands at a position. A trim through the last position looks for
what to keep from the first position on. -/
def Discards (through seq : UInt64) : Prop := seq ≤ through ∧ through ≠ lastPosition

/-- A history in which an entry is put at a position and no trim after that discards it. -/
def Standing (history : List LogEvent) (seq : UInt64) : Prop :=
  ∃ before entry behind, history = before ++ .publish seq entry :: behind ∧
    ∀ through, .trim through ∈ behind → ¬ Discards through seq

/-- The greatest trim of a history; without any, everything counts from the start. -/
structure GreatestTrim (history : List LogEvent) (trimmed : UInt64) : Prop where
  le : ∀ through, .trim through ∈ history → through ≤ trimmed
  mem : trimmed = 0 ∨ .trim trimmed ∈ history

section Standing

variable {history : List LogEvent} {seq : UInt64}

theorem not_standing_nil : ¬ Standing [] seq := by
  rintro ⟨before, entry, behind, heq, -⟩
  exact absurd heq.symm (by simp)

/-- Where a history with an event more has an entry standing. -/
theorem standing_append_singleton {event : LogEvent} :
    Standing (history ++ [event]) seq ↔
      (∃ entry, event = .publish seq entry) ∨
        Standing history seq ∧ ∀ through, event = .trim through → ¬ Discards through seq := by
  constructor
  · rintro ⟨before, entry, behind, heq, hkept⟩
    rcases List.eq_nil_or_concat behind with rfl | ⟨behind, last, rfl⟩
    · exact .inl ⟨entry, (List.append_inj' heq rfl).2 |> List.singleton_inj.1⟩
    · rw [List.concat_eq_append, ← List.cons_append, ← List.append_assoc] at heq
      obtain ⟨rfl, hlast⟩ := List.append_inj' heq rfl
      cases hlast
      rw [List.concat_eq_append] at hkept
      refine .inr ⟨⟨before, entry, behind, rfl, ?_⟩, ?_⟩
      · intro through hmem
        exact hkept through (List.mem_append_left _ hmem)
      · rintro through rfl
        exact hkept through (List.mem_append_right _ List.mem_cons_self)
  · rintro (⟨entry, rfl⟩ | ⟨⟨before, entry, behind, rfl, hkept⟩, hevent⟩)
    · exact ⟨history, entry, [], rfl, by simp⟩
    · refine ⟨before, entry, behind ++ [event], by simp, ?_⟩
      intro through hmem
      rcases List.mem_append.1 hmem with hmem | hmem
      · exact hkept through hmem
      · exact hevent through (List.mem_singleton.1 hmem).symm

end Standing

theorem GreatestTrim.publish {history : List LogEvent} {trimmed : UInt64}
    (h : GreatestTrim history trimmed) (seq : UInt64) (entry : LogEntry) :
    GreatestTrim (history ++ [.publish seq entry]) trimmed where
  le through hmem := by
    rcases List.mem_append.1 hmem with hmem | hmem
    · exact h.le through hmem
    · simp at hmem
  mem := h.mem.imp_right fun hmem => List.mem_append_left _ hmem

theorem GreatestTrim.trim {history : List LogEvent} {trimmed : UInt64}
    (h : GreatestTrim history trimmed) (through : UInt64) :
    GreatestTrim (history ++ [.trim through])
      (if trimmed ≤ through then through else trimmed) where
  le t hmem := by
    rcases List.mem_append.1 hmem with hmem | hmem
    · have := h.le t hmem
      grind
    · simp only [List.mem_singleton, LogEvent.trim.injEq] at hmem
      grind
  mem := by
    split
    · exact .inr (List.mem_append_right _ List.mem_cons_self)
    · exact h.mem.imp_right fun hmem => List.mem_append_left _ hmem

namespace Memory

variable {f : Memory}

/-- The log after an event. -/
def take (f : Memory) : LogEvent → Memory
  | .publish seq entry => f.publishRaw seq entry
  | .trim through => f.trimThrough through

/-- A new log after a history. -/
def ofHistory (history : List LogEvent) : Memory := history.foldl take {}

theorem ofHistory_append_singleton (history : List LogEvent) (event : LogEvent) :
    ofHistory (history ++ [event]) = (ofHistory history).take event := by
  simp [ofHistory, List.foldl_append]

/-- What is kept from a trim. -/
theorem mem_trimThrough {through : UInt64} {p : UInt64 × LogEntry} :
    p ∈ (f.trimThrough through).entries ↔ p ∈ f.entries ∧ ¬ Discards through p.1 := by
  rw [trimThrough, List.mem_filter, decide_eq_true_iff, succ_le_iff, Discards, not_and_or,
    not_not, UInt64.not_le]

theorem mem_keys_take {event : LogEvent} {seq : UInt64} :
    seq ∈ Assoc.keys (f.take event).entries ↔
      (∃ entry, event = .publish seq entry) ∨
        seq ∈ Assoc.keys f.entries ∧ ∀ through, event = .trim through → ¬ Discards through seq := by
  cases event with
  | publish n entry =>
      rw [take, publishRaw, Assoc.mem_keys_insert]
      simp [eq_comm]
  | trim through =>
      simp only [take, Assoc.keys, List.mem_map, mem_trimThrough]
      constructor
      · rintro ⟨p, ⟨hmem, hkept⟩, rfl⟩
        refine .inr ⟨⟨p, hmem, rfl⟩, ?_⟩
        rintro _ ⟨⟩
        exact hkept
      · rintro (⟨_, ⟨⟩⟩ | ⟨⟨p, hmem, rfl⟩, hkept⟩)
        exact ⟨p, ⟨hmem, hkept through rfl⟩, rfl⟩

theorem ascending_take (h : Log.Ascending f.entries) (event : LogEvent) :
    Log.Ascending (f.take event).entries := by
  cases event with
  | publish seq entry => exact Assoc.Ascending.insert h seq entry
  | trim through => exact h.filter _

/-- What a history leaves of a new log. -/
structure After (history : List LogEvent) (f : Memory) : Prop where
  ascending : Log.Ascending f.entries
  mem_keys : ∀ seq, seq ∈ Assoc.keys f.entries ↔ Standing history seq
  trimmed : GreatestTrim history f.trimmedThrough
  serving : f.failSubscribes = 0

theorem After.take {history : List LogEvent} (h : After history f) (event : LogEvent) :
    After (history ++ [event]) (f.take event) where
  ascending := ascending_take h.ascending event
  mem_keys seq := by rw [mem_keys_take, standing_append_singleton, h.mem_keys]
  trimmed := by
    cases event with
    | publish seq entry => exact h.trimmed.publish seq entry
    | trim through => exact h.trimmed.trim through
  serving := by
    cases event with
    | publish seq entry => exact h.serving
    | trim through => exact h.serving

theorem after_ofHistory (history : List LogEvent) : After history (ofHistory history) := by
  induction history using List.reverseRecOn with
  | nil =>
      refine ⟨List.Pairwise.nil, ?_, ⟨by simp, .inl rfl⟩, rfl⟩
      intro seq
      simp [ofHistory, Assoc.keys, not_standing_nil]
  | append_singleton history event ih =>
      rw [ofHistory_append_singleton]
      exact ih.take event

/-! ## The oldest position -/

/-- The oldest position is the first one that stands in the log, or else the one right after what
was trimmed. -/
theorem oldest_cases (h : Log.Ascending f.entries) :
    f.oldest ∈ Assoc.keys f.entries ∧ (∀ seq ∈ Assoc.keys f.entries, f.oldest ≤ seq) ∨
      f.oldest = f.trimmedThrough + 1 ∧ Assoc.keys f.entries = [] := by
  unfold oldest
  cases hentries : f.entries with
  | nil => exact .inr ⟨rfl, rfl⟩
  | cons p rest =>
      rw [hentries, Log.Ascending, List.pairwise_cons] at h
      refine .inl ⟨List.mem_cons_self, ?_⟩
      intro seq hmem
      rcases List.mem_cons.1 hmem with rfl | hmem
      · exact UInt64.le_refl _
      · obtain ⟨q, hq, rfl⟩ := List.mem_map.1 hmem
        exact UInt64.le_of_lt (h.1 q hq)

theorem lt_oldest_iff (h : Log.Ascending f.entries) :
    f.trimmedThrough < f.oldest ↔ f.trimmedThrough ≠ lastPosition ∧
      ∀ seq ∈ Assoc.keys f.entries, f.trimmedThrough < seq := by
  rcases oldest_cases h with ⟨hmem, hleast⟩ | ⟨heq, hempty⟩
  · constructor
    · intro hlt
      refine ⟨?_, fun seq hseq => UInt64.lt_of_lt_of_le hlt (hleast seq hseq)⟩
      intro hlast
      exact absurd hlt (UInt64.not_lt.2 (hlast ▸ le_lastPosition _))
    · rintro ⟨-, hbeyond⟩
      exact hbeyond _ hmem
  · simp [heq, hempty, lt_succ_iff]

end Memory

/-! ## Telling of a gap -/

/-- An answer to a subscription after a position tells of a gap exactly where what comes next is
discarded, unless the subscription is refused before that is looked at. It tells of a position that
is discarded, right after the one given, and of an oldest one. -/
structure TellsGap (answer : Except FeedFault α) (considered : Prop)
    (trimmed after oldest : UInt64) : Prop where
  told_iff : (∃ need first, answer = .error (.gap need first)) ↔ considered ∧ after < trimmed
  needs : ∀ need first, answer = .error (.gap need first) →
    need.toNat = after.toNat + 1 ∧ need ≤ trimmed
  first : ∀ need first, answer = .error (.gap need first) → first = oldest

variable {considered : Prop} {trimmed after oldest : UInt64} {answer : Except FeedFault α}

theorem TellsGap.of_gap (hanswer : answer = .error (.gap (after + 1) oldest))
    (hconsidered : considered) (hlt : after < trimmed) :
    TellsGap answer considered trimmed after oldest := by
  subst hanswer
  refine ⟨iff_of_true ⟨_, _, rfl⟩ ⟨hconsidered, hlt⟩, ?_, ?_⟩
  · rintro _ _ ⟨⟩
    exact ⟨toNat_succ_of_lt hlt, succ_le_of_lt hlt⟩
  · rintro _ _ ⟨⟩
    rfl

theorem TellsGap.of_other (hother : ∀ need first, answer ≠ .error (.gap need first))
    (hnot : ¬ (considered ∧ after < trimmed)) :
    TellsGap answer considered trimmed after oldest where
  told_iff := iff_of_false (fun ⟨need, first, htold⟩ => hother need first htold) hnot
  needs need first htold := absurd htold (hother need first)
  first need first htold := absurd htold (hother need first)

theorem TellsGap.answer_eq (h : TellsGap answer considered trimmed after oldest)
    (hconsidered : considered) (hlt : after < trimmed) :
    answer = .error (.gap (after + 1) oldest) := by
  obtain ⟨need, first, htold⟩ := h.told_iff.2 ⟨hconsidered, hlt⟩
  have hneed : need = after + 1 :=
    UInt64.toNat_inj.1 ((h.needs need first htold).1.trans (toNat_succ_of_lt hlt).symm)
  rw [htold, hneed, h.first need first htold]

theorem Memory.subscribe_tellsGap {f : Memory} (hserving : f.failSubscribes = 0) (query : Query)
    (after : UInt64) :
    TellsGap (f.subscribe query after).2 (∃ matcher, query.matcher = .ok matcher)
      f.trimmedThrough after f.oldest := by
  cases hmatcher : query.matcher with
  | error e =>
      obtain ⟨text, rfl⟩ := Query.invalid_of_matcher hmatcher
      rw [Memory.subscribe, hmatcher]
      exact .of_other (by simp) (by simp)
  | ok matcher =>
      by_cases hlt : after < f.trimmedThrough
      · rw [Memory.subscribe_gap hmatcher hserving hlt]
        exact .of_gap rfl ⟨matcher, rfl⟩ hlt
      · rw [Memory.subscribe_of_kept hmatcher hserving (UInt64.not_lt.1 hlt)]
        exact .of_other (by simp) (fun h => hlt h.2)

/-! ## What a server says of its stream -/

section Stream

variable {replies : OpeningReplies} {id : String}

/-- A server that says how far it has discarded the stream is believed. -/
theorem ChangeStream.trimmedThrough_of_told (s : ChangeStream) (after : UInt64)
    (hpresent : replies.present.bool? = some true)
    (hinfo : ChangeStream.infoField? replies.info "max-deleted-entry-id" = some id)
    (hid : parseChangeId? id = some trimmed) :
    (s.trimmedThrough after replies.present replies.info replies.range).2 = .ok trimmed := by
  unfold ChangeStream.trimmedThrough
  rw [hpresent]
  cases hreply : replies.info with
  | error e => simp [hreply, ChangeStream.infoField?] at hinfo
  | _ => simp [← hreply, hinfo, hid]

/-- A connection that cannot be made is not a gap. -/
theorem StreamFeed.unavailable_of_connect {f f' : StreamFeed} {outcomes : List (Except String Unit)}
    {e : FeedFault} (h : f.connect outcomes = (f', .error e)) :
    ∃ message, e = .unavailable "connect" message := by
  unfold StreamFeed.connect at h
  split at h
  · cases h
  · cases h
    exact ⟨_, rfl⟩
  · cases h
    exact ⟨_, rfl⟩

theorem StreamFeed.subscribe_tellsGap (f : StreamFeed) (query : Query) (after : UInt64)
    (outcomes : List (Except String Unit)) (hpresent : replies.present.bool? = some true)
    (hinfo : ChangeStream.infoField? replies.info "max-deleted-entry-id" = some id)
    (hid : parseChangeId? id = some trimmed) :
    TellsGap (f.subscribe query after outcomes replies).2.2
      ((∃ matcher, query.matcher = .ok matcher) ∧ (f.connect outcomes).2 = .ok ())
      trimmed after (trimmed + 1) := by
  unfold StreamFeed.subscribe
  cases hmatcher : query.matcher with
  | error e =>
      obtain ⟨text, rfl⟩ := Query.invalid_of_matcher hmatcher
      exact .of_other (by simp) (by simp)
  | ok matcher =>
      rcases hconnect : f.connect outcomes with ⟨f', e | ⟨⟩⟩
      · obtain ⟨message, rfl⟩ := StreamFeed.unavailable_of_connect hconnect
        exact .of_other (by simp) (by simp)
      · have htrimmed := ChangeStream.trimmedThrough_of_told f'.stream after hpresent hinfo hid
        simp only [htrimmed, bind, Except.bind, ChangeStream.checkGap]
        by_cases hlt : after < trimmed
        · simp only [if_pos hlt]
          exact .of_gap rfl ⟨⟨matcher, rfl⟩, trivial⟩ hlt
        · simp only [if_neg hlt]
          exact .of_other (by simp [pure, Except.pure]) (fun h => hlt h.2)

end Stream

/-- Both feeds tell of a gap exactly behind what is discarded, and of a needed position that is
discarded. The oldest position they tell of lies beyond it unless everything through the last
position is discarded, where the position after it is the first one, or, for a log in memory, an
entry stands at a position already discarded: one that was published there after the trim. A trim
through the last position itself discards nothing. -/
theorem gaps_told (query : Query) (after : UInt64) :
    (∀ history : List LogEvent,
      let f := Memory.ofHistory history
      TellsGap (f.subscribe query after).2 (∃ matcher, query.matcher = .ok matcher)
          f.trimmedThrough after f.oldest ∧
        GreatestTrim history f.trimmedThrough ∧
        (∀ seq, seq ∈ Assoc.keys f.entries ↔ Standing history seq) ∧
        (Standing history f.oldest ∧ (∀ seq, Standing history seq → f.oldest ≤ seq) ∨
          f.oldest = f.trimmedThrough + 1 ∧ ∀ seq, ¬ Standing history seq) ∧
        (f.trimmedThrough < f.oldest ↔ f.trimmedThrough ≠ lastPosition ∧
          ∀ seq, Standing history seq → f.trimmedThrough < seq)) ∧
    ∀ (f : StreamFeed) (outcomes : List (Except String Unit)) (replies : OpeningReplies)
      (id : String) (trimmed : UInt64),
      replies.present.bool? = some true →
      ChangeStream.infoField? replies.info "max-deleted-entry-id" = some id →
      parseChangeId? id = some trimmed →
      TellsGap (f.subscribe query after outcomes replies).2.2
          ((∃ matcher, query.matcher = .ok matcher) ∧ (f.connect outcomes).2 = .ok ())
          trimmed after (trimmed + 1) ∧
        (trimmed < trimmed + 1 ↔ trimmed ≠ lastPosition) := by
  refine ⟨?_, ?_⟩
  · intro history f
    have hafter := Memory.after_ofHistory history
    refine ⟨Memory.subscribe_tellsGap hafter.serving query after, hafter.trimmed, hafter.mem_keys,
      ?_, ?_⟩
    · have hcases := Memory.oldest_cases hafter.ascending
      simpa only [List.eq_nil_iff_forall_not_mem, hafter.mem_keys] using hcases
    · have hbeyond := Memory.lt_oldest_iff hafter.ascending
      simpa only [hafter.mem_keys] using hbeyond
  · intro f outcomes replies id trimmed hpresent hinfo hid
    exact ⟨f.subscribe_tellsGap query after outcomes hpresent hinfo hid, lt_succ_iff⟩

/-- An entry that comes to a position already discarded. -/
def lateHistory : List LogEvent := [.trim 5, .publish 3 ⟨[], []⟩]

/-- A stream read over a connection that stands. -/
def readStream : StreamFeed where
  stream := ⟨"s", ⟨5000000000⟩, 1⟩
  connector := { name := "redis", retry := .testing, state := .connected, live := true }

/-- The answers of a server that has discarded the stream through 5. -/
def discardedReplies : OpeningReplies where
  present := .int 1
  info := .array [.bulk (Text.encodeUtf8 "length"), .int 0,
    .bulk (Text.encodeUtf8 "max-deleted-entry-id"), .bulk (Text.encodeUtf8 "5-0")]

/-- With everything through 5 discarded, the log tells a reader who needs 3 that 3 is the oldest
position there is; the stream tells of 6. -/
theorem gaps_told_late_publish :
    ((Memory.ofHistory lateHistory).subscribe (.subtree "") 2).2 = .error (.gap 3 3) ∧
      (readStream.subscribe (.subtree "") 2 [] discardedReplies).2.2 = .error (.gap 3 6) := by
  have hmatcher : ∃ matcher, (Query.subtree "").matcher = .ok matcher := ⟨⟨"", .sub⟩, by decide⟩
  constructor
  · have hlog := ((gaps_told (.subtree "") 2).1 lateHistory).1
    exact hlog.answer_eq hmatcher (by decide)
  · have hstream := (gaps_told (.subtree "") 2).2 readStream [] discardedReplies "5-0" 5
      (by decide) (by decide +kernel) (by decide)
    exact hstream.1.answer_eq ⟨hmatcher, rfl⟩ (by decide)

end ChangeRelay.Feed
