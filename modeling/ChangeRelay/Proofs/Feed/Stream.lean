import ChangeRelay.Feed.ChangeStream
import ChangeRelay.Proofs.Text.RoundTrip
import Mathlib.Data.List.Basic
import Mathlib.Data.List.Pairwise

/-!
# Reading a change stream

The server orders the entries of a stream by IDs of two parts, of which the first is the number of
the change. A reader keeps that number only and reads on after it with a second part of zero. As
long as every ID has that second part, a reader is handed each change that its query asks for
once, in order, and is told of an idle stream only at its end. An entry with another second part
lies beyond the place that its own number names, and is read again.
-/

namespace ChangeRelay.Feed

open Redis (Reply Command)

/-! ## What the server keeps -/

/-- The ID of an entry: the number of its change and a second part. -/
structure EntryId where
  number : UInt64
  part : UInt64
deriving DecidableEq

namespace EntryId

/-- IDs are ordered by their first part, then by their second. -/
instance : LT EntryId :=
  ⟨fun i j => i.number < j.number ∨ (i.number = j.number ∧ i.part < j.part)⟩

instance : DecidableLT EntryId := fun i j =>
  inferInstanceAs (Decidable (i.number < j.number ∨ (i.number = j.number ∧ i.part < j.part)))

theorem lt_def {i j : EntryId} :
    i < j ↔ i.number < j.number ∨ (i.number = j.number ∧ i.part < j.part) := Iff.rfl

theorem lt_trans {i j k : EntryId} (hij : i < j) (hjk : j < k) : i < k := by
  rw [lt_def] at *
  grind

/-- The ID as the server writes it. -/
def text (i : EntryId) : String := s!"{i.number}-{i.part}"

/-- The ID after which a reader reads on that got as far as a change. -/
def after (seq : UInt64) : EntryId := ⟨seq, 0⟩

theorem toList_text (i : EntryId) :
    i.text.toList = Nat.toDigits 10 i.number.toNat ++ '-' :: Nat.toDigits 10 i.part.toNat := by
  simp [text, toString, Nat.repr_eq_ofList_toDigits]

/-- A reader asks for what lies after the ID without a second part. -/
theorem changeId_eq (seq : UInt64) : changeId seq = (after seq).text := by
  apply String.toList_injective
  rw [toList_text]
  simp [changeId, after, toString, Nat.repr_eq_ofList_toDigits]

/-- No digit is a dash. -/
theorem ne_dash_of_mem_toDigits {n : Nat} {c : Char} (h : c ∈ Nat.toDigits 10 n) : c ≠ '-' := by
  rintro rfl
  exact absurd (Nat.isDigit_of_mem_toDigits (by decide) (by decide) h) (by decide)

/-- The number of a change is read back from the ID of its entry. -/
theorem parseChangeId?_text (i : EntryId) : parseChangeId? i.text = some i.number := by
  have hdigits : ∀ c ∈ Nat.toDigits 10 i.number.toNat, decide (c ≠ '-') = true := fun c hc =>
    decide_eq_true (ne_dash_of_mem_toDigits hc)
  have hfirst : i.text.toList.takeWhile (· ≠ '-') = Nat.toDigits 10 i.number.toNat := by
    rw [toList_text, List.takeWhile_append_of_pos hdigits]
    simp
  have hsecond : i.text.toList.dropWhile (· ≠ '-') = '-' :: Nat.toDigits 10 i.part.toNat := by
    rw [toList_text, List.dropWhile_append_of_pos hdigits]
    simp
  simp only [parseChangeId?, hfirst, hsecond, Text.readUnsigned?_toDigits, Option.bind_some,
    Text.wordOfNat?_toNat]

theorem changeId_inj {seq other : UInt64} (h : changeId seq = changeId other) : seq = other := by
  have hparse := congrArg parseChangeId? h
  simpa [changeId_eq, parseChangeId?_text, after] using hparse

end EntryId

/-- An entry that the server keeps. -/
structure StoredEntry where
  id : EntryId
  fields : List (String × Reply)

namespace StoredEntry

/-- The entry as a reader gets it. -/
def sent (e : StoredEntry) : StreamEntry := ⟨e.id.text, e.fields⟩

theorem seq_of_change {e : StoredEntry} {c : Change} (h : e.sent.change = .ok c) :
    c.seq = e.id.number := by
  rw [StreamEntry.change, sent, EntryId.parseChangeId?_text] at h
  dsimp only at h
  split at h
  · cases h
  · split at h
    · cases h
    · split at h
      · rename_i hseq
        cases h
        exact hseq
      · cases h

/-- The change of an entry, if it is well formed and in scope. -/
def offered (m : Matcher) (e : StoredEntry) : Option Change :=
  e.sent.change.toOption.filter fun c => m.accepts c.target

theorem offered_eq_some {m : Matcher} {e : StoredEntry} {c : Change} :
    e.offered m = some c ↔ e.sent.change = .ok c ∧ m.accepts c.target = true := by
  rw [offered, Option.filter_eq_some_iff]
  cases e.sent.change <;> simp [Except.toOption]

end StoredEntry

/-- A stream: its entries in the order of their IDs. -/
abbrev Entries := List StoredEntry

namespace Entries

def Ascending (entries : Entries) : Prop := entries.Pairwise fun e f => e.id < f.id

/-- The entries after an ID. -/
def beyond (entries : Entries) (i : EntryId) : Entries := entries.filter fun e => i < e.id

/-- The changes after a position that a query asks for. -/
def due (entries : Entries) (m : Matcher) (seq : UInt64) : List Change :=
  (entries.beyond (.after seq)).filterMap (StoredEntry.offered m)

/-- What lies beyond an entry is what stands behind it. -/
theorem beyond_id {entries rest : Entries} {e : StoredEntry} {i : EntryId}
    (hasc : entries.Ascending) (h : entries.beyond i = e :: rest) :
    entries.beyond e.id = rest := by
  have hi : i < e.id := by
    have hmem : e ∈ entries.beyond i := h ▸ List.mem_cons_self
    simpa [beyond] using (List.mem_filter.1 hmem).2
  have hsub : entries.beyond e.id = (entries.beyond i).beyond e.id := by
    rw [beyond, beyond, beyond, List.filter_filter]
    apply List.filter_congr
    intro f _
    rw [← Bool.decide_and, decide_eq_decide]
    exact ⟨fun hf => ⟨hf, EntryId.lt_trans hi hf⟩, And.left⟩
  have hrest : ∀ f ∈ rest, e.id < f.id := by
    have hpair : (entries.beyond i).Pairwise fun e f => e.id < f.id := hasc.filter _
    rw [h] at hpair
    exact (List.pairwise_cons.1 hpair).1
  rw [hsub, h, beyond, List.filter_cons_of_neg (by simp [EntryId.lt_def])]
  exact List.filter_eq_self.2 fun f hf => decide_eq_true (hrest f hf)

end Entries

/-! ## Reading in calls -/

/-- What a server may answer to a read: the next few entries after the ID that was sent, no more
than asked for, and some if there are any. -/
def Answers (stream : ChangeStream) (entries : Entries) (asked : Command) (reply : Reply) : Prop :=
  ∃ seq n, asked = stream.readCommand seq ∧ n ≤ stream.readCount ∧
    (entries.beyond (.after seq) ≠ [] → 0 < n) ∧
    ChangeStream.entries? reply =
      some (((entries.beyond (.after seq)).take n).map StoredEntry.sent)

/-- Calls one after another, each with answers to all of its reads. -/
inductive Calls (entries : Entries) :
    StreamSubscription → List FeedAnswer → StreamSubscription → Prop
  | done (s : StreamSubscription) : Calls entries s [] s
  | call {s s' t : StreamSubscription} {replies : List Reply} {asked : List Command}
      {answer : FeedAnswer} {answers : List FeedAnswer} :
      s.next replies = (s', asked, answer) →
      List.Forall₂ (Answers s.stream entries) asked replies →
      Calls entries s' answers t → Calls entries s (answer :: answers) t

/-- The ID that a read sends says where the reader stands. -/
theorem readCommand_inj {stream : ChangeStream} {seq other : UInt64}
    (h : stream.readCommand seq = stream.readCommand other) : seq = other := by
  have htexts := congrArg List.getLast? h
  simp only [ChangeStream.readCommand, Redis.command, List.map_cons, List.map_nil,
    List.getLast?_cons_cons, List.getLast?_singleton, Option.some.injEq] at htexts
  exact EntryId.changeId_inj (Text.encodeUtf8_inj htexts)

/-- An entry that has its change at the place which its number names, and no fault. -/
def StoredEntry.Plain (e : StoredEntry) : Prop := e.id.part = 0 ∧ e.sent.change.isOk

/-- A reader's place: what lies beyond it are the entries it has read, but not handed out, and
then those that it has not read. -/
structure Place (entries : Entries) (s : StreamSubscription) (held unread : Entries) : Prop where
  buffer : s.buffer = held.map StoredEntry.sent
  beyond : entries.beyond (.after s.cursor) = held ++ unread
  plain : ∀ e ∈ held ++ unread, e.Plain

/-- Going on to another place keeps what a subscription is. -/
def SameReader (s t : StreamSubscription) : Prop := t.stream = s.stream ∧ t.matcher = s.matcher

theorem SameReader.trans {s t u : StreamSubscription} (h : SameReader s t) (h' : SameReader t u) :
    SameReader s u := ⟨h'.1.trans h.1, h'.2.trans h.2⟩

/-! ## One call -/

namespace StreamSubscription

variable {s t u : StreamSubscription}

theorem next_of_found {c : Change} (replies : List Reply)
    (hdrain : s.drain s.buffer = (t, some (.ok c))) :
    s.next replies = (t, [], .ok (some (.event c))) := by
  cases replies <;> rw [next, hdrain]

theorem next_of_idle {reply : Reply} {answer : FeedAnswer} (replies : List Reply)
    (hdrain : s.drain s.buffer = (t, none)) (hreply : t.onReply reply = (u, some answer)) :
    s.next (reply :: replies) = (u, [t.stream.readCommand t.cursor], answer) := by
  rw [next, hdrain]
  dsimp only
  rw [hreply]

theorem next_of_read {reply : Reply} (replies : List Reply)
    (hdrain : s.drain s.buffer = (t, none)) (hreply : t.onReply reply = (u, none)) :
    s.next (reply :: replies) = ((u.next replies).1,
      t.stream.readCommand t.cursor :: (u.next replies).2.1, (u.next replies).2.2) := by
  rw [next, hdrain]
  dsimp only
  rw [hreply]

/-- A call that finds nothing among what was read sends a read. -/
theorem asked_of_drain {reply : Reply} {replies : List Reply} {asked : List Command}
    {answer : FeedAnswer} (hdrain : s.drain s.buffer = (u, none))
    (hnext : s.next (reply :: replies) = (t, asked, answer)) :
    ∃ more, asked = u.stream.readCommand u.cursor :: more := by
  rcases hon : u.onReply reply with ⟨w, found⟩
  cases found with
  | some a =>
    rw [next_of_idle _ hdrain hon] at hnext
    cases hnext
    exact ⟨_, rfl⟩
  | none =>
    rw [next_of_read _ hdrain hon] at hnext
    cases hnext
    exact ⟨_, rfl⟩

end StreamSubscription

section Reading

variable {entries : Entries} (hasc : entries.Ascending)
include hasc

/-- Going through what was read: either nothing of it is in scope, or the first change in scope is
found. Nothing is passed over, and nothing stays in the way. -/
theorem drain_spec {s : StreamSubscription} {held unread : Entries}
    (hbeyond : entries.beyond (.after s.cursor) = held ++ unread)
    (hplain : ∀ e ∈ held ++ unread, e.Plain) :
    ∃ t found, s.drain (held.map StoredEntry.sent) = (t, found) ∧ SameReader s t ∧
      ((found = none ∧ held.filterMap (StoredEntry.offered s.matcher) = [] ∧
          Place entries t [] unread) ∨
        ∃ c rest, found = some (.ok c) ∧ Place entries t rest unread ∧
          held.filterMap (StoredEntry.offered s.matcher) =
            c :: rest.filterMap (StoredEntry.offered s.matcher)) := by
  induction held generalizing s with
  | nil => exact ⟨_, _, rfl, ⟨rfl, rfl⟩, .inl ⟨rfl, rfl, rfl, hbeyond, hplain⟩⟩
  | cons e held ih =>
    obtain ⟨hpart, hchange⟩ := hplain e (by simp)
    have hrest : ∀ f ∈ held ++ unread, f.Plain := fun f hf => hplain f (List.mem_cons_of_mem _ hf)
    obtain ⟨c, hc⟩ : ∃ c, e.sent.change = .ok c := by
      cases h : e.sent.change with
      | ok c => exact ⟨c, rfl⟩
      | error f => simp [h, Except.isOk, Except.toBool] at hchange
    -- the number of the change says where the entry stands
    have hid : EntryId.after c.seq = e.id := by
      rw [StoredEntry.seq_of_change hc, EntryId.after, ← hpart]
    have hmoved : entries.beyond (.after c.seq) = held ++ unread := by
      rw [hid]
      exact Entries.beyond_id hasc hbeyond
    simp only [List.map_cons, StreamSubscription.drain, hc]
    by_cases haccept : s.matcher.accepts c.target = true
    · rw [if_pos haccept]
      have htake : StoredEntry.offered s.matcher e = some c :=
        StoredEntry.offered_eq_some.2 ⟨hc, haccept⟩
      exact ⟨_, _, rfl, ⟨rfl, rfl⟩, .inr ⟨c, held, rfl, ⟨rfl, hmoved, hrest⟩,
        List.filterMap_cons_some htake⟩⟩
    · rw [if_neg haccept]
      have hskip : StoredEntry.offered s.matcher e = none := by
        simp [StoredEntry.offered, hc, Except.toOption, haccept]
      rw [List.filterMap_cons_none hskip]
      exact @ih { s with cursor := c.seq } hmoved hrest

omit hasc in
/-- A read is answered with nothing only at the end of the stream; else the reader holds the next
few entries. -/
theorem onReply_spec {s : StreamSubscription} {unread : Entries} {reply : Reply}
    (hplace : Place entries s [] unread)
    (hanswer : Answers s.stream entries (s.stream.readCommand s.cursor) reply) :
    (unread = [] ∧ s.onReply reply = (s, some (.ok (some .heartbeat)))) ∨
      ∃ t held rest, s.onReply reply = (t, none) ∧ SameReader s t ∧ Place entries t held rest ∧
        held ++ rest = unread ∧ held ≠ [] := by
  obtain ⟨seq, n, hasked, -, hsome, hreply⟩ := hanswer
  rw [← readCommand_inj hasked, hplace.beyond, List.nil_append] at hsome hreply
  rw [StreamSubscription.onReply, hreply]
  by_cases hend : unread = []
  · exact .inl ⟨hend, by simp [hend]⟩
  · have hheld : unread.take n ≠ [] := by
      simp [hend, Nat.pos_iff_ne_zero.1 (hsome hend)]
    refine .inr ⟨{ s with buffer := (unread.take n).map StoredEntry.sent }, unread.take n,
      unread.drop n, ?_, ⟨rfl, rfl⟩, ⟨rfl, ?_, ?_⟩, List.take_append_drop n unread, hheld⟩
    · cases hmap : (unread.take n).map StoredEntry.sent with
      | nil => exact absurd (List.map_eq_nil_iff.1 hmap) hheld
      | cons e es => simp [hplace.buffer]
    · rw [List.take_append_drop]
      exact hplace.beyond
    · rw [List.take_append_drop]
      exact hplace.plain

/-- A call that was given an answer to each of its reads: it hands out the next change in scope,
and if there is none it says so at the end of the stream. -/
theorem next_spec {s t : StreamSubscription} {held unread : Entries} {replies : List Reply}
    {asked : List Command} {answer : FeedAnswer} (hplace : Place entries s held unread)
    (hnext : s.next replies = (t, asked, answer))
    (hserved : List.Forall₂ (Answers s.stream entries) asked replies) :
    SameReader s t ∧ ∃ held' unread', Place entries t held' unread' ∧
      ((answer = .ok (some .heartbeat) ∧ held' ++ unread' = [] ∧
          (held ++ unread).filterMap (StoredEntry.offered s.matcher) = []) ∨
        ∃ c, answer = .ok (some (.event c)) ∧
          (held ++ unread).filterMap (StoredEntry.offered s.matcher) =
            c :: (held' ++ unread').filterMap (StoredEntry.offered s.matcher)) := by
  induction replies generalizing s held unread asked with
  | nil =>
    obtain ⟨u, found, hdrain, hsame, hcases⟩ := drain_spec hasc hplace.beyond hplace.plain
    rw [← hplace.buffer] at hdrain
    rcases hcases with ⟨rfl, -, -⟩ | ⟨c, rest, rfl, hu, hoffered⟩
    · -- a read is left without an answer
      rw [StreamSubscription.next, hdrain] at hnext
      cases hnext
      cases hserved
    · rw [StreamSubscription.next_of_found [] hdrain] at hnext
      cases hnext
      refine ⟨hsame, rest, unread, hu, .inr ⟨c, rfl, ?_⟩⟩
      rw [List.filterMap_append, hoffered, List.filterMap_append, List.cons_append]
  | cons reply replies ih =>
    obtain ⟨u, found, hdrain, hsame, hcases⟩ := drain_spec hasc hplace.beyond hplace.plain
    rw [← hplace.buffer] at hdrain
    rcases hcases with ⟨rfl, hnone, hu⟩ | ⟨c, rest, rfl, -, -⟩
    · obtain ⟨more, rfl⟩ := StreamSubscription.asked_of_drain hdrain hnext
      obtain ⟨hreply, hmore⟩ := List.forall₂_cons.1 hserved
      rw [← hsame.1] at hreply hmore
      rw [List.filterMap_append, hnone, List.nil_append]
      rcases onReply_spec hu hreply with ⟨rfl, hon⟩ | ⟨w, held', rest, hon, hw, hread, rfl, -⟩
      · rw [StreamSubscription.next_of_idle _ hdrain hon] at hnext
        cases hnext
        exact ⟨hsame, [], [], hu, .inl ⟨rfl, rfl, rfl⟩⟩
      · -- the call goes on with what was read
        rw [StreamSubscription.next_of_read _ hdrain hon] at hnext
        cases hnext
        rw [← hw.1] at hmore
        obtain ⟨hlast, hrest⟩ := ih hread rfl hmore
        rw [hw.2, hsame.2] at hrest
        exact ⟨(hsame.trans hw).trans hlast, hrest⟩
    · rw [StreamSubscription.next_of_found _ hdrain] at hnext
      cases hnext
      cases hserved

/-- A reply of a server that answers every read of a stream. -/
def Serves (stream : ChangeStream) (serve : UInt64 → Reply) (asked : Command) (reply : Reply) :
    Prop :=
  ∃ seq, asked = stream.readCommand seq ∧ reply = serve seq

/-- Whatever the server, a call returns: each read gets it at least one entry further, so it sends
at most as many as there are entries that it has not read, and one. -/
theorem next_returns {s : StreamSubscription} {held unread : Entries} {serve : UInt64 → Reply}
    (hserve : ∀ seq, Answers s.stream entries (s.stream.readCommand seq) (serve seq))
    (hplace : Place entries s held unread) :
    ∃ replies, List.Forall₂ (Serves s.stream serve) (s.next replies).2.1 replies ∧
      replies.length ≤ unread.length + 1 := by
  induction hlen : unread.length using Nat.strongRecOn generalizing s held unread with
  | ind n ih =>
    obtain ⟨u, found, hdrain, hsame, hcases⟩ := drain_spec hasc hplace.beyond hplace.plain
    rw [← hplace.buffer] at hdrain
    rcases hcases with ⟨rfl, -, hu⟩ | ⟨c, rest, rfl, -, -⟩
    · have hread : Serves s.stream serve (u.stream.readCommand u.cursor) (serve u.cursor) :=
        ⟨u.cursor, by rw [hsame.1], rfl⟩
      have hreply := hserve u.cursor
      rw [← hsame.1] at hreply
      rcases onReply_spec hu hreply with ⟨-, hon⟩ | ⟨w, held', rest, hon, hw, hplacew, rfl, hne⟩
      · refine ⟨[serve u.cursor], ?_, by simp⟩
        rw [StreamSubscription.next_of_idle [] hdrain hon]
        exact .cons hread .nil
      · have hpos := List.length_pos_iff.2 hne
        rw [List.length_append] at hlen
        have hwstream : w.stream = s.stream := hw.1.trans hsame.1
        obtain ⟨replies, hreplies, hbound⟩ := ih rest.length (by omega) (hwstream ▸ hserve) hplacew
          rfl
        rw [hwstream] at hreplies
        refine ⟨serve u.cursor :: replies, ?_, by rw [List.length_cons]; omega⟩
        rw [StreamSubscription.next_of_read _ hdrain hon]
        exact .cons hread hreplies
    · refine ⟨[], ?_, by simp⟩
      rw [StreamSubscription.next_of_found [] hdrain]
      exact .nil

end Reading

/-! ## Many calls -/

/-- What a number of calls are to answer: the changes that are due, and then signs of life. -/
def heard (due : List Change) (n : Nat) : List FeedAnswer :=
  (due.take n).map (fun c => .ok (some (.event c))) ++
    List.replicate (n - due.length) (.ok (some .heartbeat))

theorem heard_cons (c : Change) (due : List Change) (n : Nat) :
    heard (c :: due) (n + 1) = .ok (some (.event c)) :: heard due n := by
  simp [heard]

theorem heard_nil (n : Nat) : heard [] (n + 1) = .ok (some .heartbeat) :: heard [] n := by
  simp [heard, List.replicate_succ]

/-- What calls answer is what was due, in order, and once they say that nothing is left they stand
at the end. -/
theorem calls_spec {entries : Entries} (hasc : entries.Ascending) {s t : StreamSubscription}
    {answers : List FeedAnswer} {held unread : Entries} (hcalls : Calls entries s answers t)
    (hplace : Place entries s held unread) :
    SameReader s t ∧ ∃ held' unread', Place entries t held' unread' ∧
      answers = heard ((held ++ unread).filterMap (StoredEntry.offered s.matcher))
        answers.length ∧
      (((held ++ unread).filterMap (StoredEntry.offered s.matcher)).length < answers.length ∨
        held ++ unread = [] → held' ++ unread' = []) := by
  induction hcalls generalizing held unread with
  | done s => exact ⟨⟨rfl, rfl⟩, held, unread, hplace, by simp [heard], by simp⟩
  | call hnext hserved _ ih =>
    obtain ⟨hsame, mid, rest, hmid, hcases⟩ := next_spec hasc hplace hnext hserved
    obtain ⟨hlast, held', unread', ht, hanswers, hend⟩ := ih hmid
    rw [hsame.2] at hanswers hend
    refine ⟨hsame.trans hlast, held', unread', ht, ?_⟩
    rw [List.length_cons]
    rcases hcases with ⟨rfl, hempty, hdue⟩ | ⟨c, rfl, hdue⟩
    · refine ⟨?_, fun _ => hend (.inr hempty)⟩
      rw [hempty, List.filterMap_nil] at hanswers
      rw [hdue, heard_nil, ← hanswers]
    · refine ⟨by rw [hdue, heard_cons, ← hanswers], ?_⟩
      rintro (hlt | hnil)
      · rw [hdue, List.length_cons] at hlt
        exact hend (.inl (Nat.lt_of_succ_lt_succ hlt))
      · rw [hnil] at hdue
        cases hdue

/-- The changes that are due come in ascending order. -/
theorem Entries.due_ascending {entries : Entries} (hasc : entries.Ascending) {seq : UInt64}
    (hpart : ∀ e ∈ entries.beyond (.after seq), e.id.part = 0) (m : Matcher) :
    (entries.due m seq).Pairwise fun c d => c.seq < d.seq := by
  have hseq : ∀ {e : StoredEntry} {c : Change}, e.offered m = some c → c.seq = e.id.number := by
    intro e c h
    exact StoredEntry.seq_of_change (StoredEntry.offered_eq_some.1 h).1
  have hnumbers : (entries.beyond (.after seq)).Pairwise fun e f => e.id.number < f.id.number := by
    refine List.Pairwise.imp_of_mem ?_ (hasc.filter _)
    intro e f he hf hlt
    rcases hlt with hlt | ⟨-, hlt⟩
    · exact hlt
    · rw [hpart e he, hpart f hf] at hlt
      exact absurd hlt (by decide)
  rw [due, List.pairwise_filterMap]
  refine hnumbers.imp ?_
  intro e f hlt c hc d hd
  rw [hseq hc, hseq hd]
  exact hlt

/-- Reading a stream whose entries beyond the first place have no second part, and no faults: the
calls answer each change that the query asks for once, in ascending order, and nothing but signs
of life afterwards; the first of those comes where no entry is left; and whatever the server, the
next call returns after at most as many reads as there are entries left, and one. -/
theorem calls_answer_due {entries : Entries} (hasc : entries.Ascending)
    (hok : ∀ e ∈ entries, e.sent.change.isOk) {seq : UInt64}
    (hpart : ∀ e ∈ entries.beyond (.after seq), e.id.part = 0) (stream : ChangeStream)
    (m : Matcher) {answers : List FeedAnswer} {t : StreamSubscription}
    (hcalls : Calls entries { stream, matcher := m, cursor := seq } answers t) :
    answers = heard (entries.due m seq) answers.length ∧
      ((entries.due m seq).Pairwise fun c d => c.seq < d.seq) ∧
      ((entries.due m seq).length < answers.length → entries.beyond (.after t.cursor) = []) ∧
      ∀ serve, (∀ seq, Answers stream entries (stream.readCommand seq) (serve seq)) →
        ∃ replies, List.Forall₂ (Serves stream serve) (t.next replies).2.1 replies ∧
          replies.length ≤ (entries.beyond (.after t.cursor)).length + 1 := by
  have hfirst : Place entries { stream, matcher := m, cursor := seq } []
      (entries.beyond (.after seq)) :=
    ⟨rfl, rfl, fun e he => ⟨hpart e he, hok e (List.mem_filter.1 he).1⟩⟩
  obtain ⟨hsame, held, unread, ht, hanswers, hend⟩ := calls_spec hasc hcalls hfirst
  have hstream : t.stream = stream := hsame.1
  refine ⟨hanswers, Entries.due_ascending hasc hpart m, ?_, ?_⟩
  · intro hlt
    rw [ht.beyond]
    exact hend (.inl hlt)
  · intro serve hserve
    rw [← hstream] at hserve ⊢
    obtain ⟨replies, hreplies, hbound⟩ := next_returns hasc hserve ht
    rw [ht.beyond, List.length_append]
    exact ⟨replies, hreplies, by omega⟩

/-! ## A server that answers -/

/-- An entry as a server lists it. -/
def StoredEntry.listed (e : StoredEntry) : Reply :=
  .array [.bulk (Text.encodeUtf8 e.id.text),
    .array (e.fields.flatMap fun p => [.bulk (Text.encodeUtf8 p.1), p.2])]

/-- A reply that lists entries. -/
def listing (key : String) (entries : Entries) : Reply :=
  .array [.array [.bulk (Text.encodeUtf8 key), .array (entries.map StoredEntry.listed)]]

theorem text?_bulk (s : String) : (Reply.bulk (Text.encodeUtf8 s)).text? = some s := by
  rw [Reply.text?, Redis.bulkText?, Text.decodeUtf8_encodeUtf8]

theorem mapM_eq_some {α β : Type} {f : α → Option β} {g : α → β} {l : List α}
    (h : ∀ x ∈ l, f x = some (g x)) : l.mapM f = some (l.map g) := by
  induction l with
  | nil => rfl
  | cons x l ih =>
    rw [List.mapM_cons, h x List.mem_cons_self, ih fun y hy => h y (List.mem_cons_of_mem _ hy)]
    rfl

/-- Fields listed as names and values in turn are read with the last of each name. -/
theorem fields?_flatMap (fields : List (String × Reply)) :
    (Reply.array (fields.flatMap fun p => [.bulk (Text.encodeUtf8 p.1), p.2])).fields? =
      some (Assoc.ofList fields) := by
  have hpairs : ∀ fields : List (String × Reply),
      Reply.pairUp? (fields.flatMap fun p => [.bulk (Text.encodeUtf8 p.1), p.2]) =
        some (fields.map fun p => (.bulk (Text.encodeUtf8 p.1), p.2)) := by
    intro fields
    induction fields with
    | nil => rfl
    | cons p fields ih =>
      simp only [List.flatMap_cons, List.cons_append, List.nil_append, Reply.pairUp?, ih,
        Option.map_some, List.map_cons]
  rw [Reply.fields?, Reply.pairs?, hpairs, Option.bind_some, List.mapM_map,
    mapM_eq_some (g := id) (fun p _ => by simp [text?_bulk]), Option.map_some, List.map_id]

/-- The fields that an entry is listed with are those that it is read with. -/
theorem fields?_listed {e : StoredEntry} (hfields : Assoc.ofList e.fields = e.fields) :
    (Reply.array (e.fields.flatMap fun p => [.bulk (Text.encodeUtf8 p.1), p.2])).fields? =
      some e.fields := by
  rw [fields?_flatMap, hfields]

/-- What a server lists is what a reader gets. -/
theorem entries?_listing (key : String) {entries : Entries}
    (hfields : ∀ e ∈ entries, Assoc.ofList e.fields = e.fields) :
    ChangeStream.entries? (listing key entries) = some (entries.map StoredEntry.sent) := by
  let row (e : StoredEntry) : Reply × Reply := (.bulk (Text.encodeUtf8 e.id.text),
    .array (e.fields.flatMap fun p => [.bulk (Text.encodeUtf8 p.1), p.2]))
  have hrows : (entries.map StoredEntry.listed).mapM Reply.pairs? =
      some (entries.map fun e => [row e]) := by
    rw [List.mapM_map]
    exact mapM_eq_some fun e _ => rfl
  have hflat : (entries.map fun e => [row e]).flatten = entries.map row := by
    rw [← List.flatMap_def, ← List.map_eq_flatMap]
  have hread : (entries.map row).mapM (fun e => (e.1.text?).bind fun id =>
      (e.2.fields?).bind fun fields => some ({ id, fields } : StreamEntry)) =
        some (entries.map StoredEntry.sent) := by
    rw [List.mapM_map]
    refine mapM_eq_some fun e he => ?_
    simp only [Function.comp, row, text?_bulk, fields?_listed (hfields e he), Option.bind_some]
    rfl
  simp only [ChangeStream.entries?, listing, Reply.items?, Reply.pairs?, Reply.pairUp?,
    List.mapM_cons, List.mapM_nil, Option.bind_eq_bind, Option.bind_some, Option.pure_def,
    Option.map_some, text?_bulk, List.flatten_cons, List.flatten_nil, List.append_nil, hrows,
    hflat, hread]

/-- A server that lists the next entries answers every read. -/
theorem listing_answers (stream : ChangeStream) (entries : Entries)
    (hfields : ∀ e ∈ entries, Assoc.ofList e.fields = e.fields) (seq : UInt64) :
    Answers stream entries (stream.readCommand seq)
      (listing stream.key ((entries.beyond (.after seq)).take stream.readCount)) := by
  refine ⟨seq, stream.readCount, rfl, Nat.le_refl _, fun _ => ?_, entries?_listing _ fun e he => ?_⟩
  · rw [ChangeStream.readCount]
    split <;> omega
  · exact hfields e (List.mem_filter.1 (List.mem_of_mem_take he)).1

/-- A read that gets one entry in scope hands it out and goes on after its number. -/
theorem next_listing {s : StreamSubscription} {e : StoredEntry} {c : Change}
    (hbuffer : s.buffer = []) (hoffered : e.offered s.matcher = some c)
    (hfields : Assoc.ofList e.fields = e.fields) :
    s.next [listing s.stream.key [e]] =
      ({ s with cursor := c.seq, buffer := [] }, [s.stream.readCommand s.cursor],
        .ok (some (.event c))) := by
  obtain ⟨hchange, hscope⟩ := StoredEntry.offered_eq_some.1 hoffered
  have hdrain : s.drain s.buffer = ({ s with buffer := [] }, none) := by
    rw [hbuffer, StreamSubscription.drain]
  have hread : StreamSubscription.onReply { s with buffer := [] } (listing s.stream.key [e]) =
      ({ s with buffer := [e.sent] }, none) := by
    rw [StreamSubscription.onReply, entries?_listing _ (by simpa using hfields)]
    rfl
  have hfound : StreamSubscription.drain { s with buffer := [e.sent] } [e.sent] =
      ({ s with cursor := c.seq, buffer := [] }, some (.ok c)) := by
    rw [StreamSubscription.drain, hchange]
    dsimp only
    rw [if_pos hscope]
  rw [StreamSubscription.next_of_read _ hdrain hread,
    StreamSubscription.next_of_found (s := { s with buffer := [e.sent] }) [] hfound]

/-- An entry that adds a person, under an ID. -/
def addedUnder (id : EntryId) : StoredEntry where
  id
  fields := [
    ("changes", .bulk (Text.encodeUtf8 "\x7b\"cn\":[\"a\"]\x7d")),
    ("controls", .bulk (Text.encodeUtf8
      ("[\x7b\"type\":\"2.16.840.1.113730.3.4.7\",\"value\":" ++
        "\x7b\"changeType\":1,\"changeNumber\":" ++ toString id.number ++ "\x7d\x7d]"))),
    ("dn", .bulk (Text.encodeUtf8 "cn=a,dc=x"))]

theorem ofList_addedUnder (id : EntryId) :
    Assoc.ofList (addedUnder id).fields = (addedUnder id).fields := by
  have hkeys : ((addedUnder id).fields.map Prod.fst).Pairwise fun j k => k ≠ j ∧ ¬ k < j := by
    change ["changes", "controls", "dn"].Pairwise _
    decide
  exact Assoc.ofList_of_ascending (List.pairwise_map.1 hkeys)

/-- Two entries read one at a time. -/
theorem calls_answer_due_two_entries :
    let entries := [addedUnder ⟨4, 0⟩, addedUnder ⟨5, 0⟩]
    let m : Matcher := ⟨"dc=x", .sub⟩
    let stream : ChangeStream := ⟨"s", ⟨5000000000⟩, 1⟩
    ∃ c d t, Calls entries { stream, matcher := m, cursor := 0 }
        [.ok (some (.event c)), .ok (some (.event d)), .ok (some .heartbeat)] t ∧
      [.ok (some (.event c)), .ok (some (.event d)), .ok (some .heartbeat)] =
        heard (Entries.due entries m 0) 3 ∧
      Entries.beyond entries (.after t.cursor) = [] := by
  intro entries m stream
  obtain ⟨c, hc⟩ : ∃ c, (addedUnder ⟨4, 0⟩).offered m = some c :=
    Option.isSome_iff_exists.1 (by decide +kernel)
  obtain ⟨d, hd⟩ : ∃ d, (addedUnder ⟨5, 0⟩).offered m = some d :=
    Option.isSome_iff_exists.1 (by decide +kernel)
  have hcchange := (StoredEntry.offered_eq_some.1 hc).1
  have hdchange := (StoredEntry.offered_eq_some.1 hd).1
  have hcseq : c.seq = 4 := StoredEntry.seq_of_change hcchange
  have hdseq : d.seq = 5 := StoredEntry.seq_of_change hdchange
  have hserve := listing_answers stream entries (by simp [entries, ofList_addedUnder])
  let start : StreamSubscription := { stream, matcher := m, cursor := 0 }
  have hidle : StreamSubscription.next { start with cursor := d.seq } [listing "s" []] =
      ({ start with cursor := d.seq }, [stream.readCommand d.seq], .ok (some .heartbeat)) :=
    StreamSubscription.next_of_idle (t := { start with cursor := d.seq }) [] rfl (by
      rw [StreamSubscription.onReply, entries?_listing _ (by simp)]
      rfl)
  have hcalls : Calls entries start
      [.ok (some (.event c)), .ok (some (.event d)), .ok (some .heartbeat)]
      { start with cursor := d.seq } := by
    refine .call (next_listing (s := start) rfl hc (ofList_addedUnder _)) (.cons (hserve 0) .nil) ?_
    refine .call (next_listing (s := { start with cursor := c.seq }) rfl hd (ofList_addedUnder _))
      (.cons ?_ .nil) (.call hidle (.cons ?_ .nil) (.done _))
    · rw [hcseq]
      exact hserve 4
    · rw [hdseq]
      exact hserve 5
  have hasc : Entries.Ascending entries := by
    simp [entries, Entries.Ascending, addedUnder, EntryId.lt_def]
  have hok : ∀ e ∈ entries, e.sent.change.isOk := by
    simp [entries, hcchange, hdchange, Except.isOk, Except.toBool]
  have hpart : ∀ e ∈ Entries.beyond entries (.after 0), e.id.part = 0 := by
    intro e he
    have hmem := (List.mem_filter.1 he).1
    simp only [entries, List.mem_cons, List.not_mem_nil, or_false] at hmem
    rcases hmem with rfl | rfl <;> rfl
  obtain ⟨hheard, -, hend, -⟩ := calls_answer_due hasc hok hpart stream m hcalls
  refine ⟨c, d, _, hcalls, hheard, hend ?_⟩
  have hbeyond : Entries.beyond entries (.after 0) = entries := by
    simp [Entries.beyond, entries, addedUnder, EntryId.after, EntryId.lt_def]
  have hdue : Entries.due entries m 0 = [c, d] := by
    rw [Entries.due, hbeyond]
    simp [entries, hc, hd]
  simp [hdue]

/-! ## IDs with a second part -/

/-- An entry with a second part that comes last is handed out as often as is asked. -/
theorem last_handed_out_again {e : StoredEntry} {c : Change} (stream : ChangeStream) {m : Matcher}
    (hpart : 0 < e.id.part) (hoffered : e.offered m = some c)
    (hfields : Assoc.ofList e.fields = e.fields) (n : Nat) {seq : UInt64}
    (hseq : EntryId.after seq < e.id) :
    ∃ t, Calls [e] { stream, matcher := m, cursor := seq }
      (List.replicate n (.ok (some (.event c)))) t := by
  induction n generalizing seq with
  | zero => exact ⟨_, .done _⟩
  | succ n ih =>
    -- the number of the entry is a place before it
    have hagain : EntryId.after c.seq < e.id := by
      rw [StoredEntry.seq_of_change (StoredEntry.offered_eq_some.1 hoffered).1]
      exact .inr ⟨rfl, hpart⟩
    obtain ⟨t, ht⟩ := ih hagain
    have hbeyond : Entries.beyond [e] (.after seq) = [e] := by
      simp [Entries.beyond, hseq]
    have hanswer := listing_answers stream [e] (by simpa using hfields) seq
    rw [hbeyond, List.take_of_length_le] at hanswer
    · exact ⟨t, .call (next_listing rfl hoffered hfields) (.cons hanswer .nil) ht⟩
    · rw [ChangeStream.readCount, List.length_singleton]
      split <;> omega

/-- A stream of a single entry that has a second part: it is handed out a second time where a sign
of life is due. -/
theorem second_part_handed_out_twice :
    let e := addedUnder ⟨5, 1⟩
    let m : Matcher := ⟨"dc=x", .sub⟩
    let stream : ChangeStream := ⟨"s", ⟨5000000000⟩, 10⟩
    Entries.Ascending [e] ∧ (∀ f ∈ [e], f.sent.change.isOk) ∧
      ∃ c t, Entries.due [e] m 0 = [c] ∧
        Calls [e] { stream, matcher := m, cursor := 0 }
          [.ok (some (.event c)), .ok (some (.event c))] t ∧
        [.ok (some (.event c)), .ok (some (.event c))] ≠ heard (Entries.due [e] m 0) 2 := by
  intro e m stream
  obtain ⟨c, hc⟩ : ∃ c, e.offered m = some c := Option.isSome_iff_exists.1 (by decide +kernel)
  have hseq : EntryId.after 0 < e.id := by decide
  have hdue : Entries.due [e] m 0 = [c] := by
    simp [Entries.due, Entries.beyond, hseq, hc]
  have hok : e.sent.change.isOk := by
    rw [(StoredEntry.offered_eq_some.1 hc).1]
    rfl
  obtain ⟨t, ht⟩ := last_handed_out_again stream (by decide) hc
    (ofList_addedUnder _) 2 hseq
  refine ⟨List.pairwise_singleton _ _, by simpa using hok, c, t, hdue, ht, ?_⟩
  rw [hdue]
  simp [heard]

end ChangeRelay.Feed
