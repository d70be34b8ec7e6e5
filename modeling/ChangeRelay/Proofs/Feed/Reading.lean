import ChangeRelay.Feed.Reading
import ChangeRelay.Proofs.Feed.Log
import Mathlib.Data.List.Induction
import Mathlib.Logic.Function.Basic

/-!
# Reads that are given up

Readers of one log, each read of which may stop at every one of its points, while others publish,
read and give up. What a reader was handed out is at every moment a beginning of what its query
asks for beyond its start position, and a read that sleeps without having been woken has nothing to
hand out.
-/

namespace ChangeRelay.Feed

/-! ## What lies ahead -/

/-- Of what lies beyond a position, what lies beyond a later one is all that does. -/
theorem filter_beyond {α : Type} (place : α → UInt64) {lo hi : UInt64} (h : lo < hi) (l : List α) :
    (l.filter fun x => lo < place x).filter (fun x => hi < place x) =
      l.filter fun x => hi < place x := by
  rw [List.filter_filter]
  apply List.filter_congr
  intro x _
  by_cases hx : hi < place x
  · simp [hx, UInt64.lt_trans h hx]
  · simp [hx]

/-- The changes that a query asks for beyond a position. -/
def Log.ahead (log : Log) (q : Query) (position : UInt64) : List Change :=
  (log.inScope q).filter fun c => position < c.seq

namespace Log

variable {log log' : Log} {q : Query} {c : Change} {position : UInt64}

theorem inScope_append (q : Query) (log log' : Log) :
    Log.inScope q (log ++ log') = log.inScope q ++ log'.inScope q := by
  simp [inScope, changes]

theorem ahead_append (q : Query) (position : UInt64) (log log' : Log) :
    Log.ahead (log ++ log') q position = log.ahead q position ++ log'.ahead q position := by
  simp [ahead, inScope_append]

theorem ahead_eq_nil (h : ∀ p ∈ log, ¬ position < p.1) : log.ahead q position = [] := by
  unfold ahead
  rw [List.filter_eq_nil_iff]
  intro c hc hlt
  obtain ⟨p, hp, heq⟩ := exists_of_mem_inScope hc
  exact h p hp (heq ▸ of_decide_eq_true hlt)

/-- Positions with no entry between them have the same changes ahead. -/
theorem ahead_congr {lo hi : UInt64} (h : ∀ p ∈ log, lo < p.1 ↔ hi < p.1) :
    log.ahead q lo = log.ahead q hi := by
  unfold ahead
  apply List.filter_congr
  intro c hc
  obtain ⟨p, hp, heq⟩ := exists_of_mem_inScope hc
  have := h p hp
  rw [heq] at this
  exact decide_eq_decide.2 this

theorem Ascending.ahead (h : log.Ascending) (q : Query) (position : UInt64) :
    (log.ahead q position).Pairwise fun a b => a.seq < b.seq := (h.inScope q).filter _

/-- Behind the first change ahead lie the changes ahead of it. -/
theorem Ascending.ahead_tail (h : log.Ascending) {rest : List Change}
    (hahead : log.ahead q position = c :: rest) : rest = log.ahead q c.seq := by
  have hasc := h.ahead q position
  rw [hahead, List.pairwise_cons] at hasc
  have hpos : position < c.seq := by
    have hmem : c ∈ log.ahead q position := by rw [hahead]; exact List.mem_cons_self
    exact of_decide_eq_true (List.mem_filter.1 hmem).2
  -- what lies ahead of the change is what lies ahead of the position and of the change
  have hboth : log.ahead q c.seq = (log.ahead q position).filter fun x => c.seq < x.seq :=
    (filter_beyond Change.seq hpos _).symm
  rw [hboth, hahead, List.filter_cons_of_neg (by simp), List.filter_eq_self.2]
  intro x hx
  exact decide_eq_true (hasc.1 x hx)

end Log

/-- What lies ahead begins with the change of the first entry beyond the position, if the query
asks for it. -/
theorem Memory.ahead_of_beyond? {f : Memory} {q : Query} {position seq : UInt64} {entry : LogEntry}
    {c : Change} (hasc : Log.Ascending f.entries) (h : f.beyond? position = some (seq, entry))
    (hok : entry.change seq = .ok c) :
    Log.ahead f.entries q position =
      (if q.selects c then [c] else []) ++ Log.ahead f.entries q seq := by
  obtain ⟨hlt, before, behind, hsplit, hbefore⟩ := List.find?_eq_some_iff_append.1 h
  have hlt : position < seq := of_decide_eq_true hlt
  have hbefore : ∀ p ∈ before, ¬ position < p.1 := by
    intro p hp
    simpa using hbefore p hp
  rw [hsplit, Log.Ascending, List.pairwise_append, List.pairwise_cons] at hasc
  obtain ⟨-, ⟨hbehind, -⟩, -⟩ := hasc
  have hseq : c.seq = seq := seq_of_change hok
  -- the entries before lie behind both positions, those that follow lie ahead of both
  have hone : Log.ahead [(seq, entry)] q position = if q.selects c then [c] else [] := by
    unfold Log.ahead
    rw [Log.inScope_cons_of_ok hok]
    split <;> simp [Log.inScope, Log.changes, hseq, hlt]
  have hnone : Log.ahead [(seq, entry)] q seq = [] := by
    apply Log.ahead_eq_nil
    intro p hp
    rw [List.mem_singleton.1 hp]
    exact UInt64.lt_irrefl seq
  have hrest : Log.ahead behind q position = Log.ahead behind q seq := by
    apply Log.ahead_congr
    intro p hp
    have hp : seq < p.1 := hbehind p hp
    exact ⟨fun _ => hp, fun _ => UInt64.lt_trans hlt hp⟩
  have hfirst : Log.ahead before q seq = [] := by
    apply Log.ahead_eq_nil
    intro p hp hlt'
    exact hbefore p hp (UInt64.lt_trans hlt hlt')
  rw [hsplit, List.append_cons, Log.ahead_append, Log.ahead_append, Log.ahead_append,
    Log.ahead_append, Log.ahead_eq_nil hbefore, hone, hnone, hfirst, hrest]
  simp

theorem Memory.ahead_of_beyond?_none {f : Memory} {q : Query} {position : UInt64}
    (h : f.beyond? position = none) : Log.ahead f.entries q position = [] := by
  apply Log.ahead_eq_nil
  intro p hp
  simpa using List.find?_eq_none.1 h p hp

/-! ## Reads that nobody disturbs -/

namespace Subscription

/-- Lets a read go on undisturbed, for so many steps at most. -/
def goOn (s : Subscription) (f : Memory) (step : ReadStep) :
    Nat → Memory × Subscription × ReadStep
  | 0 => (f, s, step)
  | fuel + 1 =>
    match step with
    | .returns answer => (f, s, .returns answer)
    | .goesOn read =>
      match s.resume f read with
      | some (f, s, step) => goOn s f step fuel
      | none => (f, s, .goesOn read)

/-- Where a read comes to that goes through the entries beyond its cursor in one go. -/
def outcome (f : Memory) : Subscription × Finding → Memory × Subscription × ReadStep
  | (s, .fault e) => (f, s, .returns (.error e))
  | (s, .found c) =>
    let (f, s) := s.deliver f c
    (f, s, .returns (.ok (some (.event c))))
  | (s, .nothing) =>
    (f, s, if f.closed then .returns (.ok none) else .goesOn ⟨.news f.heartbeat, false⟩)

theorem goOn_scan {f : Memory} (hasc : Log.Ascending f.entries) {s : Subscription} {log : Log}
    (hkept : s.remaining ≠ some 0) (hlog : f.entries.filter (fun p => s.cursor < p.1) = log) :
    ∃ n, s.goOn f (.goesOn {}) n = outcome f (s.scan log) := by
  induction log generalizing s with
  | nil =>
      have hbeyond : f.beyond? s.cursor = none := by
        rw [Memory.beyond?, ← List.head?_filter, hlog]
        rfl
      refine ⟨3, ?_⟩
      by_cases hclosed : f.closed = true
      · simp [goOn, resume, inspect, hbeyond, hclosed, outcome, scan]
      · simp [goOn, resume, inspect, hbeyond, hclosed, outcome, scan]
  | cons p rest ih =>
      obtain ⟨seq, entry⟩ := p
      have hbeyond : f.beyond? s.cursor = some (seq, entry) := by
        rw [Memory.beyond?, ← List.head?_filter, hlog]
        rfl
      cases hchange : entry.change seq with
      | error e =>
          refine ⟨1, ?_⟩
          simp [goOn, resume, inspect, hbeyond, hchange, outcome, scan]
      | ok c =>
          by_cases haccepts : s.matcher.accepts c.target = true
          · refine ⟨2, ?_⟩
            simp [goOn, resume, inspect, hbeyond, hchange, haccepts, outcome, scan]
          · -- an entry out of scope is passed, and the read sets out again
            have hlt : s.cursor < seq := by
              have hmem : (seq, entry) ∈ f.entries.filter fun p => s.cursor < p.1 := by
                rw [hlog]
                exact List.mem_cons_self
              exact of_decide_eq_true (List.mem_filter.1 hmem).2
            have hrest : f.entries.filter (fun p => seq < p.1) = rest := by
              have hfirst := hasc.filter fun p => s.cursor < p.1
              rw [hlog, List.pairwise_cons] at hfirst
              rw [← filter_beyond Prod.fst hlt, hlog, List.filter_cons_of_neg (by simp),
                List.filter_eq_self.2]
              intro p hp
              exact decide_eq_true (hfirst.1 p hp)
            obtain ⟨n, hn⟩ := ih (s := { s with cursor := seq }) hkept hrest
            refine ⟨n + 1, ?_⟩
            simp [goOn, resume, inspect, hbeyond, hchange, haccepts, setOut, hkept, scan, hn]

/-- A read that nobody disturbs answers as polling the subscription does, or waits for news. -/
theorem goOn_setOut (s : Subscription) {f : Memory} (hasc : Log.Ascending f.entries) :
    ∃ n, s.goOn f s.setOut n = match s.poll f with
      | (f, s, some answer) => (f, s, .returns answer)
      | (f, s, none) => (f, s, .goesOn ⟨.news f.heartbeat, false⟩) := by
  have hpoll : outcome f (s.look f) = match s.poll f with
      | (f, s, some answer) => (f, s, .returns answer)
      | (f, s, none) => (f, s, .goesOn ⟨.news f.heartbeat, false⟩) := by
    unfold poll outcome
    cases hlook : s.look f with
    | mk s' finding =>
        cases finding with
        | found c => rfl
        | fault e => rfl
        | nothing => by_cases hclosed : f.closed = true <;> simp [hclosed]
  rw [← hpoll, look]
  by_cases hkept : s.remaining = some 0
  · refine ⟨0, ?_⟩
    rw [if_pos hkept, goOn, setOut, if_pos hkept, outcome]
  · rw [if_neg hkept, setOut, if_neg hkept]
    exact goOn_scan hasc hkept rfl

end Subscription

/-! ## Readers -/

/-- The change that an answer hands out. -/
def handedBy : FeedAnswer → Option Change
  | .ok (some (.event c)) => some c
  | _ => none

/-- A reader of the log. -/
structure Reader where
  query : Query
  /-- Where its subscription began. -/
  after : UInt64
  sub : Subscription
  /-- The read under way. -/
  read : Option Read := none
  /-- What was next for it when that read began. -/
  awaited : Option Change := none
  /-- The reads that returned: what was next when each began, and its answer. -/
  returned : List (Option Change × FeedAnswer) := []

namespace Reader

/-- The changes that it was handed out, in order. -/
def handed (r : Reader) : List Change := r.returned.filterMap fun p => handedBy p.2

/-- All changes of a log that it is to be handed out. -/
def wanted (r : Reader) (log : Log) : List Change := log.ahead r.query r.after

/-- The change that it is to be handed out next. -/
def next? (r : Reader) (log : Log) : Option Change := (r.wanted log)[r.handed.length]?

/-- Takes a step of its read. -/
def take (r : Reader) (sub : Subscription) : ReadStep → Reader
  | .goesOn read => { r with sub, read := some read }
  | .returns answer =>
    { r with sub, read := none, returned := r.returned ++ [(r.awaited, answer)] }

/-- Begins a read. -/
def call (r : Reader) (log : Log) : Reader :=
  { r with awaited := r.next? log }.take r.sub r.sub.setOut

/-- Is told of news, if a read is under way. -/
def wake (r : Reader) : Reader :=
  { r with read := r.read.map fun read => { read with woken := true } }

end Reader

/-- A log with its readers. -/
structure Readership (ι : Type) where
  feed : Memory := {}
  reader : ι → Option Reader := fun _ => none
  /-- How many publications the readers were not told of yet. -/
  untold : Nat := 0

namespace Readership

/-- What can happen to a log with its readers. -/
inductive Event (ι : Type) where
  /-- An entry is put into the log. -/
  | publish (seq : UInt64) (entry : LogEntry)
  /-- The readers are told of a publication. -/
  | tell
  /-- The switches of the feed are set, other than the one that drops subscriptions. -/
  | switch (closed : Bool) (heartbeat : Option Duration) (failSubscribes : Nat)
  | subscribe (i : ι) (query : Query) (after : UInt64)
  /-- A reader begins a read. -/
  | call (i : ι)
  /-- A read goes one step on. -/
  | resume (i : ι)
  /-- The interval is over for which a read waits for news. -/
  | heartbeat (i : ι)
  /-- A read is given up, wherever it stands. -/
  | cancel (i : ι)

variable {ι : Type} [DecidableEq ι]

/-- Puts a reader in the place of what it was. -/
def set (s : Readership ι) (i : ι) (r : Reader) : Readership ι :=
  { s with reader := Function.update s.reader i (some r) }

/-- One event. What does not fit the reader that it is about changes nothing; nor does an entry that
is published out of order. -/
def step (s : Readership ι) : Event ι → Readership ι
  | .publish seq entry =>
    if ∀ p ∈ s.feed.entries, p.1 < seq then
      { s with feed := s.feed.publishRaw seq entry, untold := s.untold + 1 }
    else s
  | .tell => { s with reader := fun i => (s.reader i).map Reader.wake, untold := s.untold - 1 }
  | .switch closed heartbeat failSubscribes =>
    { s with feed := { s.feed with closed, heartbeat, failSubscribes } }
  | .subscribe i query after =>
    match s.reader i, s.feed.subscribe query after with
    | none, (feed, .ok sub) => { s with feed }.set i { query, after, sub }
    | none, (feed, .error _) => { s with feed }
    | some _, _ => s
  | .call i =>
    match s.reader i with
    | some r => if r.read = none then s.set i (r.call s.feed.entries) else s
    | none => s
  | .resume i =>
    match s.reader i with
    | some r =>
      match r.read.bind (r.sub.resume s.feed) with
      | some (feed, sub, step) => { s with feed }.set i (r.take sub step)
      | none => s
    | none => s
  | .heartbeat i =>
    match s.reader i with
    | some r =>
      match r.read.map Read.point with
      | some (.news (some _)) => s.set i (r.take r.sub (.returns (.ok (some .heartbeat))))
      | _ => s
    | none => s
  | .cancel i =>
    match s.reader i with
    | some r => s.set i { r with read := none }
    | none => s

/-- Events one after another. -/
def run (s : Readership ι) (events : List (Event ι)) : Readership ι := events.foldl step s

theorem run_append_singleton (s : Readership ι) (events : List (Event ι)) (e : Event ι) :
    s.run (events ++ [e]) = (s.run events).step e := by
  simp [run, List.foldl_append]

end Readership

/-! ## In step with the log -/

/-- Whether a read stands at a point to which it comes only if it finds nothing. -/
def ReadPoint.idle : ReadPoint → Bool
  | .log | .delivery _ => false
  | .drained | .interval | .news _ => true

/-- A read against what lies ahead of its reader. -/
structure Read.Sees (ahead : List Change) (awaited : Option Change) (told : Prop) (read : Read) :
    Prop where
  /-- What was next when the read began is next still. -/
  next : ∀ c, awaited = some c → ahead.head? = some c
  delivery : ∀ c, read.point = .delivery c → ahead.head? = some c
  /-- A read that found nothing sleeps until it is woken. -/
  idle : read.point.idle = true → awaited = none ∧ (read.woken = false → told → ahead = [])

/-- A reader against the log; `told` says that the readers know of every publication. -/
structure Reader.InStep (log : Log) (told : Prop) (r : Reader) : Prop where
  matcher : r.query.matcher = .ok r.sub.matcher
  kept : r.sub.remaining = none
  cursor : r.sub.cursor = r.after ∨ ∃ p ∈ log, r.after < p.1 ∧ r.sub.cursor = p.1
  /-- What is wanted is what was handed out and what lies ahead of the cursor. -/
  split : r.wanted log = r.handed ++ log.ahead r.query r.sub.cursor
  /-- A read returned what was next when it began. -/
  answers : ∀ c answer, (some c, answer) ∈ r.returned → answer = .ok (some (.event c))
  read : ∀ read, r.read = some read →
    read.Sees (log.ahead r.query r.sub.cursor) r.awaited told

theorem Read.Sees.mono {ahead more : List Change} {awaited : Option Change} {told told' : Prop}
    {read : Read} (h : read.Sees ahead awaited told) (hmono : told' → told ∧ more = []) :
    read.Sees (ahead ++ more) awaited told' where
  next c hc := by
    have := h.next c hc
    rw [List.head?_append, this]
    rfl
  delivery c hc := by
    have := h.delivery c hc
    rw [List.head?_append, this]
    rfl
  idle hidle := by
    obtain ⟨hnone, hnil⟩ := h.idle hidle
    refine ⟨hnone, ?_⟩
    intro hwoken htold
    obtain ⟨htold, rfl⟩ := hmono htold
    rw [hnil hwoken htold]
    rfl

/-- A read that has just set out waits for nothing that is not there. -/
theorem Read.sees_log {ahead : List Change} {awaited : Option Change} (told : Prop) (woken : Bool)
    (h : ∀ c, awaited = some c → ahead.head? = some c) :
    Read.Sees ahead awaited told ⟨.log, woken⟩ where
  next := h
  delivery := by
    intro c hc
    cases hc
  idle := by
    intro hidle
    cases hidle

namespace Reader.InStep

variable {log : Log} {told : Prop} {r : Reader}

theorem next?_eq (h : r.InStep log told) :
    r.next? log = (log.ahead r.query r.sub.cursor).head? := by
  unfold Reader.next?
  rw [h.split, List.getElem?_append_right (Nat.le_refl _), Nat.sub_self, List.head?_eq_getElem?]

theorem after_le (h : r.InStep log told) : r.after ≤ r.sub.cursor := by
  rcases h.cursor with heq | ⟨p, -, hlt, heq⟩
  · rw [heq]
    exact UInt64.le_refl _
  · rw [heq]
    exact UInt64.le_of_lt hlt

/-- What is published lies behind what is ahead already. -/
theorem publish (h : r.InStep log told) {p : UInt64 × LogEntry} (hlast : ∀ p' ∈ log, p'.1 < p.1) :
    r.InStep (log ++ [p]) False where
  matcher := h.matcher
  kept := h.kept
  cursor := by
    rcases h.cursor with heq | ⟨p', hp', hlt, heq⟩
    · exact .inl heq
    · exact .inr ⟨p', List.mem_append_left _ hp', hlt, heq⟩
  split := by
    -- the new entry lies ahead of the cursor if it lies ahead of the start position
    have hnew : Log.ahead [p] r.query r.after = Log.ahead [p] r.query r.sub.cursor := by
      apply Log.ahead_congr
      intro p' hp'
      rw [List.mem_singleton.1 hp']
      rcases h.cursor with heq | ⟨p'', hp'', hlt, heq⟩
      · rw [heq]
      · rw [heq]
        have hp : p''.1 < p.1 := hlast p'' hp''
        exact ⟨fun _ => hp, fun _ => UInt64.lt_trans hlt hp⟩
    have hsplit := h.split
    unfold Reader.wanted at hsplit ⊢
    rw [Log.ahead_append, Log.ahead_append, hsplit, hnew, List.append_assoc]
  answers := h.answers
  read read hread := by
    rw [Log.ahead_append]
    exact (h.read read hread).mono fun hfalse => hfalse.elim

theorem mono (h : r.InStep log told) {told' : Prop} (hmono : told' → told) : r.InStep log told' where
  matcher := h.matcher
  kept := h.kept
  cursor := h.cursor
  split := h.split
  answers := h.answers
  read read hread := by
    have hsees := h.read read hread
    refine ⟨hsees.next, hsees.delivery, ?_⟩
    intro hidle
    obtain ⟨hnone, hnil⟩ := hsees.idle hidle
    exact ⟨hnone, fun hwoken htold => hnil hwoken (hmono htold)⟩

/-- Whoever is told of news goes to look again. -/
theorem wake (h : r.InStep log told) (told' : Prop) : r.wake.InStep log told' where
  matcher := h.matcher
  kept := h.kept
  cursor := h.cursor
  split := h.split
  answers := h.answers
  read read hread := by
    obtain ⟨read₀, hread₀, rfl⟩ := Option.map_eq_some_iff.1 hread
    have hsees := h.read read₀ hread₀
    refine ⟨hsees.next, hsees.delivery, ?_⟩
    intro hidle
    exact ⟨(hsees.idle hidle).1, fun hwoken => nomatch hwoken⟩

theorem cancel (h : r.InStep log told) : { r with read := none }.InStep log told where
  matcher := h.matcher
  kept := h.kept
  cursor := h.cursor
  split := h.split
  answers := h.answers
  read := by
    intro read hread
    cases hread

/-- The subscription is not dropped, so that a read sets out to look at the log. -/
theorem setOut (h : r.InStep log told) : r.sub.setOut = .goesOn {} := by
  rw [Subscription.setOut, h.kept, if_neg nofun]

theorem call (h : r.InStep log told) : (r.call log).InStep log told := by
  unfold Reader.call
  rw [h.setOut]
  refine ⟨h.matcher, h.kept, h.cursor, h.split, h.answers, ?_⟩
  intro read hread
  cases hread
  apply Read.sees_log
  intro c hc
  exact h.next?_eq.symm.trans hc

/-- A read that found nothing returns without a change. -/
theorem returns (h : r.InStep log told) {read : Read} (hread : r.read = some read)
    (hidle : read.point.idle = true) {answer : FeedAnswer} (hnone : handedBy answer = none) :
    (r.take r.sub (.returns answer)).InStep log told where
  matcher := h.matcher
  kept := h.kept
  cursor := h.cursor
  split := by
    have hhanded : (r.take r.sub (.returns answer)).handed = r.handed := by
      simp [Reader.take, Reader.handed, List.filterMap_append, hnone]
    rw [hhanded]
    exact h.split
  answers c answer' hmem := by
    rcases List.mem_append.1 hmem with hmem | hmem
    · exact h.answers c answer' hmem
    · -- it waited for no change
      have hawaited := ((h.read read hread).idle hidle).1
      rw [List.mem_singleton, hawaited] at hmem
      cases hmem
  read := by
    intro read hread
    cases hread

/-- A read goes on from one point to another that it comes to only if it finds nothing. -/
theorem goesOn_idle (h : r.InStep log told) {read read' : Read} (hread : r.read = some read)
    (hidle : read.point.idle = true) (hidle' : read'.point.idle = true)
    (hwoken : read'.woken = read.woken) : (r.take r.sub (.goesOn read')).InStep log told where
  matcher := h.matcher
  kept := h.kept
  cursor := h.cursor
  split := h.split
  answers := h.answers
  read read'' hread'' := by
    cases hread''
    have hsees := h.read read hread
    refine ⟨hsees.next, ?_, ?_⟩
    · intro c hc
      rw [hc] at hidle'
      cases hidle'
    · intro _
      rw [hwoken]
      exact hsees.idle hidle

/-- A read hands out the change that it found, which the cursor then passes. -/
theorem deliver (h : r.InStep log told) (hasc : log.Ascending) {read : Read}
    (hread : r.read = some read) {c : Change} (hpoint : read.point = .delivery c) (f : Memory) :
    (r.take (r.sub.deliver f c).2 (.returns (.ok (some (.event c))))).InStep log told := by
  have hsees := h.read read hread
  obtain ⟨rest, hahead⟩ := List.head?_eq_some_iff.1 (hsees.delivery c hpoint)
  have hmem : c ∈ log.ahead r.query r.sub.cursor := by
    rw [hahead]
    exact List.mem_cons_self
  refine ⟨h.matcher, ?_, ?_, ?_, ?_, ?_⟩
  · rw [Reader.take, Subscription.deliver]
    exact congrArg (Option.map _) h.kept
  · -- the cursor comes to the change, which lies behind the start position
    obtain ⟨hscope, hlt⟩ := List.mem_filter.1 hmem
    obtain ⟨p, hp, heq⟩ := Log.exists_of_mem_inScope hscope
    refine .inr ⟨p, hp, ?_, heq.symm⟩
    rw [heq]
    exact UInt64.lt_of_le_of_lt h.after_le (of_decide_eq_true hlt)
  · have hhanded : (r.take (r.sub.deliver f c).2 (.returns (.ok (some (.event c))))).handed =
        r.handed ++ [c] := by
      simp [Reader.take, Reader.handed, List.filterMap_append, handedBy]
    have hsplit := h.split
    rw [hahead, hasc.ahead_tail hahead] at hsplit
    rw [hhanded, List.append_assoc]
    exact hsplit
  · intro c' answer hmem'
    rcases List.mem_append.1 hmem' with hmem' | hmem'
    · exact h.answers c' answer hmem'
    · -- it waited for the change that it found
      rw [List.mem_singleton, Prod.mk.injEq] at hmem'
      have hhead := hsees.next c' hmem'.1.symm
      rw [hsees.delivery c hpoint] at hhead
      cases hhead
      exact hmem'.2
  · intro read' hread'
    cases hread'

/-- A read looks at the first entry beyond the cursor. -/
theorem inspect {f : Memory} (h : r.InStep f.entries told) (hasc : Log.Ascending f.entries)
    (hwell : ∀ p ∈ f.entries, ∃ c, p.2.change p.1 = .ok c) {read : Read}
    (hread : r.read = some read) :
    (r.take (r.sub.inspect f read.woken).1 (r.sub.inspect f read.woken).2).InStep f.entries
      told := by
  have hsees := h.read read hread
  unfold Subscription.inspect
  cases hbeyond : f.beyond? r.sub.cursor with
  | none =>
      -- nothing is ahead, nor was there when the read began
      have hnil : Log.ahead f.entries r.query r.sub.cursor = [] :=
        Memory.ahead_of_beyond?_none hbeyond
      have hawaited : r.awaited = none := by
        cases ha : r.awaited with
        | none => rfl
        | some c =>
            have := hsees.next c ha
            rw [hnil] at this
            cases this
      refine ⟨h.matcher, h.kept, h.cursor, h.split, h.answers, ?_⟩
      intro read' hread'
      cases hread'
      refine ⟨hsees.next, ?_, ?_⟩
      · intro c hc
        cases hc
      · intro _
        exact ⟨hawaited, fun _ _ => hnil⟩
  | some p =>
      obtain ⟨seq, entry⟩ := p
      have hfind := List.mem_of_find?_eq_some hbeyond
      have hlt : r.sub.cursor < seq := by simpa using List.find?_some hbeyond
      obtain ⟨c, hok⟩ := hwell (seq, entry) hfind
      have hahead := Memory.ahead_of_beyond? (q := r.query) hasc hbeyond hok
      have hselects : r.query.selects c = r.sub.matcher.accepts c.target := by
        simp only [Query.selects, h.matcher]
      simp only [hok]
      split
      · -- the change is the first one ahead
        rename_i haccepts
        rw [hselects, if_pos haccepts] at hahead
        have hhead : (Log.ahead f.entries r.query r.sub.cursor).head? = some c := by
          rw [hahead]
          rfl
        refine ⟨h.matcher, h.kept, h.cursor, h.split, h.answers, ?_⟩
        intro read' hread'
        cases hread'
        refine ⟨hsees.next, ?_, ?_⟩
        · intro c' hc'
          cases hc'
          exact hhead
        · intro hidle
          cases hidle
      · -- nobody asks for the change, and the read sets out again
        rename_i haccepts
        rw [hselects, if_neg haccepts, List.nil_append] at hahead
        rw [h.setOut]
        refine ⟨h.matcher, h.kept, .inr ⟨_, hfind, ?_, rfl⟩, ?_, h.answers, ?_⟩
        · exact UInt64.lt_of_le_of_lt h.after_le hlt
        · have hsplit := h.split
          rw [hahead] at hsplit
          exact hsplit
        · intro read' hread'
          cases hread'
          apply Read.sees_log
          intro c' hc'
          have := hsees.next c' hc'
          rw [hahead] at this
          exact this

/-- A reader stays in step whatever its read does next. -/
theorem resume {f f' : Memory} (h : r.InStep f.entries told) (hasc : Log.Ascending f.entries)
    (hwell : ∀ p ∈ f.entries, ∃ c, p.2.change p.1 = .ok c) {read : Read}
    (hread : r.read = some read) {sub : Subscription} {step : ReadStep}
    (hstep : r.sub.resume f read = some (f', sub, step)) :
    (r.take sub step).InStep f.entries told := by
  unfold Subscription.resume at hstep
  cases hpoint : read.point with
  | log =>
      rw [hpoint] at hstep
      obtain ⟨-, heq⟩ := Prod.mk.inj (Option.some.inj hstep)
      obtain ⟨rfl, rfl⟩ := Prod.mk.inj heq
      exact h.inspect hasc hwell hread
  | delivery c =>
      rw [hpoint] at hstep
      cases hstep
      exact h.deliver hasc hread hpoint f
  | drained =>
      have hidle : read.point.idle = true := by rw [hpoint]; rfl
      rw [hpoint] at hstep
      cases hstep
      split
      · exact h.returns hread hidle rfl
      · exact h.goesOn_idle hread hidle rfl rfl
  | interval =>
      have hidle : read.point.idle = true := by rw [hpoint]; rfl
      rw [hpoint] at hstep
      cases hstep
      exact h.goesOn_idle hread hidle rfl rfl
  | news interval =>
      rw [hpoint] at hstep
      dsimp only at hstep
      split at hstep
      · -- woken, it sets out again
        cases hstep
        rw [h.setOut]
        refine ⟨h.matcher, h.kept, h.cursor, h.split, h.answers, ?_⟩
        intro read' hread'
        cases hread'
        exact Read.sees_log _ _ (h.read read hread).next
      · cases hstep

/-- A reader that has just subscribed is in step: all that it wants lies ahead. -/
theorem begin {query : Query} {sub : Subscription} (hmatcher : query.matcher = .ok sub.matcher)
    (hkept : sub.remaining = none) :
    Reader.InStep log told { query, after := sub.cursor, sub } where
  matcher := hmatcher
  kept := hkept
  cursor := .inl rfl
  split := rfl
  answers := by
    intro c answer hmem
    cases hmem
  read := by
    intro read hread
    cases hread

end Reader.InStep

/-! ## Every reader in step -/

/-- Where no subscription is to be dropped, none is. -/
theorem Memory.subscribe_kept {f : Memory} (hconnected : f.disconnectAfter = none) (query : Query)
    (after : UInt64) :
    (f.subscribe query after).1.disconnectAfter = none ∧
      ∀ sub, (f.subscribe query after).2 = .ok sub → sub.remaining = none := by
  unfold Memory.subscribe
  split
  · exact ⟨hconnected, fun sub hsub => nomatch hsub⟩
  · split
    · exact ⟨hconnected, fun sub hsub => nomatch hsub⟩
    · split
      · exact ⟨hconnected, fun sub hsub => nomatch hsub⟩
      · refine ⟨rfl, ?_⟩
        intro sub hsub
        cases hsub
        exact hconnected

/-- A read leaves the log as it is. -/
theorem Subscription.resume_frame {s sub : Subscription} {f f' : Memory} {read : Read}
    {step : ReadStep} (h : s.resume f read = some (f', sub, step)) :
    f'.entries = f.entries ∧ f'.disconnectAfter = f.disconnectAfter := by
  unfold Subscription.resume at h
  split at h
  · obtain ⟨rfl, -⟩ := Prod.mk.inj (Option.some.inj h)
    exact ⟨rfl, rfl⟩
  · cases h
    exact ⟨rfl, rfl⟩
  · cases h
    exact ⟨rfl, rfl⟩
  · cases h
    exact ⟨rfl, rfl⟩
  · split at h
    · cases h
      exact ⟨rfl, rfl⟩
    · cases h

namespace Readership

variable {ι : Type} {s : Readership ι}

/-- A log that only grows, with readers in step. -/
structure Inv (s : Readership ι) : Prop where
  ascending : Log.Ascending s.feed.entries
  wellFormed : ∀ p ∈ s.feed.entries, ∃ c, p.2.change p.1 = .ok c
  connected : s.feed.disconnectAfter = none
  readers : ∀ i r, s.reader i = some r → r.InStep s.feed.entries (s.untold = 0)

theorem Inv.begin : Inv ({} : Readership ι) where
  ascending := List.Pairwise.nil
  wellFormed := by
    intro p hp
    cases hp
  connected := rfl
  readers := by
    intro i r hr
    cases hr

/-- Publishing puts an entry behind the others. -/
theorem Inv.publish (h : Inv s) {seq : UInt64} {entry : LogEntry}
    (hlast : ∀ p ∈ s.feed.entries, p.1 < seq) (hwell : ∃ c, entry.change seq = .ok c) :
    Inv { s with feed := s.feed.publishRaw seq entry, untold := s.untold + 1 } := by
  have hentries := Memory.publishRaw_entries entry hlast
  refine ⟨?_, ?_, h.connected, ?_⟩
  · rw [hentries, Log.Ascending, List.pairwise_append]
    refine ⟨h.ascending, List.pairwise_singleton _ _, ?_⟩
    intro p hp p' hp'
    rw [List.mem_singleton.1 hp']
    exact hlast p hp
  · intro p hp
    rw [hentries] at hp
    rcases List.mem_append.1 hp with hp | hp
    · exact h.wellFormed p hp
    · rw [List.mem_singleton.1 hp]
      exact hwell
  · intro i r hr
    rw [hentries]
    have hgrown := (h.readers i r hr).publish (p := (seq, entry)) hlast
    exact hgrown.mono fun htold => absurd htold (Nat.succ_ne_zero _)

variable [DecidableEq ι]

/-- A step that leaves the log alone may change one reader. -/
theorem Inv.set (h : Inv s) {feed : Memory} (hentries : feed.entries = s.feed.entries)
    (hconnected : feed.disconnectAfter = none) (i : ι) {r : Reader}
    (hr : r.InStep s.feed.entries (s.untold = 0)) : Inv ({ s with feed }.set i r) where
  ascending := hentries ▸ h.ascending
  wellFormed := hentries ▸ h.wellFormed
  connected := hconnected
  readers j r' hr' := by
    change Reader.InStep feed.entries (s.untold = 0) r'
    rw [hentries]
    by_cases hj : j = i
    · subst hj
      have heq : r = r' := by simpa [Readership.set] using hr'
      exact heq ▸ hr
    · apply h.readers j
      simpa [Readership.set, hj] using hr'

theorem Inv.subscribe (h : Inv s) (i : ι) (query : Query) (after : UInt64) :
    Inv (s.step (.subscribe i query after)) := by
  obtain ⟨hentries, -, -⟩ := s.feed.subscribe_frame query after
  obtain ⟨hconnected, hkept⟩ := Memory.subscribe_kept h.connected query after
  simp only [step]
  split
  · rename_i feed sub hreader hsub
    rw [hsub] at hentries hconnected hkept
    have hok : (s.feed.subscribe query after).2 = .ok sub := by rw [hsub]
    obtain ⟨hmatcher, hcursor, -⟩ := Memory.subscribe_ok hok
    apply h.set hentries hconnected i
    rw [← hcursor]
    exact Reader.InStep.begin hmatcher (hkept sub rfl)
  · rename_i feed e hreader hsub
    rw [hsub] at hentries hconnected
    refine ⟨hentries ▸ h.ascending, hentries ▸ h.wellFormed, hconnected, ?_⟩
    intro j r hr
    change Reader.InStep feed.entries _ r
    rw [hentries]
    exact h.readers j r hr
  · exact h

theorem Inv.resume (h : Inv s) (i : ι) : Inv (s.step (.resume i)) := by
  simp only [step]
  split
  · rename_i r hr
    split
    · rename_i feed sub st hstep
      obtain ⟨read, hread, hstep⟩ := Option.bind_eq_some_iff.1 hstep
      obtain ⟨hentries, hconnected⟩ := Subscription.resume_frame hstep
      apply h.set hentries (hconnected.trans h.connected) i
      exact (h.readers i r hr).resume h.ascending h.wellFormed hread hstep
    · exact h
  · exact h

theorem Inv.heartbeat (h : Inv s) (i : ι) : Inv (s.step (.heartbeat i)) := by
  simp only [step]
  split
  · rename_i r hr
    split
    · rename_i interval hpoint
      obtain ⟨read, hread, hpoint⟩ := Option.map_eq_some_iff.1 hpoint
      have hidle : read.point.idle = true := by rw [hpoint]; rfl
      exact h.set rfl h.connected i ((h.readers i r hr).returns hread hidle rfl)
    · exact h
  · exact h

theorem Inv.step (h : Inv s) (e : Event ι)
    (hwell : ∀ seq entry, e = .publish seq entry → ∃ c, entry.change seq = .ok c) :
    Inv (s.step e) := by
  cases e with
  | publish seq entry =>
      simp only [Readership.step]
      split
      · rename_i hlast
        exact h.publish hlast (hwell seq entry rfl)
      · exact h
  | tell =>
      refine ⟨h.ascending, h.wellFormed, h.connected, ?_⟩
      intro i r hr
      obtain ⟨r₀, hr₀, rfl⟩ := Option.map_eq_some_iff.1 hr
      exact (h.readers i r₀ hr₀).wake _
  | switch closed heartbeat failSubscribes =>
      exact ⟨h.ascending, h.wellFormed, h.connected, h.readers⟩
  | subscribe i query after => exact h.subscribe i query after
  | call i =>
      simp only [Readership.step]
      split
      · rename_i r hr
        split
        · exact h.set rfl h.connected i (h.readers i r hr).call
        · exact h
      · exact h
  | resume i => exact h.resume i
  | heartbeat i => exact h.heartbeat i
  | cancel i =>
      simp only [Readership.step]
      split
      · rename_i r hr
        exact h.set rfl h.connected i (h.readers i r hr).cancel
      · exact h

theorem Inv.run (events : List (Event ι))
    (hwell : ∀ seq entry, .publish seq entry ∈ events → ∃ c, entry.change seq = .ok c) :
    Inv (({} : Readership ι).run events) := by
  induction events using List.reverseRecOn with
  | nil => exact Inv.begin
  | append_singleton events e ih =>
      rw [run_append_singleton]
      apply Inv.step
      · apply ih
        intro seq entry hmem
        exact hwell seq entry (List.mem_append_left _ hmem)
      · rintro seq entry rfl
        exact hwell seq entry (List.mem_append_right _ (List.mem_singleton_self _))

/-- Whatever is published, whatever reads begin and wherever they are given up: a reader was handed
out a beginning of the changes that it wants, in the order of the log and each of them once. A read
that returns hands out the change that was next when it began, if there was one; and one that sleeps
when all readers were told of every publication, and was not woken itself, has nothing to hand
out. -/
theorem handed_out_in_order (events : List (Event ι))
    (hwell : ∀ seq entry, .publish seq entry ∈ events → ∃ c, entry.change seq = .ok c)
    (s : Readership ι) (hrun : ({} : Readership ι).run events = s) (i : ι) (r : Reader)
    (hr : s.reader i = some r) :
    r.handed <+: r.wanted s.feed.entries ∧
      (r.wanted s.feed.entries).Pairwise (fun c d => c.seq < d.seq) ∧
      (∀ c answer, (some c, answer) ∈ r.returned → answer = .ok (some (.event c))) ∧
      ∀ read, r.read = some read → read.point.idle = true → read.woken = false → s.untold = 0 →
        r.handed = r.wanted s.feed.entries := by
  subst hrun
  have hinv := Inv.run events hwell
  have hstep := hinv.readers i r hr
  refine ⟨⟨_, hstep.split.symm⟩, hinv.ascending.ahead r.query r.after, hstep.answers, ?_⟩
  intro read hread hidle hwoken htold
  have hnil := ((hstep.read read hread).idle hidle).2 hwoken htold
  rw [hstep.split, hnil, List.append_nil]

/-- An entry by which the directory adds a person without attributes. -/
def added (dn : String) (seq : UInt64) : Event Bool := .publish seq ⟨[], entryMetadata dn seq .add⟩

/-- The first reader gives two of its reads up when they are about to hand a change out; the second
one begins behind the first change, and gives up while it waits for news. -/
def givingUp : List (Event Bool) :=
  [.subscribe true { baseDn := "dc=x" } 0, added "cn=ann,dc=x" 1, .tell,
    .subscribe false { baseDn := "dc=x" } 1, .call true, .resume true, .cancel true,
    .call true, .resume true, .call false, .resume false, .resume false, .resume false,
    .cancel false, .resume true, added "cn=bob,dc=y" 2, added "cn=cyd,dc=x" 3, .tell,
    .call true, .resume true, .resume true, .cancel true, .call true, .call false, .resume false,
    .resume false, .resume false, .call false, .resume true, .resume true]

theorem handed_out_after_giving_up :
    ∃ r q, (({} : Readership Bool).run givingUp).reader true = some r ∧
      (({} : Readership Bool).run givingUp).reader false = some q ∧
      r.handed.map Change.seq = [1, 3] ∧ q.handed.map Change.seq = [3] ∧
      r.handed <+: r.wanted (({} : Readership Bool).run givingUp).feed.entries := by
  have hwell : ∀ seq entry, .publish seq entry ∈ givingUp → ∃ c, entry.change seq = .ok c := by
    intro seq entry hmem
    simp only [givingUp, added, List.mem_cons, Event.publish.injEq, reduceCtorEq, List.not_mem_nil,
      or_false, false_or] at hmem
    rcases hmem with ⟨rfl, rfl⟩ | ⟨rfl, rfl⟩ | ⟨rfl, rfl⟩
    · exact ⟨⟨1, .add, "cn=ann,dc=x", [], entryMetadata "cn=ann,dc=x" 1 .add⟩, by decide +kernel⟩
    · exact ⟨⟨2, .add, "cn=bob,dc=y", [], entryMetadata "cn=bob,dc=y" 2 .add⟩, by decide +kernel⟩
    · exact ⟨⟨3, .add, "cn=cyd,dc=x", [], entryMetadata "cn=cyd,dc=x" 3 .add⟩, by decide +kernel⟩
  obtain ⟨r, hr⟩ : ∃ r, (({} : Readership Bool).run givingUp).reader true = some r :=
    Option.isSome_iff_exists.1 (by decide +kernel)
  obtain ⟨q, hq⟩ : ∃ q, (({} : Readership Bool).run givingUp).reader false = some q :=
    Option.isSome_iff_exists.1 (by decide +kernel)
  have hhanded : ((({} : Readership Bool).run givingUp).reader true).map
      (fun r => r.handed.map Change.seq) = some [1, 3] := by decide +kernel
  have hhanded' : ((({} : Readership Bool).run givingUp).reader false).map
      (fun r => r.handed.map Change.seq) = some [3] := by decide +kernel
  rw [hr] at hhanded
  rw [hq] at hhanded'
  exact ⟨r, q, hr, hq, Option.some.inj hhanded, Option.some.inj hhanded',
    (handed_out_in_order givingUp hwell _ rfl true r hr).1⟩

end Readership

end ChangeRelay.Feed
