import ChangeRelay.Proofs.Stream.Leaving

/-!
# Streams that share a destination

Any number of streams with names of their own over one store in memory, all of which keep their
checkpoints in one bucket. What their chains emit never names that bucket, so that a batch holds one
operation there, on the record of its own stream, and no stream can move the checkpoint of another.
-/

namespace ChangeRelay

open Store (Address Record BatchOp Memory)

/-! ## Proposals -/

namespace Checkpoint

/-- What a proposal has read and is about to write lies outside its bucket, but for its
checkpoint. -/
inductive Phase.KeepsOff (p : Proposal) : Phase → Prop where
  | readCheckpoint : KeepsOff p .readCheckpoint
  | readRecord {checkpoint : Option Record} {slots : List Slot} {next : Intent}
      {rest : List Intent} (hslots : ∀ a ∈ touched slots, a.bucket ≠ p.bucket)
      (hrest : ∀ i ∈ next :: rest, i.bucket ≠ p.bucket) :
      KeepsOff p (.readRecord checkpoint slots next rest)
  | write {slots : List Slot} {checkpoint : Option Record}
      (hslots : ∀ a ∈ touched slots, a.bucket ≠ p.bucket) :
      KeepsOff p (.write (slots.map Slot.op ++ [p.checkpointOp checkpoint]))
  | done (result : Except StoreFault Outcome) : KeepsOff p (.done result)

structure Proposal.KeepsOff (p : Proposal) : Prop where
  intents : ∀ i ∈ p.intents, i.bucket ≠ p.bucket
  phase : p.phase.KeepsOff p

/-- What is folded in brings no address. -/
theorem touched_absorb (slots : List Slot) (intents : List Intent) :
    touched (absorb slots intents).1 = touched slots := by
  induction intents generalizing slots with
  | nil => rfl
  | cons i rest ih =>
      unfold absorb
      split
      · rename_i slots' htouch
        rw [ih, touched_touch htouch]
      · rfl

theorem mem_of_mem_absorb {slots : List Slot} {intents : List Intent} {i : Intent}
    (h : i ∈ (absorb slots intents).2) : i ∈ intents := by
  obtain ⟨taken, hsplit, -⟩ := absorb_prefix slots intents
  rw [hsplit]
  exact List.mem_append_right _ h

namespace Proposal

variable {p : Proposal}

theorem continueWith_keepsOff {checkpoint : Option Record} {slots : List Slot}
    {rest : List Intent} (hslots : ∀ a ∈ touched slots, a.bucket ≠ p.bucket)
    (hrest : ∀ i ∈ rest, i.bucket ≠ p.bucket) :
    (p.continueWith checkpoint slots rest).phase.KeepsOff p := by
  rw [← touched_absorb slots rest] at hslots
  have hleft : ∀ i ∈ (absorb slots rest).2, i.bucket ≠ p.bucket := fun i hi =>
    hrest i (mem_of_mem_absorb hi)
  unfold continueWith
  split
  · rename_i habsorb
    rw [habsorb] at hslots hleft
    exact .readRecord hslots hleft
  · rename_i habsorb
    rw [habsorb] at hslots
    exact .write hslots

theorem onRead_keepsOff (h : p.KeepsOff) (answer : Except StoreFault (Option Record)) :
    (p.onRead answer).phase.KeepsOff p := by
  have hphase := h.phase
  cases hcase : p.phase with
  | readCheckpoint =>
      unfold onRead
      rw [hcase]
      cases answer with
      | error e => exact .done _
      | ok current =>
          simp only
          split
          · exact .done _
          · exact continueWith_keepsOff nofun h.intents
          · split
            · exact .done _
            · exact continueWith_keepsOff nofun h.intents
  | readRecord checkpoint slots next rest =>
      rw [hcase] at hphase
      unfold onRead
      rw [hcase]
      cases hphase with
      | readRecord hslots hrest =>
          cases answer with
          | error e => exact .done _
          | ok current =>
              refine continueWith_keepsOff ?_ fun i hi => hrest i (List.mem_cons_of_mem _ hi)
              intro a ha
              rw [touched, List.map_append, List.mem_append] at ha
              rcases ha with ha | ha
              · exact hslots a ha
              · rw [List.map_singleton, List.mem_singleton] at ha
                rw [ha]
                exact hrest next List.mem_cons_self
  | write ops =>
      rw [hcase] at hphase
      simpa only [onRead, hcase] using hphase
  | done result =>
      simpa only [onRead, hcase] using .done result

theorem KeepsOff.at_phase {phase : Phase} (h : phase.KeepsOff p) (attempt : Nat)
    (phase' : Phase) : phase.KeepsOff { p with attempt, phase := phase' } := by
  cases h with
  | readCheckpoint => exact .readCheckpoint
  | readRecord hslots hrest => exact .readRecord hslots hrest
  | write hslots => exact .write hslots
  | done result => exact .done result

theorem KeepsOff.onRead (h : p.KeepsOff) (answer : Except StoreFault (Option Record)) :
    (p.onRead answer).KeepsOff := by
  have hphase := onRead_keepsOff h answer
  rw [onRead_eq]
  exact ⟨h.intents, at_phase hphase _ _⟩

theorem KeepsOff.onWrite (h : p.KeepsOff) (answer : Except StoreFault Unit) :
    (p.onWrite answer).KeepsOff := by
  unfold Proposal.onWrite
  split
  · exact ⟨h.intents, .done _⟩
  · split
    · exact ⟨h.intents, .readCheckpoint⟩
    · exact ⟨h.intents, .done _⟩
  · exact ⟨h.intents, .done _⟩

/-- The one operation of a batch in the bucket of the checkpoint is on the checkpoint itself. -/
theorem KeepsOff.ops (h : p.KeepsOff) {ops : List BatchOp} (hphase : p.phase = .write ops) :
    ∃ others checkpoint, ops = others ++ [p.checkpointOp checkpoint] ∧
      ∀ op ∈ others, op.address.bucket ≠ p.bucket := by
  have hwrite := h.phase
  rw [hphase] at hwrite
  cases hwrite with
  | @write slots checkpoint hslots =>
      refine ⟨slots.map Slot.op, checkpoint, rfl, ?_⟩
      intro op hop
      obtain ⟨slot, hslot, rfl⟩ := List.mem_map.1 hop
      exact hslots _ (List.mem_map_of_mem hslot)

/-- A batch that is staged leaves the rest of the bucket as it was. -/
theorem KeepsOff.find?_of_ne (h : p.KeepsOff) {ops : List BatchOp} (hphase : p.phase = .write ops)
    {rs rs' : Store.Records} {crash : Option Nat} (hstage : Memory.stage rs crash ops = .ok rs')
    {key : String} (hne : key ≠ p.consumer) :
    Assoc.find? ⟨p.bucket, key⟩ rs' = Assoc.find? ⟨p.bucket, key⟩ rs := by
  obtain ⟨others, checkpoint, rfl, hothers⟩ := h.ops hphase
  refine Store.stage_find?_of_ne hstage ?_
  intro op hop haddress
  rcases List.mem_append.1 hop with hop | hop
  · exact hothers op hop (congrArg Address.bucket haddress)
  · rw [List.mem_singleton.1 hop] at haddress
    exact hne (congrArg Address.key haddress).symm

/-- A batch that is staged moves the checkpoint. -/
theorem KeepsOff.find?_address (h : p.KeepsOff) {ops : List BatchOp}
    (hphase : p.phase = .write ops) {rs rs' : Store.Records} {crash : Option Nat}
    (hstage : Memory.stage rs crash ops = .ok rs') :
    Assoc.find? p.address rs' = some (.of (document p.consumer p.range.last p.time)) := by
  obtain ⟨others, checkpoint, rfl, -⟩ := h.ops hphase
  exact Store.stage_find?_of_last hstage

end Proposal

end Checkpoint

/-! ## Consumers -/

/-- No intent of a pipeline names a bucket. -/
def Pipeline.KeepsOffBucket (p : Pipeline) (bucket : String) : Prop :=
  ∀ change intents, p.apply change = .ok intents → ∀ i ∈ intents, i.bucket ≠ bucket

/-- What a consumer holds in a phase keeps off the bucket of its checkpoint. -/
def ConsumerPhase.Clean (c : Consumer) : ConsumerPhase → Prop
  | .waiting s | .throttled s _ => ∀ i ∈ s.batch.intents, i.bucket ≠ c.writer.bucket
  | .committing p _ => p.KeepsOff ∧ p.address = c.checkpoint
  | _ => True

namespace Consumer

variable {c c' : Consumer}

theorem Keeps.clean (h : c.Keeps c') {phase : ConsumerPhase} (hclean : phase.Clean c) :
    phase.Clean c' := by
  cases phase with
  | waiting s | throttled s change =>
      intro i hi
      rw [h.bucket]
      exact hclean i hi
  | committing p after => exact ⟨hclean.1, hclean.2.trans h.checkpoint.symm⟩
  | _ => trivial

theorem clean_of_quiet {phase : ConsumerPhase} (h : phase.Quiet) : phase.Clean c := by
  cases h <;> trivial

theorem clean_of_answered {p : Checkpoint.Proposal} {after : AfterCommit} {phase : ConsumerPhase}
    (h : Answered p after phase) (hp : p.KeepsOff) (haddress : p.address = c.checkpoint) :
    phase.Clean c := by
  cases h with
  | further => exact ⟨hp, haddress⟩
  | quiet hquiet => exact clean_of_quiet hquiet
  | settled => exact nofun

/-- What a consumer proposes is what it holds. -/
theorem proposalFor_clean {intents : List Intent} (h : ∀ i ∈ intents, i.bucket ≠ c.writer.bucket)
    (range : SeqRange) (time : Int) (after : AfterCommit) :
    (ConsumerPhase.committing (c.proposalFor range intents time) after).Clean c :=
  ⟨⟨h, .readCheckpoint⟩, rfl⟩

/-- A change that is taken adds nothing that names the bucket. -/
theorem push_clean (hoff : c.pipeline.KeepsOffBucket c.writer.bucket)
    (h : c.phase.Clean c) {signal : Signal} {s : Session} {change : Change}
    {intents : List Intent} (htakes : c.Takes signal s change intents) :
    ∀ i ∈ (s.batch.push change.seq intents).intents, i.bucket ≠ c.writer.bucket := by
  intro i hi
  rcases List.mem_append.1 hi with hi | hi
  · rcases htakes.phase with ⟨hphase, -⟩ | ⟨hphase, -⟩
    · rw [hphase] at h
      exact h i hi
    · rw [hphase] at h
      exact h i hi
  · exact hoff change intents htakes.accepted i hi

/-- Whatever a consumer is told, what it holds keeps off the bucket of its checkpoint. -/
theorem step_clean (hoff : c.pipeline.KeepsOffBucket c.writer.bucket) (h : c.phase.Clean c)
    (m : Moment) (signal : Signal) : (c.step m signal).1.phase.Clean (c.step m signal).1 := by
  obtain ⟨hkeeps, hmove⟩ := c.step_turns m signal
  refine hkeeps.clean ?_
  generalize (c.step m signal).1.phase = phase at hmove ⊢
  cases hmove with
  | stay => exact h
  | leave hquiet => exact clean_of_quiet hquiet
  | found => trivial
  | opened => exact nofun
  | held hphase =>
      rw [hphase] at h
      exact h
  | took htakes => exact push_clean hoff h htakes
  | tookFull htakes => exact proposalFor_clean (push_clean hoff h htakes) _ _ _
  | flushed hphase =>
      refine proposalFor_clean ?_ _ _ _
      rcases hphase with hphase | ⟨change, hphase⟩
      · rw [hphase] at h
        exact h
      · rw [hphase] at h
        exact h
  | drained => exact nofun
  | read hphase _ hanswered =>
      rw [hphase] at h
      refine clean_of_answered hanswered (h.1.onRead _) ?_
      rw [Checkpoint.Proposal.onRead_eq]
      exact h.2
  | wrote hphase _ hanswered =>
      rw [hphase] at h
      refine clean_of_answered hanswered (h.1.onWrite _) ?_
      rw [Checkpoint.Proposal.onWrite_eq]
      exact h.2

end Consumer

/-! ## Streams over one store -/

/-- Consumers of several streams over one store in memory. -/
structure Sharing (ι : Type) where
  store : Memory
  member : ι → Consumer

namespace Sharing

/-- What can happen. -/
inductive Event (ι : Type) where
  /-- A consumer is told something by its feed, its clock or its supervisor. -/
  | signal (i : ι) (m : Moment) (s : Signal)
  /-- A consumer reads the record it waits for. -/
  | read (i : ι) (m : Moment)
  /-- A consumer hands its batch to the store, which may refuse it at once. -/
  | enter (i : ι) (m : Moment)
  /-- The store stages the batch of a consumer. -/
  | write (i : ι) (m : Moment)
  /-- The store is given other faults. -/
  | disturb (available : Bool) (failBatches : Nat) (crashAfter : Option Nat)

variable {ι : Type} [DecidableEq ι]

def tell (g : Sharing ι) (i : ι) (m : Moment) (s : Signal) : Sharing ι :=
  { g with member := Function.update g.member i ((g.member i).step m s).1 }

/-- One event; one that its consumer does not wait for changes nothing. -/
def step (g : Sharing ι) : Event ι → Sharing ι
  | .signal i m s => if s.ofStore then g else g.tell i m s
  | .read i m =>
    match (g.member i).request with
    | some (.get a) => g.tell i m (.read (g.store.get a))
    | _ => g
  | .enter i m =>
    match (g.member i).request with
    | some (.putBatch _) =>
      match g.store.enter with
      | (store, .ok ()) => { g with store }
      | (store, .error e) => { g with store }.tell i m (.wrote (.error e))
    | _ => g
  | .write i m =>
    match (g.member i).request with
    | some (.putBatch ops) =>
      { g with store := (g.store.apply ops).1 }.tell i m (.wrote (g.store.apply ops).2)
    | _ => g
  | .disturb available failBatches crashAfter =>
    { g with store := { g.store with available, failBatches, crashAfter } }

def run (g : Sharing ι) (events : List (Event ι)) : Sharing ι := events.foldl step g

theorem run_append_singleton (g : Sharing ι) (events : List (Event ι)) (e : Event ι) :
    g.run (events ++ [e]) = (g.run events).step e := by
  simp [run]

/-- The record of a stream's checkpoint. -/
def standing (g : Sharing ι) (a : Address) : Option Record := Assoc.find? a g.store.records

/-- Each consumer keeps off the bucket of the checkpoints, where it has a record of its own. -/
structure Apart (bucket : String) (name : ι → String) (g : Sharing ι) : Prop where
  off : ∀ i, (g.member i).pipeline.KeepsOffBucket bucket
  clean : ∀ i, (g.member i).phase.Clean (g.member i)
  checkpoint : ∀ i, (g.member i).checkpoint = ⟨bucket, name i⟩

variable {g : Sharing ι} {bucket : String} {name : ι → String}

theorem Apart.tell (h : g.Apart bucket name) (i : ι) (m : Moment) (s : Signal) :
    (g.tell i m s).Apart bucket name := by
  have hkeeps := ((g.member i).step_turns m s).keeps
  have hoff : (g.member i).pipeline.KeepsOffBucket (g.member i).writer.bucket := by
    have hbucket : (g.member i).writer.bucket = bucket := congrArg Address.bucket (h.checkpoint i)
    rw [hbucket]
    exact h.off i
  have hclean := Consumer.step_clean hoff (h.clean i) m s
  have hmember : ∀ j, (g.tell i m s).member j =
      if j = i then ((g.member i).step m s).1 else g.member j := by
    intro j
    simp [Sharing.tell, Function.update_apply]
  refine ⟨fun j => ?_, fun j => ?_, fun j => ?_⟩ <;> rw [hmember] <;> split
  · rw [hkeeps.pipeline]
    exact h.off i
  · exact h.off j
  · exact hclean
  · exact h.clean j
  · rename_i hj
    rw [hkeeps.checkpoint, hj]
    exact h.checkpoint i
  · exact h.checkpoint j

omit [DecidableEq ι] in
theorem Apart.at_store (h : g.Apart bucket name) (store : Memory) :
    ({ g with store } : Sharing ι).Apart bucket name :=
  ⟨h.off, h.clean, h.checkpoint⟩

theorem Apart.step (h : g.Apart bucket name) (e : Event ι) : (g.step e).Apart bucket name := by
  cases e with
  | signal i m s =>
      simp only [Sharing.step]
      split
      · exact h
      · exact h.tell i m s
  | read i m =>
      simp only [Sharing.step]
      split
      · exact h.tell i m _
      · exact h
  | enter i m =>
      simp only [Sharing.step]
      split
      · split
        · exact h.at_store _
        · exact (h.at_store _).tell i m _
      · exact h
  | write i m =>
      simp only [Sharing.step]
      split
      · exact (h.at_store _).tell i m _
      · exact h
  | disturb available failBatches crashAfter => exact h.at_store _

/-! ## Checkpoints -/

/-- An event by which a stream's own commit is applied. -/
structure Applies (g : Sharing ι) (i : ι) (e : Event ι) (p : Checkpoint.Proposal) : Prop where
  phase : ∃ after, (g.member i).phase = .committing p after
  told : ∃ m, e = .write i m ∧ (g.step e).member i = ((g.member i).step m (.wrote (.ok ()))).1
  outcome : (g.member i).decided? (.wrote (.ok ())) = some .applied
  record : (g.step e).standing (g.member i).checkpoint =
    some (.of (Checkpoint.document (g.member i).id p.range.last p.time))

/-- A batch of a stream changes no record of the bucket but its own checkpoint. -/
theorem Apart.applies (h : g.Apart bucket name) {j : ι} {ops : List BatchOp}
    (hreq : (g.member j).request = some (.putBatch ops)) {m : Moment} {key : String}
    (hchanged : (g.step (.write j m)).standing ⟨bucket, key⟩ ≠ g.standing ⟨bucket, key⟩) :
    key = name j ∧ ∃ p, g.Applies j (.write j m) p := by
  obtain ⟨p, after, hphase, hwrite⟩ := committing_of_request hreq
  have hclean := h.clean j
  rw [hphase] at hclean
  obtain ⟨hoff, haddress⟩ := hclean
  have hcheckpoint : p.address = ⟨bucket, name j⟩ := haddress.trans (h.checkpoint j)
  have hstep : g.step (.write j m) =
      { g with store := (g.store.apply ops).1 }.tell j m (.wrote (g.store.apply ops).2) := by
    simp only [Sharing.step, hreq]
  rw [hstep] at hchanged
  unfold Memory.apply at hchanged hstep
  cases hstage : Memory.stage g.store.records g.store.crashAfter ops with
  | error e =>
      rw [hstage] at hchanged
      exact absurd rfl hchanged
  | ok rs =>
      rw [hstage] at hchanged hstep
      have hconsumer : p.consumer = name j := congrArg Address.key hcheckpoint
      have hbucket : p.bucket = bucket := congrArg Address.bucket hcheckpoint
      have hkey : key = name j := by
        by_contra hne
        rw [← hconsumer] at hne
        rw [← hbucket] at hchanged
        exact hchanged (hoff.find?_of_ne hwrite hstage hne)
      refine ⟨hkey, p, ⟨after, hphase⟩, ⟨m, rfl, ?_⟩, ?_, ?_⟩
      · rw [hstep]
        exact Function.update_self _ _ _
      · simp only [Consumer.decided?, hphase, Checkpoint.Proposal.told]
        rfl
      · have hid : p.consumer = (g.member j).id := congrArg Address.key haddress
        rw [hstep, ← haddress, ← hid]
        exact hoff.find?_address hwrite hstage

/-- Streams that are about to begin, each with settings of its own. -/
def begin (store : Memory) (d : ι → StreamDefinition) (pipeline : ι → Pipeline)
    (settings : ι → SupervisorSettings) : Sharing ι :=
  { store, member := fun i => .new (d i) (pipeline i) (settings i) }

/-- No stage of a definition that is valid for a bucket writes to it. -/
theorem target_ne_of_validate {d : StreamDefinition} {bucket : String}
    (h : d.validate bucket = .ok ()) : ∀ spec ∈ d.chain, spec.target ≠ bucket := by
  intro spec hspec htarget
  unfold StreamDefinition.validate at h
  split at h
  · cases h
  split at h
  · cases h
  split at h
  · cases h
  split at h
  · cases h
  · rename_i hnone
    exact List.find?_eq_none.1 hnone spec hspec (decide_eq_true htarget)

/-- A definition that is accepted has a chain that keeps off the bucket of the checkpoints. -/
theorem keepsOffBucket_of_prepare {d : StreamDefinition} {bucket : String} {p : Pipeline}
    (h : d.prepare Registry.builtins bucket = .ok p) : p.KeepsOffBucket bucket := by
  unfold StreamDefinition.prepare at h
  split at h
  · cases h
  · rename_i hvalid
    have htarget := target_ne_of_validate hvalid
    intro change intents happly i hi hbucket
    exact Registry.build_keepsOff h (a := ⟨bucket, i.key⟩) htarget change intents happly i hi
      (congrArg (Address.mk · i.key) hbucket)

theorem apart_run (store : Memory) {d : ι → StreamDefinition} {pipeline : ι → Pipeline}
    {settings : ι → SupervisorSettings} {bucket : String}
    (hbucket : ∀ i, (settings i).checkpoints = bucket)
    (hprepare : ∀ i, (d i).prepare Registry.builtins bucket = .ok (pipeline i))
    (events : List (Event ι)) :
    ((begin store d pipeline settings).run events).Apart bucket fun i => (d i).consumer := by
  induction events using List.reverseRecOn with
  | nil =>
      refine ⟨fun i => keepsOffBucket_of_prepare (hprepare i), fun i => trivial, fun i => ?_⟩
      exact congrArg (Address.mk · (d i).consumer) (hbucket i)
  | append_singleton events e ih =>
      rw [run_append_singleton]
      exact ih.step e

/-- Streams with names of their own that keep their checkpoints in one bucket, and whose definitions
are accepted for it: no chain emits an intent that names the bucket, and whatever happens, the
record of a checkpoint changes only when the stream's own commit is applied. -/
theorem checkpoint_isolated (store : Memory) (d : ι → StreamDefinition) (pipeline : ι → Pipeline)
    (settings : ι → SupervisorSettings) (bucket : String)
    (hname : Function.Injective fun i => (d i).consumer)
    (hbucket : ∀ i, (settings i).checkpoints = bucket)
    (hprepare : ∀ i, (d i).prepare Registry.builtins bucket = .ok (pipeline i)) :
    (∀ i change intents, (pipeline i).apply change = .ok intents →
      ∀ x ∈ intents, x.bucket ≠ bucket) ∧
    ∀ (events : List (Event ι)) (g : Sharing ι), (begin store d pipeline settings).run events = g →
      ∀ (e : Event ι) (i : ι),
        (g.step e).standing ⟨bucket, (d i).consumer⟩ ≠ g.standing ⟨bucket, (d i).consumer⟩ →
        ∃ p, g.Applies i e p := by
  refine ⟨fun i => keepsOffBucket_of_prepare (hprepare i), ?_⟩
  rintro events g rfl e i hchanged
  have hapart := apart_run store hbucket hprepare events
  generalize (begin store d pipeline settings).run events = g at hapart hchanged
  cases e with
  | write j m =>
      cases hreq : (g.member j).request with
      | none =>
          simp only [Sharing.step, hreq] at hchanged
          exact absurd rfl hchanged
      | some q =>
          cases q with
          | get a =>
              simp only [Sharing.step, hreq] at hchanged
              exact absurd rfl hchanged
          | putBatch ops =>
              obtain ⟨hkey, happlies⟩ := hapart.applies hreq hchanged
              obtain rfl : i = j := hname hkey
              exact happlies
  | enter j m =>
      refine absurd ?_ hchanged
      have hrecords := g.store.enter_records
      simp only [Sharing.step, standing]
      split
      · split <;>
        · rename_i hentered
          rw [hentered] at hrecords
          exact congrArg (Assoc.find? _) hrecords
      · rfl
  | signal j m s =>
      refine absurd ?_ hchanged
      simp only [Sharing.step]
      split <;> rfl
  | read j m =>
      refine absurd ?_ hchanged
      simp only [Sharing.step]
      split <;> rfl
  | disturb available failBatches crashAfter => exact absurd rfl hchanged

/-- Two streams of the people, into one bucket. -/
def roommates (i : Bool) : StreamDefinition :=
  ⟨if i then "ann" else "ben", .subtree "dc=x", Group.peopleChain⟩

def roommatesPipeline (i : Bool) : Pipeline :=
  ⟨(roommates i).consumer, [Mirror.trigger { bucket := "people" }]⟩

/-- Both are given the same change and have read what they need for its commit. -/
def meeting : List (Event Bool) :=
  let m : Moment := { now := { nanos := 0 } }
  let change : Change := ⟨5, .add, "cn=cyd,dc=x", [("cn", ["cyd"])], []⟩
  let both (e : Bool → Event Bool) : List (Event Bool) := [e true, e false]
  both (fun i => .signal i m (.start false)) ++ both (fun i => .read i m) ++
    both (fun i => .signal i m (.subscribed (.ok ()))) ++
    both (fun i => .signal i m (.item (.ok (some (.event change))))) ++
    both (fun i => .read i m) ++ both (fun i => .read i m) ++ both (fun i => .enter i m)

def met : Sharing Bool := (begin {} roommates roommatesPipeline fun _ => {}).run meeting

/-- Whether a stream is about to write a record. -/
def aboutToWrite (g : Sharing ι) (i : ι) (a : Address) : Bool :=
  match (g.member i).request with
  | some (.putBatch ops) => ops.any fun op => op.address = a
  | _ => false

/-- Both are about to write the same record; the one that does moves its own checkpoint only. -/
theorem checkpoint_isolated_same_record :
    let e : Event Bool := .write true { now := { nanos := 0 } }
    (∀ i, met.aboutToWrite i ⟨"people", "cn=cyd,dc=x"⟩ = true) ∧
      (∃ p, met.Applies true e p) ∧
      (met.step e).standing ⟨Checkpoint.defaultBucket, "ben"⟩ =
        met.standing ⟨Checkpoint.defaultBucket, "ben"⟩ := by
  intro e
  have hname : Function.Injective fun i => (roommates i).consumer := by
    intro i j
    cases i <;> cases j <;> simp [roommates]
  have hprepare : ∀ i, (roommates i).prepare Registry.builtins Checkpoint.defaultBucket =
      .ok (roommatesPipeline i) := by
    intro i
    cases i <;> rfl
  have hisolated := (checkpoint_isolated {} roommates roommatesPipeline (fun _ => {})
    Checkpoint.defaultBucket hname (fun _ => rfl) hprepare).2 meeting met rfl e
  refine ⟨by decide +kernel, hisolated true ?_, ?_⟩
  · -- there was no record before
    have hbefore : met.standing ⟨Checkpoint.defaultBucket, "ann"⟩ = none := by decide +kernel
    have hafter : ((met.step e).standing ⟨Checkpoint.defaultBucket, "ann"⟩).isSome = true := by
      decide +kernel
    intro hsame
    have hnone : (met.step e).standing ⟨Checkpoint.defaultBucket, "ann"⟩ = none :=
      hsame.trans hbefore
    rw [hnone] at hafter
    cases hafter
  · by_contra hchanged
    obtain ⟨p, happlies⟩ := hisolated false hchanged
    obtain ⟨m, hother, -⟩ := happlies.told
    injection hother with hwriter
    cases hwriter

end Sharing

end ChangeRelay
