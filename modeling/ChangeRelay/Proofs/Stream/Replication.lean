import ChangeRelay.Proofs.Stream.World

/-!
# Exactly once

Consumers of one stream, however many and however their steps fall, apply every change of the log
that they ask for once and in order, as long as the log discards nothing beyond the checkpoint: the
changes of the batches that were written are those between the first checkpoint and the current one.
-/

namespace ChangeRelay

open Checkpoint (Data position standing)
open Feed (Log)
open Store (Address Record Records Action BatchOp GuardsTell TagsTell Memory)

/-! ## Changes that are due -/

/-- The changes that a query asks for, behind one position and up to another. -/
def Feed.Log.due (log : Log) (q : Query) (lo hi : UInt64) : List Change :=
  (log.inScope q).filter fun c => lo < c.seq ∧ c.seq ≤ hi

section Due

variable {log : Log} {q : Query} {lo mid hi : UInt64} {c : Change}

theorem mem_due : c ∈ log.due q lo hi ↔ c ∈ log.inScope q ∧ lo < c.seq ∧ c.seq ≤ hi := by
  rw [Feed.Log.due, List.mem_filter, decide_eq_true_iff]

theorem due_ascending (h : log.Ascending) (q : Query) (lo hi : UInt64) :
    Ascending (log.due q lo hi) := (h.inScope q).filter _

/-- Lists in ascending order are the same if they hold the same changes. -/
theorem Ascending.eq_of_mem_iff {taken taken' : List Change} (h : Ascending taken)
    (h' : Ascending taken') (hmem : ∀ c, c ∈ taken ↔ c ∈ taken') : taken = taken' := by
  have hnodup : ∀ {l : List Change}, Ascending l → l.Nodup := by
    intro l hl
    refine hl.imp ?_
    rintro x y hlt rfl
    exact UInt64.lt_irrefl _ hlt
  apply List.Perm.eq_of_pairwise _ h h'
  · exact (List.perm_ext_iff_of_nodup (hnodup h) (hnodup h')).2 hmem
  · intro x y _ _ hxy hyx
    exact absurd hyx (UInt64.lt_asymm hxy)

/-- What is due up to a position, and from there on. -/
theorem due_append (h : log.Ascending) (q : Query) (hlo : lo ≤ mid) (hhi : mid ≤ hi) :
    log.due q lo mid ++ log.due q mid hi = log.due q lo hi := by
  apply Ascending.eq_of_mem_iff
  · rw [Ascending, List.pairwise_append]
    refine ⟨due_ascending h q lo mid, due_ascending h q mid hi, ?_⟩
    intro x hx y hy
    exact UInt64.lt_of_le_of_lt (mem_due.1 hx).2.2 (mem_due.1 hy).2.1
  · exact due_ascending h q lo hi
  · intro c
    rw [List.mem_append, mem_due, mem_due, mem_due]
    constructor
    · rintro (⟨hc, hlt, hle⟩ | ⟨hc, hlt, hle⟩)
      · exact ⟨hc, hlt, UInt64.le_trans hle hhi⟩
      · exact ⟨hc, UInt64.lt_of_le_of_lt hlo hlt, hle⟩
    · rintro ⟨hc, hlt, hle⟩
      by_cases hmid : c.seq ≤ mid
      · exact .inl ⟨hc, hlt, hmid⟩
      · exact .inr ⟨hc, UInt64.not_le.1 hmid, hle⟩

theorem due_self (log : Log) (q : Query) (lo : UInt64) : log.due q lo lo = [] := by
  rw [List.eq_nil_iff_forall_not_mem]
  intro c hc
  exact UInt64.not_lt.2 (mem_due.1 hc).2.2 (mem_due.1 hc).2.1

/-- What is published beyond a position is not due before it. -/
theorem due_publish {p : UInt64 × Feed.LogEntry} (q : Query) (lo : UInt64) (hbeyond : hi < p.1) :
    Feed.Log.due (log ++ [p]) q lo hi = log.due q lo hi := by
  -- the new entry alone is not due
  have hnew : Feed.Log.due [p] q lo hi = [] := by
    rw [List.eq_nil_iff_forall_not_mem]
    intro c hc
    obtain ⟨hc, -, hle⟩ := mem_due.1 hc
    obtain ⟨p', hp', heq⟩ := Feed.Log.exists_of_mem_inScope hc
    rw [← heq, List.mem_singleton.1 hp'] at hle
    exact UInt64.not_lt.2 hle hbeyond
  unfold Feed.Log.due at hnew ⊢
  unfold Feed.Log.inScope Feed.Log.changes at hnew ⊢
  rw [List.filterMap_append, List.filter_append, List.filter_append, hnew, List.append_nil]

end Due

theorem position_lt_of_standing_lt {rs : Records} {a : Address} {x : UInt64}
    (h : standing rs a < some x) (hx : 0 < x) : position rs a < x := by
  unfold position
  cases hs : standing rs a with
  | none => exact hx
  | some seq =>
      rw [hs, Option.some_lt_some] at h
      exact h

/-! ## What was replicated -/

/-- The batches that were written hold what was due, and the data shows it. Others may write, but
not the records that are looked at. -/
structure Complete {ι : Type} (rs : Records) (like : Consumer) (others : Address → Prop)
    (log entries : Log) (store : Records) (commits : List (Commit ι)) : Prop where
  from_le : position rs like.checkpoint ≤ position store like.checkpoint
  kept : ∀ p ∈ log, p ∈ entries ∨ p.1 ≤ position store like.checkpoint
  reached : position store like.checkpoint = position rs like.checkpoint ∨
    ∃ p ∈ log, position store like.checkpoint ≤ p.1
  changes : commits.flatMap Commit.changes =
    log.due like.query (position rs like.checkpoint) (position store like.checkpoint)
  accepted : ∀ c ∈ commits.flatMap Commit.changes, ∃ intents, like.pipeline.apply c = .ok intents
  data : ∀ b, b ≠ like.checkpoint → ¬ others b → store.value b =
    Data.applyAll rs.value ((commits.flatMap Commit.changes).flatMap like.pipeline.intentsOf) b

namespace Complete

variable {ι : Type} {rs store store' : Records} {like : Consumer} {others : Address → Prop}
  {log entries entries' : Log} {commits : List (Commit ι)}

theorem begin (rs : Records) (like : Consumer) (others : Address → Prop) :
    Complete (ι := ι) rs like others [] [] rs [] where
  from_le := UInt64.le_refl _
  kept := by simp
  reached := .inl rfl
  changes := (due_self [] _ _).symm
  accepted := by simp
  data := fun _ _ _ => rfl

/-- What is published is not due yet. -/
theorem publish (h : Complete rs like others log entries store commits)
    {p : UInt64 × Feed.LogEntry} (hlast : ∀ p' ∈ log, p'.1 < p.1) :
    Complete rs like others (log ++ [p]) (entries ++ [p]) store commits where
  from_le := h.from_le
  kept p' hp' := by
    rcases List.mem_append.1 hp' with hp' | hp'
    · exact (h.kept p' hp').imp_left (List.mem_append_left _)
    · exact .inl (List.mem_append_right _ hp')
  reached := by
    rcases h.reached with heq | ⟨p', hp', hle⟩
    · exact .inl heq
    · exact .inr ⟨p', List.mem_append_left _ hp', hle⟩
  changes := by
    rw [h.changes]
    rcases h.reached with heq | ⟨p', hp', hle⟩
    · rw [heq, due_self, due_self]
    · exact (due_publish _ _ (UInt64.lt_of_le_of_lt hle (hlast p' hp'))).symm
  accepted := h.accepted
  data := h.data

/-- What is trimmed was replicated. -/
theorem trim (h : Complete rs like others log entries store commits)
    (hkept : ∀ p ∈ entries, p ∈ entries' ∨ p.1 ≤ position store like.checkpoint) :
    Complete rs like others log entries' store commits where
  from_le := h.from_le
  kept p hp := by
    rcases h.kept p hp with hin | hle
    · exact hkept p hin
    · exact .inr hle
  reached := h.reached
  changes := h.changes
  accepted := h.accepted
  data := h.data

/-- Others write records that are not looked at. -/
theorem foreign (h : Complete rs like others log entries store commits) {b : Address}
    (hb : b ≠ like.checkpoint) (hothers : others b) (r : Option Record) :
    Complete rs like others log entries (store.set b r) commits := by
  have hposition : position (store.set b r) like.checkpoint = position store like.checkpoint := by
    rw [position, position, standing_set_of_ne store hb]
  refine ⟨?_, ?_, ?_, ?_, h.accepted, ?_⟩
  · rw [hposition]
    exact h.from_le
  · rw [hposition]
    exact h.kept
  · rw [hposition]
    exact h.reached
  · rw [hposition]
    exact h.changes
  · intro b' hb' hours
    have hne : b' ≠ b := by
      rintro rfl
      exact hours hothers
    rw [Records.value, Records.find?_set, if_neg hne]
    exact h.data b' hb' hours

/-- A batch of what is due next is written. -/
theorem commit (h : Complete rs like others log entries store commits) (hasc : log.Ascending)
    {k : Commit ι}
    (hle : position store like.checkpoint ≤ position store' like.checkpoint)
    (hreached : ∃ p ∈ log, position store' like.checkpoint ≤ p.1)
    (hchanges : k.changes = log.due like.query (position store like.checkpoint)
      (position store' like.checkpoint))
    (haccepted : ∀ c ∈ k.changes, ∃ intents, like.pipeline.apply c = .ok intents)
    (hdata : ∀ b, b ≠ like.checkpoint → store'.value b =
      Data.applyAll store.value (k.changes.flatMap like.pipeline.intentsOf) b) :
    Complete rs like others log entries store' (commits ++ [k]) := by
  -- what was applied, and the changes of the new batch behind it
  have hflat : (commits ++ [k]).flatMap Commit.changes =
      commits.flatMap Commit.changes ++ k.changes := by simp
  refine ⟨UInt64.le_trans h.from_le hle, ?_, .inr hreached, ?_, ?_, ?_⟩
  · intro p hp
    exact (h.kept p hp).imp_right fun hp => UInt64.le_trans hp hle
  · rw [hflat, h.changes, hchanges]
    exact due_append hasc _ h.from_le hle
  · intro c hc
    rw [hflat] at hc
    rcases List.mem_append.1 hc with hc | hc
    · exact h.accepted c hc
    · exact haccepted c hc
  · intro b hb hours
    rw [hflat, List.flatMap_append, Data.applyAll_append, hdata b hb]
    exact Data.applyAll_congr _ (h.data b hb hours)

end Complete

/-! ## Worlds -/

namespace World

variable {ι : Type} [DecidableEq ι] {w : World ι} {like : Consumer} {known : List Records}

omit [DecidableEq ι] in
/-- A batch that is written holds what is due between the checkpoints around it. -/
theorem Inv.taken_eq_due (h : Inv known like w)
    (hkept : ∀ p ∈ w.log, p ∈ w.feed.entries ∨ p.1 ≤ position w.group.store like.checkpoint)
    {i : ι} {ops : List BatchOp} {rs : Records} {p : Checkpoint.Proposal} {after : AfterCommit}
    (hw : Group.Writes known w.group i ops rs p after) :
    (w.group.member i).taken = w.log.due like.query (position w.group.store like.checkpoint)
      (position rs like.checkpoint) := by
  obtain ⟨x, hx, hreaches⟩ := hw.reaches h.sound
  have hhanded : (w.group.member i).handed = (w.group.member i).taken := by
    rw [Member.handed, hw.phase]
    exact List.append_nil _
  have hfollows := h.follows i
  apply Ascending.eq_of_mem_iff hw.proposes.ascending (due_ascending h.ordered.ascending ..)
  intro c
  rw [mem_due]
  constructor
  · -- what is written was published behind the checkpoint
    intro hc
    have hin := hfollows.handed c (hhanded ▸ hc)
    obtain ⟨p', hp', heq⟩ := Log.exists_of_mem_inScope hin
    have hpositive : 0 < c.seq := heq ▸ h.ordered.positive p' hp'
    have hbetween := hw.between c hc
    rw [hw.address h.sound] at hbetween
    exact ⟨hin, position_lt_of_standing_lt hbetween.1 hpositive,
      le_position_of_le_standing hbetween.2⟩
  · -- what the feed still holds was handed out, up to the last change of the batch
    rintro ⟨hc, hlt, hle⟩
    obtain ⟨⟨entry, hmem, hok⟩, hsel⟩ := Log.mem_inScope.1 hc
    rcases hkept _ hmem with hin | hpassed
    · have hx' : x ∈ (w.group.member i).handed := hhanded ▸ hx
      have hc' := Log.mem_inScope.2 ⟨⟨entry, hin, hok⟩, hsel⟩
      rcases hfollows.closed c hc' x hx' (hreaches ▸ hle) with hmine | hpassed
      · exact hhanded ▸ hmine
      · exact absurd hpassed (UInt64.not_le.2 hlt)
    · exact absurd hpassed (UInt64.not_le.2 hlt)

/-- What was replicated. -/
abbrev Replicated (rs : Records) (like : Consumer) (others : Address → Prop) (w : World ι) : Prop :=
  Complete rs like others w.log w.feed.entries w.group.store w.group.commits

omit [DecidableEq ι] in
/-- A batch that is written replicates what is due next. -/
theorem Inv.commit (h : Inv known like w) {rs : Records} {others : Address → Prop}
    (hrep : w.Replicated rs like others) (htell : ∀ b, GuardsTell known b w.group.store) {i : ι}
    {ops : List BatchOp} (hreq : (w.group.member i).consumer.request = some (.putBatch ops))
    {store : Records} (hs : Memory.stage w.group.store none ops = .ok store) :
    Complete rs like others w.log w.feed.entries store
      (w.group.commits ++ [w.group.commitOf i store]) := by
  obtain ⟨p, after, hw⟩ := h.sound.writes (htell _) hreq hs
  have haddr := hw.address h.sound
  have hpipeline := (h.keeps i).pipeline
  have hchanges := h.taken_eq_due hrep.kept hw
  apply hrep.commit h.ordered.ascending
  · have hle := hw.standing_le
    rw [haddr] at hle
    exact position_le_of_standing_le hle
  · -- the batch ends with a change that was published
    obtain ⟨x, hx, hreaches⟩ := hw.reaches h.sound
    obtain ⟨p', hp', heq⟩ := Log.exists_of_mem_inScope
      ((h.follows i).handed x (List.mem_append_left _ hx))
    refine ⟨p', hp', ?_⟩
    rw [hreaches, heq]
    exact UInt64.le_refl _
  · exact hchanges
  · intro c hc
    obtain ⟨intents, happly⟩ := hw.proposes.accepted c hc
    exact ⟨intents, hpipeline ▸ happly⟩
  · intro b hb
    have hintents := hw.proposes.intents
    rw [hpipeline] at hintents
    rw [hw.grounded.value_eq hw.off hs (htell _) (fun _ _ => htell _) (haddr.symm ▸ hb), hintents]
    rfl

/-! ## Runs -/

theorem mem_past_step (w : World ι) (e : Event ι) {rs : Records} (h : rs ∈ w.group.past) :
    rs ∈ (w.step e).group.past :=
  w.group_induct (P := fun g => rs ∈ g.past) e h fun _ _ => Group.mem_past_step h

/-- What a world keeps up that loses nothing beyond the checkpoint. -/
structure Lossless (rs : Records) (like : Consumer) (others : Address → Prop) (w : World ι) :
    Prop where
  inv : Inv w.group.past like w
  tagged : ∀ s ∈ w.group.past, s.Tagged
  replicated : w.Replicated rs like others

/-- An event at which nobody writes what is looked at, and nothing beyond the checkpoint is lost. -/
structure Spares (like : Consumer) (others : Address → Prop) (w : World ι) (e : Event ι) :
    Prop where
  foreign : ∀ b action, e = .group (.foreign b action) → b ≠ like.checkpoint ∧ others b
  trim : ∀ n, e = .trim n → ∀ p ∈ w.feed.entries, p.1 ≤ n →
    p.1 ≤ position w.group.store like.checkpoint

variable {rs : Records} {others : Address → Prop}

/-- The group of a world stays sound. -/
theorem Lossless.sound_step (h : Lossless rs like others w) {e : Event ι}
    (hspares : Spares like others w e) (htell : TagsTell w.group.past like.checkpoint) :
    Group.Sound (w.step e).group.past like.checkpoint (w.step e).group ∧
      ∀ s ∈ (w.step e).group.past, s.Tagged := by
  apply w.group_induct (P := fun g => Group.Sound g.past like.checkpoint g ∧
    ∀ s ∈ g.past, s.Tagged) e
  · exact ⟨h.inv.sound, h.tagged⟩
  · intro e' hforeign
    constructor
    · apply h.inv.sound.step h.tagged e' _ htell
      exact fun b action he => (hspares.foreign b action (hforeign b action he)).1
    · exact Group.tagged_step h.tagged h.inv.sound.present e'

/-- An event at which nothing is lost leaves everything replicated up to the checkpoint. -/
theorem Lossless.replicated_step (h : Lossless rs like others w) {e : Event ι}
    (hspares : Spares like others w e) (htell : ∀ b, TagsTell w.group.past b) :
    (w.step e).Replicated rs like others := by
  have hguards : ∀ b, GuardsTell w.group.past b w.group.store := fun b =>
    (htell b).guardsTell h.tagged h.inv.sound.present
  -- either the log stays and the group moves, or the log moves and the group stays
  cases w.step_logged e with
  | none hlog hentries htrimmed =>
      rw [Replicated, hlog, hentries]
      rcases w.step_store e with ⟨hstore, hcommits⟩ | ⟨b, action, he, hstore, hcommits⟩ |
        ⟨i, ops, hreq, hs, hcommits⟩
      · rw [hstore, hcommits]
        exact h.replicated
      · obtain ⟨hb, hothers⟩ := hspares.foreign b action he
        rw [hstore, hcommits]
        exact h.replicated.foreign hb hothers _
      · rw [hcommits]
        exact h.inv.commit h.replicated hguards hreq hs
  | @published seq entry hpositive hlast hstep =>
      rw [Replicated, hstep, h.inv.ordered.publishRaw_entries entry hlast]
      exact h.replicated.publish hlast
  | @trimmed n he hstep =>
      rw [Replicated, hstep]
      apply h.replicated.trim
      intro p hp
      by_cases hin : p ∈ (w.feed.trimThrough n).entries
      · exact .inl hin
      · exact .inr (hspares.trim n he p hp (Feed.Memory.le_of_trimmed hp hin))

theorem Lossless.step (h : Lossless rs like others w) {e : Event ι}
    (hspares : Spares like others w e) (htell : ∀ b, TagsTell w.group.past b) :
    Lossless rs like others (w.step e) := by
  obtain ⟨hsound, htagged⟩ := h.sound_step hspares (htell _)
  have hguards := (htell like.checkpoint).guardsTell h.tagged h.inv.sound.present
  refine ⟨h.inv.step e hsound ?_, htagged, h.replicated_step hspares htell⟩
  apply w.group_induct (P := fun g => position w.group.store like.checkpoint ≤
    position g.store like.checkpoint) e (UInt64.le_refl _)
  intro e' hforeign
  apply position_le_of_standing_le
  apply h.inv.sound.standing_le hguards e'
  exact fun b action he => (hspares.foreign b action (hforeign b action he)).1

omit [DecidableEq ι] in
theorem Lossless.begin {start : ι → Consumer} (htag : rs.Tagged)
    (hfresh : ∀ i, (start i).phase = .starting) (hlike : ∀ i, like.Keeps (start i))
    (hoff : like.pipeline.KeepsOff like.checkpoint) :
    Lossless rs like others (begin rs start) where
  inv := Inv.begin hfresh hlike hoff
  tagged s hs := by
    rw [List.mem_singleton.1 hs]
    exact htag
  replicated := Complete.begin rs like others

theorem Lossless.run {w₀ : World ι} (h : Lossless rs like others w₀) (events : List (Event ι))
    (hspares : ∀ earlier e later, events = earlier ++ e :: later →
      Spares like others (w₀.run earlier) e)
    (htell : ∀ b, TagsTell (w₀.run events).group.past b) :
    Lossless rs like others (w₀.run events) := by
  -- from the end: what the whole run has seen tells apart what its beginning has seen
  induction events using List.reverseRecOn with
  | nil => exact h
  | append_singleton events e ih =>
      rw [run_append_singleton] at htell ⊢
      have htell' : ∀ b, TagsTell (w₀.run events).group.past b := fun b =>
        (htell b).mono fun _ => mem_past_step _ e
      refine (ih ?_ htell').step (hspares events e [] rfl) htell'
      rintro earlier e' later rfl
      exact hspares earlier e' (later ++ [e]) (by simp)

/-- A world of instances of one stream that are about to begin. -/
def ofStream (rs : Records) (d : StreamDefinition) (pipeline : Pipeline)
    (settings : ι → SupervisorSettings) : World ι :=
  begin rs fun i => .new d pipeline (settings i)

/-- What a stream has come past in the log since `rs`. -/
def due (w : World ι) (rs : Records) (d : StreamDefinition) (bucket : String) : List Change :=
  w.log.due d.query (position rs ⟨bucket, d.consumer⟩)
    (position w.group.store ⟨bucket, d.consumer⟩)

/-- Instances of one stream apply every change that is published, and that they ask for, once and
in order, up to the checkpoint, as long as nothing beyond the checkpoint is lost. Others may write
what they like apart from the checkpoint; where they do not write, the data is what the changes
make of it. -/
theorem exactly_once (rs : Records) (d : StreamDefinition) (pipeline : Pipeline) (bucket : String)
    (settings : ι → SupervisorSettings) (events : List (Event ι)) (w : World ι)
    (hrun : (ofStream rs d pipeline settings).run events = w) (htag : rs.Tagged)
    (hbuild : Registry.builtins.build d.consumer d.chain = .ok pipeline)
    (hbucket : ∀ i, (settings i).checkpoints = bucket)
    (htarget : ∀ spec ∈ d.chain, spec.target ≠ bucket)
    (hforeign : ∀ action, .group (.foreign ⟨bucket, d.consumer⟩ action) ∉ events)
    (htrim : ∀ earlier n later, events = earlier ++ .trim n :: later →
      ∀ p ∈ ((ofStream rs d pipeline settings).run earlier).feed.entries, p.1 ≤ n →
        p.1 ≤ position ((ofStream rs d pipeline settings).run earlier).group.store
          ⟨bucket, d.consumer⟩)
    (htell : ∀ b, TagsTell w.group.past b) :
    Ascending (w.due rs d bucket) ∧
    (∀ b, b ≠ ⟨bucket, d.consumer⟩ → (∀ action, .group (.foreign b action) ∉ events) →
      w.group.store.value b =
        Data.applyAll rs.value ((w.due rs d bucket).flatMap pipeline.intentsOf) b) ∧
    w.group.commits.flatMap Commit.changes = w.due rs d bucket ∧
    ∀ c ∈ w.due rs d bucket, (∃ intents, pipeline.apply c = .ok intents) ∧
      w.group.commits.countP (fun k => c ∈ k.changes) = 1 := by
  subst hrun
  -- what all instances have in common, whatever their settings
  let like : Consumer := .new d pipeline { checkpoints := bucket }
  have hlike : ∀ i, like.Keeps (.new d pipeline (settings i)) := fun i =>
    ⟨rfl, rfl, rfl, hbucket i⟩
  have hoff : like.pipeline.KeepsOff like.checkpoint := Registry.build_keepsOff hbuild htarget
  have hlossless : Lossless rs like (fun b => ∃ action, .group (.foreign b action) ∈ events)
      ((ofStream rs d pipeline settings).run events) := by
    apply (Lossless.begin htag (fun _ => rfl) hlike hoff).run events
    · rintro earlier e later hsplit
      constructor
      · rintro b action rfl
        have hmem : .group (.foreign b action) ∈ events := by
          rw [hsplit]
          exact List.mem_append_right _ List.mem_cons_self
        refine ⟨?_, action, hmem⟩
        rintro rfl
        exact hforeign action hmem
      · rintro n rfl
        exact htrim earlier n later hsplit
    · exact htell
  have hrep := hlossless.replicated
  have hdue := hrep.changes
  change _ = World.due _ rs d bucket at hdue
  rw [← hdue]
  have hasc := hlossless.inv.sound.journal.ascending
  refine ⟨hasc, ?_, rfl, ?_⟩
  · intro b hb hours
    exact hrep.data b hb fun ⟨action, hmem⟩ => hours action hmem
  · intro c hc
    exact ⟨hrep.accepted c hc, Group.countP_eq_one hasc hc⟩

/-- A mirror of the people below one name. -/
def mirror : StreamDefinition := ⟨"people", .subtree "dc=x", Group.peopleChain⟩

/-- One instance commits four changes at a time, the other five. -/
def paces (i : Bool) : SupervisorSettings :=
  { consumer := { batch := { maxEvents := if i then 4 else 5 } } }

/-- A store with a person whom the directory is about to lose. -/
def stale : Records := [(⟨"people", "cn=eve,dc=x"⟩, .of (.object [("cn", .ofStrings ["x"])]))]

/-- An instance begins a session and reads the first change. -/
def enters (i : Bool) : List (Event Bool) :=
  let m : Moment := { now := { nanos := 0 } }
  [.group (.signal i m (.start false)), .group (.read i m none), .subscribe i m, .next i m]

/-- Both instances read the first change and go on, the second one further than the first, and the
batch of the first is written without an answer. -/
def overtaking : List (Event Bool) :=
  let m : Moment := { now := { nanos := 0 } }
  [.publish 1 (person "cn=ann,dc=x" 1)] ++ enters true ++ enters false ++
    [.publish 2 (person "cn=bob,dc=y" 2),
      .publish 3 ⟨[("mail", ["a@x"])], entryMetadata "cn=ann,dc=x" 3 .modify⟩,
      .publish 4 ⟨[], entryMetadata "cn=eve,dc=x" 4 .delete⟩,
      .publish 5 (person "cn=cyd,dc=x" 5), .publish 6 (person "cn=dan,dc=x" 6)] ++
    List.replicate 3 (.next true m) ++ List.replicate 4 (.next false m) ++
    List.replicate 4 (.group (.read true m none)) ++
    [.group (.write true m (.unreported (.unavailable "put_batch" "no answer")))]

/-- The second instance finds the checkpoint in its way and begins again, the first one crashes. -/
def resuming : List (Event Bool) :=
  let m : Moment := { now := { nanos := 0 } }
  [.group (.read false m none), .group (.restart true {} {})] ++ enters false

set_option maxRecDepth 100000 in
theorem exactly_once_overtaking :
    let w := (ofStream stale mirror Group.people.pipeline paces).run
      (overtaking ++ .trim 1 :: resuming)
    (w.feed.delivered = [1, 1, 3, 4, 5, 3, 4, 5, 6, 6] ∧
      w.group.commits.map Commit.after = [some 5]) ∧
      w.group.commits.flatMap Commit.changes = w.due stale mirror Checkpoint.defaultBucket ∧
      w.group.store.value ⟨"people", "cn=ann,dc=x"⟩ =
        some (.object [("cn", .ofStrings ["x"]), ("mail", .ofStrings ["a@x"])]) ∧
      w.group.store.value ⟨"people", "cn=cyd,dc=x"⟩ =
        some (.object [("cn", .ofStrings ["x"])]) ∧
      (stale.value ⟨"people", "cn=eve,dc=x"⟩).isSome = true ∧
      w.group.store.value ⟨"people", "cn=eve,dc=x"⟩ = none := by
  intro w
  have hplayed : (w.feed.delivered = [1, 1, 3, 4, 5, 3, 4, 5, 6, 6] ∧
      w.group.commits.map Commit.after = [some 5]) ∧
      (w.due stale mirror Checkpoint.defaultBucket).flatMap Group.people.pipeline.intentsOf =
        [.put "people" "cn=ann,dc=x" (.object [("cn", .ofStrings ["x"])]),
          .merge "people" "cn=ann,dc=x" (.object [("mail", .ofStrings ["a@x"])]),
          .delete "people" "cn=eve,dc=x",
          .put "people" "cn=cyd,dc=x" (.object [("cn", .ofStrings ["x"])])] ∧
      ∀ rs ∈ w.group.past, ∀ p ∈ rs, (w.group.past.filterMap fun rs => rs.value p.1).dedup.Pairwise
        fun v w => Store.etag v ≠ Store.etag w := by
    decide +kernel
  obtain ⟨hseen, hintents, htags⟩ := hplayed
  have htagged : stale.Tagged :=
    Records.tagged_nil.set ⟨"people", "cn=eve,dc=x"⟩ (.put (.object [("cn", .ofStrings ["x"])]))
  have hnobody (a : Address) (action : Action) : .group (.foreign a action) ∉
      overtaking ++ .trim 1 :: resuming := by
    simp [overtaking, resuming, enters]
  have htrim : ∀ earlier n later,
      overtaking ++ .trim 1 :: resuming = earlier ++ .trim n :: later →
      ∀ p ∈ ((ofStream stale mirror Group.people.pipeline paces).run earlier).feed.entries,
        p.1 ≤ n → p.1 ≤ position
          ((ofStream stale mirror Group.people.pipeline paces).run earlier).group.store
          ⟨Checkpoint.defaultBucket, "people"⟩ := by
    intro earlier n later hsplit
    have hbefore : .trim n ∉ overtaking := by simp [overtaking, enters]
    have hafter : .trim n ∉ resuming := by simp [resuming, enters]
    obtain ⟨rfl, htrim, -⟩ := (List.append_cons_inj_of_notMem hbefore hafter).1 hsplit
    cases htrim
    decide +kernel
  obtain ⟨-, hdata, hchanges, -⟩ := exactly_once stale mirror Group.people.pipeline
    Checkpoint.defaultBucket paces (overtaking ++ .trim 1 :: resuming) w rfl htagged rfl
    (fun _ => rfl) (by decide) (hnobody _) htrim (Store.tagsTell_of_forall htags)
  rw [hintents] at hdata
  refine ⟨hseen, hchanges, ?_, ?_, rfl, ?_⟩
  · rw [hdata _ (by decide) (hnobody _)]
    rfl
  · rw [hdata _ (by decide) (hnobody _)]
    rfl
  · rw [hdata _ (by decide) (hnobody _)]
    rfl

end World

end ChangeRelay
