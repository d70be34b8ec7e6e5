import ChangeRelay.Proofs.Store.Batch
import ChangeRelay.Proofs.Stream.World
import ChangeRelay.Proofs.Trigger.Changelog

/-!
# The changelog of a run

Consumers of one stream that keeps a changelog, however many, whatever their feeds hand out, however
their steps fall and however often they crash: the bucket of the changelog, read in the order of its
keys, goes on with the changes that were applied, all of them and in the order of their numbers.
-/

namespace ChangeRelay

open Checkpoint (Data standing)
open Store (Address Record Records Action BatchOp TagsTell Memory)

/-! ## Reading a bucket -/

namespace Store.Records

theorem find?_bucket (rs : Records) (name key : String) :
    Assoc.find? key (rs.bucket name) = rs.value ⟨name, key⟩ := by
  induction rs with
  | nil => rfl
  | cons p rest ih =>
      obtain ⟨⟨bucket, key'⟩, r⟩ := p
      rw [Records.bucket, value] at ih ⊢
      rw [Assoc.find?_cons]
      by_cases hbucket : bucket = name
      · subst hbucket
        rw [List.filter_cons_of_pos (by simp), List.map_cons, Assoc.find?_cons, ih]
        by_cases hkey : key = key'
        · simp [hkey]
        · simp [hkey]
      · rw [List.filter_cons_of_neg (by simpa using hbucket), ih]
        simp [Ne.symm hbucket]

/-- The keys of a bucket ascend where the addresses do. -/
theorem ascending_bucket {rs : Records} (h : Assoc.Ascending rs) (name : String) :
    Assoc.Ascending (rs.bucket name) := by
  rw [Assoc.Ascending, bucket, List.pairwise_map, List.pairwise_filter]
  apply h.imp
  intro p q hlt hp hq
  rcases hlt with hbucket | ⟨-, hkey⟩
  · have hsame : p.1.bucket = q.1.bucket := (of_decide_eq_true hp).trans (of_decide_eq_true hq).symm
    rw [hsame] at hbucket
    exact absurd hbucket (String.lt_irrefl _)
  · exact hkey

end Store.Records

/-- A pipeline that replaces what it writes in a bucket. -/
def Pipeline.OnlyPuts (p : Pipeline) (bucket : String) : Prop :=
  ∀ c intents, p.apply c = .ok intents → ∀ i ∈ intents, i.bucket = bucket → i.kind = .put

/-- What a changelog keeps of a change, under its key. -/
def Changelog.line (l : Changelog) (c : Change) : String × Json.Value :=
  (l.key c.seq, entry c)

namespace Group

variable {ι : Type} {g : Group ι}

/-- The changes that were applied, in the order of the writes. -/
def applied (g : Group ι) : List Change := g.commits.flatMap Commit.changes

/-- What holds at any time of consumers that replace what they write in a bucket: the bucket is what
the changes that were applied make of it, and these lie beyond the first checkpoint. -/
structure Chronicle (rs : Records) (a : Address) (p : Pipeline) (bucket : String) (g : Group ι) :
    Prop where
  pipeline : ∀ i, (g.member i).consumer.pipeline = p
  ordered : Assoc.Ascending g.store
  from_le : standing rs a ≤ standing g.store a
  beyond : ∀ c ∈ g.applied, ∀ seq, some seq ≤ standing rs a → seq < c.seq
  accepted : ∀ c ∈ g.applied, ∃ intents, p.apply c = .ok intents
  data : ∀ key, g.store.value ⟨bucket, key⟩ =
    Data.applyAll rs.value (g.applied.flatMap p.intentsOf) ⟨bucket, key⟩

variable {rs : Records} {a : Address} {p : Pipeline} {bucket : String}

theorem Chronicle.begin {start : ι → Consumer} (hasc : Assoc.Ascending rs)
    (hpipeline : ∀ i, (start i).pipeline = p) : Chronicle rs a p bucket (begin rs start) where
  pipeline := hpipeline
  ordered := hasc
  from_le := standing_le_refl rs a
  beyond := fun _ hc => nomatch hc
  accepted := fun _ hc => nomatch hc
  data := fun _ => rfl

/-- A batch that is written goes on with the changelog. -/
theorem Chronicle.commit {known : List Records} (h : Chronicle rs a p bucket g)
    (hsound : Sound known a g) (hbucket : bucket ≠ a.bucket) (hputs : p.OnlyPuts bucket)
    {g' : Group ι} (hkeeps : ∀ i, (g.member i).consumer.Keeps (g'.member i).consumer) {i : ι}
    {ops : List BatchOp} {q : Checkpoint.Proposal} {after : AfterCommit}
    (hw : Writes known g i ops g'.store q after)
    (hs : Memory.stage g.store none ops = .ok g'.store)
    (hcommits : g'.commits = g.commits ++ [g.commitOf i g'.store]) :
    Chronicle rs a p bucket g' := by
  have haddr : q.address = a := hw.address hsound
  have happlied : g'.applied = g.applied ++ (g.member i).taken := by
    rw [applied, applied, hcommits, List.flatMap_append]
    simp [commitOf]
  have hpipeline : (g.member i).consumer.pipeline = p := h.pipeline i
  have haccepted : ∀ c ∈ (g.member i).taken, ∃ intents, p.apply c = .ok intents :=
    hpipeline ▸ hw.proposes.accepted
  have hintents : q.intents = (g.member i).taken.flatMap p.intentsOf :=
    hpipeline ▸ hw.proposes.intents
  have hle := hw.standing_le
  have hbetween := hw.between
  rw [haddr] at hle hbetween
  refine ⟨?_, ?_, le_standing_trans h.from_le hle, ?_, ?_, ?_⟩
  · intro j
    rw [(hkeeps j).pipeline, h.pipeline j]
  · rw [Memory.stage_eq_write hs]
    exact Store.Records.ascending_write h.ordered ops
  · intro c hc seq hseq
    rw [happlied] at hc
    rcases List.mem_append.1 hc with hc | hc
    · exact h.beyond c hc seq hseq
    · exact lt_of_le_of_standing_lt (le_standing_trans hseq h.from_le) (hbetween c hc).1
  · intro c hc
    rw [happlied] at hc
    rcases List.mem_append.1 hc with hc | hc
    · exact h.accepted c hc
    · exact haccepted c hc
  · intro key
    -- the intents of the batch only replace what is in the bucket
    have hvalue : g'.store.value ⟨bucket, key⟩ =
        Data.applyAll g.store.value q.intents ⟨bucket, key⟩ := by
      apply hw.grounded.value_of_puts hw.off hs
      · rw [haddr]
        rintro rfl
        exact hbucket rfl
      · intro x hx hat
        rw [hintents] at hx
        obtain ⟨c, hc, hx⟩ := List.mem_flatMap.1 hx
        obtain ⟨intents, happly⟩ := haccepted c hc
        rw [Pipeline.intentsOf_of_apply happly] at hx
        exact hputs c intents happly x hx (congrArg Address.bucket hat)
    rw [hvalue, happlied, List.flatMap_append, Data.applyAll_append, hintents]
    exact Data.applyAll_congr _ (h.data key)

variable [DecidableEq ι]

/-- Every event goes on with the changelog or leaves it as it is. -/
theorem Chronicle.step (h : Chronicle rs a p bucket g) (hinv : Inv a g)
    (hbucket : bucket ≠ a.bucket) (hputs : p.OnlyPuts bucket) (htell : TagsTell g.past a)
    (e : Event ι) (hforeign : ∀ b action, e = .foreign b action → b ≠ a ∧ b.bucket ≠ bucket) :
    Chronicle rs a p bucket (g.step e) := by
  have hkeeps := g.member_keeps e
  have hguards := htell.guardsTell hinv.tagged hinv.sound.present
  cases g.step_effect e with
  | none hstore hcommits =>
      refine ⟨?_, hstore ▸ h.ordered, hstore ▸ h.from_le, ?_, ?_, ?_⟩
      · intro j
        rw [(hkeeps j).pipeline, h.pipeline j]
      · rw [applied, hcommits]
        exact h.beyond
      · rw [applied, hcommits]
        exact h.accepted
      · rw [applied, hcommits, hstore]
        exact h.data
  | @foreign b action he hstore hcommits =>
      obtain ⟨hne, hother⟩ := hforeign b action he
      refine ⟨?_, ?_, ?_, ?_, ?_, ?_⟩
      · intro j
        rw [(hkeeps j).pipeline, h.pipeline j]
      · rw [hstore]
        exact Store.Records.ascending_set h.ordered b action.result
      · rw [hstore, standing_set_of_ne _ hne]
        exact h.from_le
      · rw [applied, hcommits]
        exact h.beyond
      · rw [applied, hcommits]
        exact h.accepted
      · intro key
        have hkey : (⟨bucket, key⟩ : Address) ≠ b := by
          rintro rfl
          exact hother rfl
        rw [applied, hcommits, hstore, Records.value, Records.find?_set, if_neg hkey]
        exact h.data key
  | @written i ops hreq hs hcommits =>
      obtain ⟨q, after, hw⟩ := hinv.sound.writes hguards hreq hs
      exact h.commit hinv.sound hbucket hputs hkeeps hw hs hcommits

/-- A whole run does. -/
theorem Chronicle.run {start : ι → Consumer} (htag : rs.Tagged) (hasc : Assoc.Ascending rs)
    (hfresh : ∀ i, (start i).phase = .starting) (haddress : ∀ i, (start i).checkpoint = a)
    (hpipeline : ∀ i, (start i).pipeline = p) (hoff : p.KeepsOff a) (hbucket : bucket ≠ a.bucket)
    (hputs : p.OnlyPuts bucket) (events : List (Event ι))
    (hforeign : ∀ b action, .foreign b action ∈ events → b ≠ a ∧ b.bucket ≠ bucket)
    (htell : TagsTell ((Group.begin rs start).run events).past a) :
    Chronicle rs a p bucket ((Group.begin rs start).run events) := by
  have hoff' : ∀ i, (start i).pipeline.KeepsOff a := fun i => (hpipeline i).symm ▸ hoff
  -- from the end: the last event is one step of a group whose past the tags tell apart
  induction events using List.reverseRecOn with
  | nil => exact Chronicle.begin hasc hpipeline
  | append_singleton events e ih =>
      rw [run_append_singleton] at htell ⊢
      have htell' := htell.mono fun _ => mem_past_step (e := e)
      have hforeign' : ∀ b action, .foreign b action ∈ events → b ≠ a ∧ b.bucket ≠ bucket :=
        fun b action hmem => hforeign b action (List.mem_append_left _ hmem)
      have hinv := Inv.run htag hfresh haddress hoff' events
        (fun b action hmem => (hforeign' b action hmem).1) htell'
      apply (ih hforeign' htell').step hinv hbucket hputs htell'
      rintro b action rfl
      exact hforeign b action (List.mem_append_right _ (List.mem_singleton_self _))

omit [DecidableEq ι] in
/-- The lines of changes in ascending order stand in the order of their keys, behind those of the
changes before them. -/
theorem ascending_lines {l : Changelog} {old : List (String × Json.Value)} {changes : List Change}
    (hold : Assoc.Ascending old) (hchanges : Ascending changes)
    (hbeyond : ∀ line ∈ old, ∀ c ∈ changes, line.1 < l.key c.seq) :
    Assoc.Ascending (old ++ changes.map l.line) := by
  rw [Assoc.Ascending, List.pairwise_append]
  refine ⟨hold, ?_, ?_⟩
  · rw [List.pairwise_map]
    exact hchanges.imp fun hlt => l.key_lt_of_lt hlt
  · intro line hline other hother
    obtain ⟨c, hc, rfl⟩ := List.mem_map.1 hother
    exact hbeyond line hline c hc

/-- What changes in ascending order make of the bucket of a changelog: their lines, behind what was
there before. -/
theorem find?_lines {l : Changelog} (hlogs : p.Logs l) {old : List (String × Json.Value)} {d : Data}
    (hfind : ∀ key, Assoc.find? key old = d ⟨l.bucket, key⟩) {changes : List Change}
    (haccepted : ∀ c ∈ changes, ∃ intents, p.apply c = .ok intents)
    (hasc : Assoc.Ascending (old ++ changes.map l.line)) (key : String) :
    Assoc.find? key (old ++ changes.map l.line) =
      d.applyAll (changes.flatMap p.intentsOf) ⟨l.bucket, key⟩ := by
  induction changes using List.reverseRecOn with
  | nil =>
      rw [List.map_nil, List.append_nil]
      exact hfind key
  | append_singleton changes c ih =>
      obtain ⟨intents, happly⟩ := haccepted c (List.mem_append_right _ (List.mem_singleton_self c))
      rw [List.map_append, ← List.append_assoc] at hasc ⊢
      have hbefore := ih (fun x hx => haccepted x (List.mem_append_left _ hx))
        (List.pairwise_append.1 hasc).1
      rw [List.flatMap_append, Data.applyAll_append, List.flatMap_singleton,
        Pipeline.intentsOf_of_apply happly, hlogs.applyAll_intents happly, ← hbefore,
        List.map_singleton, Assoc.find?_append, Assoc.find?_cons, Assoc.find?_nil]
      by_cases hkey : key = l.key c.seq
      · -- no line before has the key of this one
        have hnone : Assoc.find? key (old ++ changes.map l.line) = none := by
          rw [Assoc.find?_eq_none]
          intro hmem
          obtain ⟨line, hline, heq⟩ := List.mem_map.1 hmem
          have hlt := (List.pairwise_append.1 hasc).2.2 line hline _ (List.mem_singleton_self _)
          rw [heq, hkey] at hlt
          exact String.lt_irrefl _ hlt
        rw [hnone]
        simp [hkey, Changelog.line]
      · simp [hkey, Changelog.line]

/-! ## Streams with a changelog -/

/-- A group of instances of one stream that are about to begin. -/
def ofStream (rs : Records) (d : StreamDefinition) (p : Pipeline)
    (settings : ι → SupervisorSettings) : Group ι :=
  begin rs fun i => .new d p (settings i)

end Group

/-- A stream keeps a changelog: one trigger of its chain is the changelog, no other trigger writes
its bucket, and none writes the checkpoints. -/
structure StreamDefinition.Chronicles (d : StreamDefinition) (l : Changelog)
    (checkpoints : String) : Prop where
  chain : ∃ earlier spec later, d.chain = earlier ++ spec :: later ∧ spec.kind = "changelog" ∧
    Changelog.ofSpec spec = .ok l ∧ ∀ s ∈ earlier ++ later, s.target ≠ l.bucket
  targets : ∀ s ∈ d.chain, s.target ≠ checkpoints

theorem StreamDefinition.Chronicles.logs {d : StreamDefinition} {l : Changelog}
    {checkpoints : String} (h : d.Chronicles l checkpoints) {p : Pipeline}
    (hbuild : Registry.builtins.build d.consumer d.chain = .ok p) :
    p.Logs l ∧ l.bucket ≠ checkpoints := by
  obtain ⟨earlier, spec, later, hchain, hkind, hl, hown⟩ := h.chain
  have hbucket := Changelog.ofSpec_bucket hl
  rw [hbucket] at hown ⊢
  refine ⟨Registry.build_logs hbuild hchain hkind hl hown, h.targets spec ?_⟩
  rw [hchain]
  exact List.mem_append_right _ List.mem_cons_self

namespace Changelog

variable {ι : Type} [DecidableEq ι]

/-- After any run of instances of a stream that keeps a changelog, the bucket of the changelog, read
in the order of its keys, is what it was with the lines of the applied changes behind it, in the
order of their numbers. -/
theorem bucket_run {rs : Records} {d : StreamDefinition} {p : Pipeline} {l : Changelog}
    {checkpoints : String} {settings : ι → SupervisorSettings} {events : List (Group.Event ι)}
    (htag : rs.Tagged) (hasc : Assoc.Ascending rs)
    (hbuild : Registry.builtins.build d.consumer d.chain = .ok p)
    (hcheckpoints : ∀ i, (settings i).checkpoints = checkpoints)
    (hd : d.Chronicles l checkpoints)
    (hold : ∀ line ∈ rs.bucket l.bucket, ∃ seq,
      line.1 = l.key seq ∧ some seq ≤ standing rs ⟨checkpoints, d.consumer⟩)
    (hforeign : ∀ b action, .foreign b action ∈ events →
      b ≠ ⟨checkpoints, d.consumer⟩ ∧ b.bucket ≠ l.bucket)
    (htell : TagsTell ((Group.ofStream rs d p settings).run events).past ⟨checkpoints, d.consumer⟩) :
    let g := (Group.ofStream rs d p settings).run events
    Ascending g.applied ∧ Assoc.Ascending (g.store.bucket l.bucket) ∧
      g.store.bucket l.bucket = rs.bucket l.bucket ++ g.applied.map l.line := by
  intro g
  obtain ⟨hlogs, hapart⟩ := hd.logs hbuild
  have haddress : ∀ i, (Consumer.new d p (settings i)).checkpoint = ⟨checkpoints, d.consumer⟩ := by
    intro i
    rw [← hcheckpoints i]
    rfl
  have hoff : p.KeepsOff ⟨checkpoints, d.consumer⟩ := Registry.build_keepsOff hbuild hd.targets
  have hascending : Ascending g.applied :=
    (Group.Inv.run htag (fun _ => rfl) haddress (fun _ => hoff) events
      (fun b action hmem => (hforeign b action hmem).1) htell).sound.journal.ascending
  have hchronicle : g.Chronicle rs ⟨checkpoints, d.consumer⟩ p l.bucket :=
    Group.Chronicle.run htag hasc (fun _ => rfl) haddress (fun _ => rfl) hoff hapart
      (fun _ _ happly _ hi hbucket => hlogs.kind_eq_put happly hi hbucket) events hforeign htell
  have hlines : Assoc.Ascending (rs.bucket l.bucket ++ g.applied.map l.line) := by
    apply Group.ascending_lines (Store.Records.ascending_bucket hasc l.bucket) hascending
    intro line hline c hc
    obtain ⟨seq, hkey, hseq⟩ := hold line hline
    rw [hkey]
    exact l.key_lt_of_lt (hchronicle.beyond c hc seq hseq)
  have hbucket := Store.Records.ascending_bucket hchronicle.ordered l.bucket
  refine ⟨hascending, hbucket, hbucket.ext hlines ?_⟩
  intro key
  rw [Store.Records.find?_bucket, hchronicle.data key]
  exact (Group.find?_lines hlogs (Store.Records.find?_bucket rs l.bucket) hchronicle.accepted hlines
    key).symm

/-- A changelog is in source order. Two changes are put under one key only if the prefixes and the
numbers are the same, and under one prefix the keys stand in the order of the numbers. So after any
run the bucket, read in the order of its keys, goes on with all applied changes in the order of their
numbers, none of them in the place of another. -/
theorem in_source_order :
    (∀ (l l' : Changelog) (c c' : Change), ∃ i i', l.transform c = .ok [i] ∧
      l'.transform c' = .ok [i'] ∧
      (i.key = i'.key ↔ l.keyPrefix = l'.keyPrefix ∧ c.seq = c'.seq) ∧
      (l.keyPrefix = l'.keyPrefix → (i.key < i'.key ↔ c.seq < c'.seq))) ∧
    ∀ (rs : Records) (d : StreamDefinition) (p : Pipeline) (l : Changelog) (checkpoints : String)
      (settings : ι → SupervisorSettings) (events : List (Group.Event ι)),
      rs.Tagged → Assoc.Ascending rs →
      Registry.builtins.build d.consumer d.chain = .ok p →
      (∀ i, (settings i).checkpoints = checkpoints) → d.Chronicles l checkpoints →
      (∀ line ∈ rs.bucket l.bucket, ∃ seq,
        line.1 = l.key seq ∧ some seq ≤ standing rs ⟨checkpoints, d.consumer⟩) →
      (∀ b action, .foreign b action ∈ events →
        b ≠ ⟨checkpoints, d.consumer⟩ ∧ b.bucket ≠ l.bucket) →
      TagsTell ((Group.ofStream rs d p settings).run events).past ⟨checkpoints, d.consumer⟩ →
      let g := (Group.ofStream rs d p settings).run events
      Ascending g.applied ∧ Assoc.Ascending (g.store.bucket l.bucket) ∧
        g.store.bucket l.bucket =
          rs.bucket l.bucket ++ g.applied.map fun c => (l.key c.seq, entry c) := by
  constructor
  · intro l l' c c'
    refine ⟨_, _, rfl, rfl, key_eq_iff, ?_⟩
    intro hsame
    have hkey : l'.key c'.seq = l.key c'.seq := key_eq_iff.2 ⟨hsame.symm, rfl⟩
    change l.key c.seq < l'.key c'.seq ↔ c.seq < c'.seq
    rw [hkey]
    exact key_lt_iff
  · intro rs d p l checkpoints settings events htag hasc hbuild hcheckpoints hd hold hforeign htell
    exact bucket_run htag hasc hbuild hcheckpoints hd hold hforeign htell

/-- A log of all changes, under keys with a prefix. -/
def journal : StreamDefinition :=
  ⟨"log", .subtree "", [{
    kind := "changelog"
    bucket := some "changes"
    options := [("key_prefix", .string "dc1-")] }]⟩

/-- Its pipeline. -/
def journalPipeline : Pipeline where
  consumer := "log"
  stages := [trigger { bucket := "changes", keyPrefix := "dc1-" }]

/-- Batches of two changes. -/
def pairs : SupervisorSettings := { consumer := { batch := { maxEvents := 2 } } }

/-- An instance commits two changes at once, whose numbers differ by a digit, and crashes before it
is told. -/
def crossing : List (Group.Event Unit) :=
  let m : Moment := { now := { nanos := 0 } }
  let change (dn : String) (seq : UInt64) : Change := ⟨seq, .add, dn, [("cn", ["x"])], []⟩
  [.signal () m (.start false), .read () m none, .signal () m (.subscribed (.ok ())),
    .signal () m (.item (.ok (some (.event (change "cn=ann,dc=x" 9))))),
    .signal () m (.item (.ok (some (.event (change "cn=bob,dc=x" 10))))),
    .read () m none, .read () m none, .read () m none,
    .write () m (.unreported (.unavailable "put_batch" "no answer")), .restart () {} {}]

set_option maxRecDepth 100000 in
theorem in_source_order_crossing :
    let g := (Group.ofStream [] journal journalPipeline fun _ => pairs).run crossing
    g.applied.map Change.seq = [9, 10] ∧
      (g.store.bucket "changes").map Prod.fst =
        ["dc1-00000000000000000009", "dc1-00000000000000000010"] ∧
      (g.store.bucket "changes").head? = some ("dc1-00000000000000000009", .object
        [("changenumber", .int 9), ("changes", .object [("cn", .array [.string "x"])]),
          ("changetype", .string "add"), ("targetdn", .string "cn=ann,dc=x")]) := by
  intro g
  have hseqs : g.applied.map Change.seq = [9, 10] := by decide +kernel
  have hd : journal.Chronicles { bucket := "changes", keyPrefix := "dc1-" }
      Checkpoint.defaultBucket :=
    ⟨⟨[], _, [], rfl, rfl, rfl, by decide⟩, by decide⟩
  have htell : TagsTell g.past ⟨Checkpoint.defaultBucket, "log"⟩ := by
    apply Store.tagsTell_of_pairwise
    decide +kernel
  obtain ⟨-, -, hbucket⟩ := (in_source_order (ι := Unit)).2 [] journal journalPipeline
    { bucket := "changes", keyPrefix := "dc1-" } Checkpoint.defaultBucket (fun _ => pairs) crossing
    Store.Records.tagged_nil Assoc.Ascending.nil rfl (fun _ => rfl) hd
    (fun _ hline => nomatch hline) (fun b action hmem => by simp [crossing] at hmem) htell
  have hkeys : (g.store.bucket "changes").map Prod.fst =
      (g.applied.map Change.seq).map (key { bucket := "changes", keyPrefix := "dc1-" }) := by
    rw [hbucket]
    simp [Store.Records.bucket]
    rfl
  refine ⟨hseqs, ?_, ?_⟩
  · rw [hkeys, hseqs]
    decide +kernel
  · rw [hbucket]
    decide +kernel

end Changelog

end ChangeRelay
