import ChangeRelay.Config.Startup
import ChangeRelay.Proofs.Assoc

/-!
# What a check foretells

A relay that is started by a file that passed its check gets all its streams under way, but for
what the check does not look at. A URL passes if it is not empty, while the client that is to
connect may still refuse it, and the relay then ends with a fault of its configuration. A time of
nothing between two reports of the health passes too, and the relay comes down when it sets up the
clock for them. A database file is opened by the run alone.
-/

namespace ChangeRelay

namespace Config

variable {accepts : String → Bool} (retry : Retry)

/-! ## Opening the two ends -/

/-- The URLs that a source is opened with. -/
def Source.urls : Source → List String
  | .redis url _ _ _ => [url]
  | .memory => []

/-- The URLs that a destination is opened with. -/
def Destination.urls : Destination → List String
  | .redis url _ => [url]
  | _ => []

/-- The files that a destination is opened with. -/
def Destination.files : Destination → List String
  | .sqlite path => [path]
  | _ => []

theorem Source.openBy_of_accepted {s : Source} (h : ∀ url ∈ s.urls, accepts url = true) :
    ∃ opened, s.openBy accepts retry = .ok opened := by
  cases s with
  | memory => exact ⟨_, rfl⟩
  | redis url streamKey blockTimeout batchSize =>
      have hurl : accepts url = true := h url List.mem_cons_self
      simp [openBy, Redis.Connector.ofUrl, hurl]

theorem Source.openBy_of_refused {s : Source} {url : String} (hmem : url ∈ s.urls)
    (h : accepts url = false) : ∃ text, s.openBy accepts retry = .error (.config text) := by
  cases s with
  | memory => cases hmem
  | redis url' streamKey blockTimeout batchSize =>
      obtain rfl := List.mem_singleton.1 hmem
      simp [openBy, Redis.Connector.ofUrl, h, badUrl]

theorem Destination.openBy_of_refused {d : Destination} {url : String} (hmem : url ∈ d.urls)
    (h : accepts url = false) : ∃ text, d.openBy accepts retry = .error (.config text) := by
  cases d with
  | memory => cases hmem
  | sqlite path => cases hmem
  | redis url' keyPrefix =>
      obtain rfl := List.mem_singleton.1 hmem
      simp [openBy, Redis.Connector.ofUrl, h]

end Config

namespace StreamDefinition

variable {d : StreamDefinition} {checkpoints : String}

theorem isBlankText_of_validate (h : d.validate checkpoints = .ok ()) :
    Text.isBlankText d.consumer = false := by
  unfold validate at h
  split at h
  · cases h
  · rename_i hnamed
    exact Bool.eq_false_iff.2 hnamed

theorem prepare_of_validate (h : d.validate checkpoints = .ok ()) (registry : Registry) :
    d.prepare registry checkpoints = registry.build d.consumer d.chain := by
  rw [prepare, h]

end StreamDefinition

namespace Supervisor

variable {s : Supervisor} {d : StreamDefinition}

theorem checkAdd_eq_ok (hopen : s.shuttingDown = false)
    (hnamed : Text.isBlankText d.consumer = false) : s.checkAdd d = .ok () := by
  simp [checkAdd, hopen, hnamed]

/-- A stream of a new name that has a pipeline is entered. -/
theorem register_of_new (hnew : Assoc.contains d.consumer s.streams = false) (pipeline : Pipeline)
    (worker : Nat) :
    ∃ s' readings, s.register d (.ok pipeline) worker = (s', .ok pipeline, readings) ∧
      s'.shuttingDown = s.shuttingDown ∧
      ∀ id, Assoc.contains id s'.streams = true ↔
        id = d.consumer ∨ Assoc.contains id s.streams = true := by
  rw [register, if_neg (Bool.eq_false_iff.1 hnew)]
  refine ⟨_, _, rfl, rfl, ?_⟩
  intro id
  by_cases hid : id = d.consumer <;> simp [Assoc.contains, Assoc.find?_insert, hid]

end Supervisor

namespace Configuration

open Config (Destination)

/-! ## Adding the streams -/

/-- Streams that were checked one by one are all entered. -/
theorem exists_addStreams {registry : Registry} {checkpoints : String} {seen : List String}
    {ds : List StreamDefinition} {s : Supervisor}
    (hvalid : validateStreams checkpoints seen ds = .ok ())
    (hchains : checkChains registry ds = .ok ()) (hopen : s.shuttingDown = false)
    (hseen : ∀ id, Assoc.contains id s.streams = true → id ∈ seen) :
    ∃ s', addStreams registry checkpoints s ds = .ok s' ∧
      ∀ id, Assoc.contains id s'.streams = true ↔
        (∃ d ∈ ds, d.consumer = id) ∨ Assoc.contains id s.streams = true := by
  induction ds generalizing seen s with
  | nil => exact ⟨s, rfl, by simp⟩
  | cons d rest ih =>
      -- what the check has found out about the first stream
      unfold validateStreams at hvalid
      split at hvalid
      · cases hvalid
      · rename_i hd
        split at hvalid
        · cases hvalid
        · rename_i hfresh
          obtain ⟨pipeline, hbuild, hchains⟩ := bind_eq_ok.1 hchains
          have hnew : Assoc.contains d.consumer s.streams = false := by
            rw [Bool.eq_false_iff]
            intro hcontains
            exact hfresh (List.contains_iff_mem.2 (hseen _ hcontains))
          obtain ⟨s₁, readings, hregister, hopen₁, hstreams₁⟩ :=
            Supervisor.register_of_new hnew pipeline s.streams.length
          -- so the first stream is entered, and the others meet the same situation
          have hseen₁ : ∀ id, Assoc.contains id s₁.streams = true → id ∈ d.consumer :: seen := by
            intro id hid
            rcases (hstreams₁ id).1 hid with rfl | hid
            · exact List.mem_cons_self
            · exact List.mem_cons_of_mem _ (hseen id hid)
          obtain ⟨s', hadd, hstreams⟩ := ih hvalid hchains (hopen₁.trans hopen) hseen₁
          refine ⟨s', ?_, ?_⟩
          · rw [addStreams, Supervisor.checkAdd_eq_ok hopen (d.isBlankText_of_validate hd),
              d.prepare_of_validate hd, hbuild, hregister]
            exact hadd
          · intro id
            rw [hstreams, hstreams₁]
            simp only [List.mem_cons, exists_eq_or_imp, eq_comm (a := id)]
            rw [or_assoc, or_left_comm]

/-! ## Starting -/

/-- The client refuses a URL of the configuration. -/
def Refused (c : Configuration) (around : Surroundings) : Prop :=
  ∃ url ∈ c.source.urls ++ c.destination.urls, around.accepts url = false

/-- The database file of the configuration cannot be opened. -/
def Closed (c : Configuration) (around : Surroundings) : Prop :=
  ∃ file ∈ c.destination.files, around.canOpen file = false

/-- What a check has found out about the streams of a configuration. -/
structure Checked (c : Configuration) : Prop where
  streams : validateStreams c.settings.checkpoints [] c.streams = .ok ()
  chains : checkChains .builtins c.streams = .ok ()

variable {around : Surroundings} {c : Configuration} {path : String}

theorem openDestination_of_refused {d : Destination} (retry : Retry) {url : String}
    (hmem : url ∈ d.urls) (h : around.accepts url = false) :
    ∃ text, openDestination around d retry = .error (.config text) := by
  obtain ⟨text, hopen⟩ := d.openBy_of_refused retry hmem h
  exact ⟨text, by rw [openDestination, hopen]; rfl⟩

theorem openDestination_of_closed {d : Destination} (retry : Retry) {file : String}
    (hmem : file ∈ d.files) (h : around.canOpen file = false) :
    ∃ text, openDestination around d retry = .error (.transientStore "open" text) := by
  cases d with
  | memory => cases hmem
  | redis url keyPrefix => cases hmem
  | sqlite path =>
      obtain rfl := List.mem_singleton.1 hmem
      exact ⟨_, if_neg (Bool.eq_false_iff.1 h)⟩

theorem openDestination_of_open {d : Destination} (retry : Retry)
    (hurls : ∀ url ∈ d.urls, around.accepts url = true)
    (hfiles : ∀ file ∈ d.files, around.canOpen file = true) :
    ∃ opened, openDestination around d retry = .ok opened := by
  cases d with
  | memory => exact ⟨_, rfl⟩
  | sqlite path => exact ⟨_, if_pos (hfiles path List.mem_cons_self)⟩
  | redis url keyPrefix =>
      have hurl : around.accepts url = true := hurls url List.mem_cons_self
      refine ⟨.redis { name := "destination", retry } ⟨keyPrefix⟩, ?_⟩
      rw [openDestination, Destination.openBy, Redis.Connector.ofUrl, if_pos hurl]
      rfl

theorem accepts_of_not_refused (h : ¬ c.Refused around) :
    (∀ url ∈ c.source.urls, around.accepts url = true) ∧
      ∀ url ∈ c.destination.urls, around.accepts url = true := by
  rw [← List.forall_mem_append]
  intro url hmem
  rw [← Bool.not_eq_false]
  exact fun hrefused => h ⟨url, hmem, hrefused⟩

/-- Starting with a source that can be opened. -/
theorem start_eq {source : Config.OpenSource}
    (h : c.source.openBy around.accepts c.settings.supervisor.consumer.retry = .ok source) :
    c.start around =
      (openDestination around c.destination c.settings.supervisor.consumer.retry >>=
        fun destination => addStreams .builtins c.settings.checkpoints {} c.streams >>=
          fun supervisor => .ok { source, destination, supervisor }) := by
  rw [start, h]
  rfl

theorem start_of_refused (h : c.Refused around) :
    ∃ text, c.start around = .error (.config text) := by
  obtain ⟨url, hmem, hrefused⟩ := h
  by_cases hsource : ∀ url ∈ c.source.urls, around.accepts url = true
  · -- the source opens, so that it is the destination that does not
    have hdestination : url ∈ c.destination.urls := by
      refine (List.mem_append.1 hmem).resolve_left fun hmem => ?_
      exact Bool.false_ne_true (hrefused.symm.trans (hsource url hmem))
    obtain ⟨source, hopened⟩ := Config.Source.openBy_of_accepted _ hsource
    obtain ⟨text, hrefused⟩ := openDestination_of_refused _ hdestination hrefused
    refine ⟨text, ?_⟩
    rw [start_eq hopened, hrefused]
    rfl
  · obtain ⟨url, hmem, hurl⟩ : ∃ url ∈ c.source.urls, around.accepts url = false := by
      simpa using hsource
    obtain ⟨text, hrefused⟩ := Config.Source.openBy_of_refused _ hmem hurl
    refine ⟨text, ?_⟩
    rw [start, hrefused]
    rfl

theorem start_of_closed (h : ¬ c.Refused around) (hclosed : c.Closed around) :
    ∃ text, c.start around = .error (.transientStore "open" text) := by
  obtain ⟨file, hmem, hfile⟩ := hclosed
  obtain ⟨source, hopened⟩ := Config.Source.openBy_of_accepted _ (accepts_of_not_refused h).1
  obtain ⟨text, hdestination⟩ := openDestination_of_closed _ hmem hfile
  refine ⟨text, ?_⟩
  rw [start_eq hopened, hdestination]
  rfl

/-- Where both ends can be opened, all streams of a checked configuration get under way. -/
theorem start_of_checked (hchecked : c.Checked) (hrefused : ¬ c.Refused around)
    (hclosed : ¬ c.Closed around) :
    ∃ started, c.start around = .ok started ∧
      ∀ id, Assoc.contains id started.supervisor.streams = true ↔
        ∃ d ∈ c.streams, d.consumer = id := by
  obtain ⟨hsource, hurls⟩ := accepts_of_not_refused hrefused
  have hfiles : ∀ file ∈ c.destination.files, around.canOpen file = true := by
    intro file hmem
    rw [← Bool.not_eq_false]
    exact fun hfile => hclosed ⟨file, hmem, hfile⟩
  obtain ⟨source, hsource⟩ := Config.Source.openBy_of_accepted _ hsource
  obtain ⟨destination, hdestination⟩ := openDestination_of_open _ hurls hfiles
  have hnone : ∀ id, Assoc.contains id ({} : Supervisor).streams = true → id ∈ ([] : List String) :=
    fun _ h => nomatch h
  obtain ⟨supervisor, hadd, hstreams⟩ :=
    exists_addStreams hchecked.streams hchecked.chains rfl hnone
  refine ⟨{ source, destination, supervisor }, ?_, ?_⟩
  · rw [start_eq hsource, hdestination, hadd]
    rfl
  · intro id
    rw [hstreams, or_iff_left]
    exact fun h => nomatch h

/-! ## Checking and running -/

/-- A file that passes its check holds a configuration whose streams were found to be in order. -/
theorem exists_load_of_valid (h : validateCommand around path = .done) :
    ∃ c, load around path = .ok c ∧ c.Checked := by
  unfold validateCommand at h
  split at h
  · rename_i n hcheck
    obtain ⟨c, hload, hchains⟩ := bind_eq_ok.1 hcheck
    obtain ⟨_, hchains, -⟩ := bind_eq_ok.1 hchains
    refine ⟨c, hload, ?_, hchains⟩
    -- the streams were checked last
    unfold load at hload
    split at hload
    · cases hload
    · obtain ⟨c', -, hvalidate⟩ := bind_eq_ok.1 hload
      obtain ⟨_, hvalidate, hc⟩ := bind_eq_ok.1 hvalidate
      cases hc
      obtain ⟨_, -, hvalidate⟩ := bind_eq_ok.1 hvalidate
      obtain ⟨_, -, hvalidate⟩ := bind_eq_ok.1 hvalidate
      obtain ⟨_, -, hstreams⟩ := bind_eq_ok.1 hvalidate
      exact hstreams
  · cases h

theorem runCommand_of_start_error (hload : load around path = .ok c) {e : StreamFault}
    (h : c.start around = .error e) : runCommand around path = .failed e := by
  simp only [runCommand, hload, h]

theorem runCommand_of_start (hload : load around path = .ok c) {started : Started}
    (h : c.start around = .ok started) :
    runCommand around path = if c.settings.healthInterval.nanos = 0 then .aborted else .done := by
  simp only [runCommand, hload, h]

/-- What becomes of a run by a file that passed its check: it fails by its configuration where the
client refuses a URL and nowhere else, it is aborted where the time between two reports is nothing
and nowhere else, and all its streams get under way where both ends can be opened. -/
theorem runCommand_of_valid (h : validateCommand around path = .done) :
    ∃ c, load around path = .ok c ∧
      ((∃ e, runCommand around path = .failed e ∧ Ending.isConfigFault e = true) ↔
        c.Refused around) ∧
      (runCommand around path = .aborted ↔
        ¬ c.Refused around ∧ ¬ c.Closed around ∧ c.settings.healthInterval.nanos = 0) ∧
      (runCommand around path = .done ↔
        ¬ c.Refused around ∧ ¬ c.Closed around ∧ c.settings.healthInterval.nanos ≠ 0) ∧
      (¬ c.Refused around → ¬ c.Closed around →
        ∃ started, c.start around = .ok started ∧
          ∀ id, Assoc.contains id started.supervisor.streams = true ↔
            ∃ d ∈ c.streams, d.consumer = id) := by
  obtain ⟨c, hload, hchecked⟩ := exists_load_of_valid h
  refine ⟨c, hload, ?_⟩
  by_cases hrefused : c.Refused around
  · obtain ⟨text, hstart⟩ := start_of_refused hrefused
    have hrun := runCommand_of_start_error hload hstart
    simp [hrun, hrefused, Ending.isConfigFault]
  · by_cases hclosed : c.Closed around
    · obtain ⟨text, hstart⟩ := start_of_closed hrefused hclosed
      have hrun := runCommand_of_start_error hload hstart
      simp [hrun, hrefused, hclosed, Ending.isConfigFault]
    · obtain ⟨started, hstart, hstreams⟩ := start_of_checked hchecked hrefused hclosed
      have hrun := runCommand_of_start hload hstart
      refine ⟨?_, ?_, ?_, fun _ _ => ⟨started, hstart, hstreams⟩⟩ <;>
        by_cases hnanos : c.settings.healthInterval.nanos = 0 <;>
          simp [hrun, hrefused, hclosed, hnanos]

/-- Nothing but one file, whose relay reports its health all the time. -/
def restless : Surroundings where
  file? _ := some "source:
 type: memory
destination:
 type: memory
settings:
 health_log_interval: 0s
streams:
- consumer_id: people
  source_query:
   base_dn: dc=x
  trigger_chain:
  - kind: mirror
"
  canOpen _ := false

/-- What the file says. -/
def restlessRelay : Configuration :=
  { testing with
    settings := { healthLogInterval := "0s" }
    streams := [⟨"people", { baseDn := "dc=x" }, [{ kind := "mirror" }]⟩] }

theorem runCommand_of_valid_restless :
    validateCommand restless "relay.yaml" = .done ∧
      runCommand restless "relay.yaml" = .aborted := by
  have hload : load restless "relay.yaml" = .ok restlessRelay := by decide +kernel
  have hvalid : validateCommand restless "relay.yaml" = .done := by
    rw [validateCommand, check, hload]
    rfl
  obtain ⟨c, hc, -, haborted, -⟩ := runCommand_of_valid hvalid
  cases hload.symm.trans hc
  refine ⟨hvalid, haborted.2 ⟨?_, ?_, by decide⟩⟩
  · rintro ⟨url, hmem, -⟩
    cases hmem
  · rintro ⟨file, hmem, -⟩
    cases hmem

end Configuration

end ChangeRelay
