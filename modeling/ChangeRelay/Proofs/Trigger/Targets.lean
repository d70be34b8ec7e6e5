import ChangeRelay.Checkpoint
import ChangeRelay.Trigger.Registry

/-!
# Where triggers write

The built-in triggers write no bucket but their own, so that a chain whose buckets are not the one
of the checkpoints keeps off every checkpoint.
-/

namespace ChangeRelay

open Store (Address)

/-- All intents of a trigger name one bucket. -/
def Trigger.WritesOnly (t : Trigger) (bucket : String) : Prop :=
  ∀ consumer change intents, t.transform consumer change = .ok intents →
    ∀ i ∈ intents, i.bucket = bucket

/-- No intent of a pipeline names a record. -/
def Pipeline.KeepsOff (p : Pipeline) (a : Address) : Prop :=
  ∀ change intents, p.apply change = .ok intents →
    ∀ i ∈ intents, Checkpoint.intentAddress i ≠ a

theorem exists_of_map_eq_ok {e : Except ε α} {f : α → β} {b : β} (h : e.map f = .ok b) :
    ∃ a, e = .ok a ∧ f a = b := by
  cases e with
  | error e => cases h
  | ok a =>
      cases h
      exact ⟨a, rfl, rfl⟩

theorem Mirror.trigger_writesOnly (m : Mirror) : m.trigger.WritesOnly m.bucket := by
  intro consumer change intents h i hi
  simp only [Mirror.trigger, Mirror.transform] at h
  split at h
  · cases h
  · split at h
    · -- an added entry
      split at h
      · cases h
      · cases h
        rw [List.mem_singleton.1 hi]
        rfl
    · -- a modified entry, whose patch may be empty
      cases h
      split at hi
      · cases hi
      · rw [List.mem_singleton.1 hi]
        rfl
    · cases h
      rw [List.mem_singleton.1 hi]
      rfl

theorem Changelog.trigger_writesOnly (l : Changelog) : l.trigger.WritesOnly l.bucket := by
  intro consumer change intents h i hi
  simp only [Changelog.trigger, Changelog.transform] at h
  cases h
  rw [List.mem_singleton.1 hi]
  rfl

theorem Mirror.ofSpec_bucket {spec : TriggerSpec} {m : Mirror} (h : ofSpec spec = .ok m) :
    m.bucket = spec.target := by
  obtain ⟨names, -, rfl⟩ := exists_of_map_eq_ok h
  rfl

theorem Changelog.ofSpec_bucket {spec : TriggerSpec} {l : Changelog} (h : ofSpec spec = .ok l) :
    l.bucket = spec.target := by
  obtain ⟨name, -, rfl⟩ := exists_of_map_eq_ok h
  rfl

namespace Registry

theorem find?_builtins {kind : String} {make : TriggerSpec → Except String Trigger}
    (h : Assoc.find? kind builtins = some make) :
    make = (fun s => (Mirror.ofSpec s).map Mirror.trigger) ∨
      make = (fun s => (Changelog.ofSpec s).map Changelog.trigger) := by
  -- the table of the built-in triggers, with its two entries
  have hbuiltins : builtins =
      Assoc.insert "changelog" (fun s => (Changelog.ofSpec s).map Changelog.trigger)
        (Assoc.insert "mirror" (fun s => (Mirror.ofSpec s).map Mirror.trigger) []) := rfl
  rw [hbuiltins, Assoc.find?_insert, Assoc.find?_insert] at h
  split at h
  · exact .inr (Option.some_inj.1 h).symm
  · split at h
    · exact .inl (Option.some_inj.1 h).symm
    · cases h

/-- A built-in trigger writes the bucket that its specification names. -/
theorem buildStage_writesOnly {consumer : String} {spec : TriggerSpec} {t : Trigger}
    (h : builtins.buildStage consumer spec = .ok t) : t.WritesOnly spec.target := by
  unfold buildStage at h
  split at h
  · cases h
  · rename_i make hmake
    split at h
    · rename_i t' hmade
      cases h
      rcases find?_builtins hmake with rfl | rfl
      · obtain ⟨m, hm, rfl⟩ := exists_of_map_eq_ok hmade
        exact Mirror.ofSpec_bucket hm ▸ m.trigger_writesOnly
      · obtain ⟨l, hl, rfl⟩ := exists_of_map_eq_ok hmade
        exact Changelog.ofSpec_bucket hl ▸ l.trigger_writesOnly
    · cases h

theorem buildStages_writesOnly {consumer : String} {chain : List TriggerSpec}
    {stages : List Trigger} (h : builtins.buildStages consumer chain = .ok stages) :
    ∀ t ∈ stages, ∃ spec ∈ chain, t.WritesOnly spec.target := by
  induction chain generalizing stages with
  | nil =>
      cases h
      exact fun _ ht => nomatch ht
  | cons spec rest ih =>
      simp only [buildStages, bind, Except.bind] at h
      split at h
      · cases h
      · rename_i stage hstage
        split at h
        · cases h
        · rename_i others hothers
          cases h
          intro t ht
          -- the stage is the first one, or one of the others
          rcases List.mem_cons.1 ht with rfl | ht
          · exact ⟨spec, List.mem_cons_self, buildStage_writesOnly hstage⟩
          · obtain ⟨spec', hmem, honly⟩ := ih hothers t ht
            exact ⟨spec', List.mem_cons_of_mem _ hmem, honly⟩

end Registry

/-- Whatever a pipeline wants done comes from one of its stages. -/
theorem Pipeline.mem_applyFrom {consumer : String} {change : Change} {index : Nat}
    {stages : List Trigger} {intents : List Intent}
    (h : applyFrom consumer change index stages = .ok intents) {i : Intent} (hi : i ∈ intents) :
    ∃ t ∈ stages, ∃ part, t.transform consumer change = .ok part ∧ i ∈ part := by
  induction stages generalizing index intents with
  | nil =>
      cases h
      cases hi
  | cons stage rest ih =>
      simp only [applyFrom] at h
      split at h
      · cases h
      · rename_i part hpart
        split at h
        · cases h
        · rename_i more hmore
          cases h
          -- the intent comes from the first stage, or from one further on
          rcases List.mem_append.1 hi with hi | hi
          · exact ⟨stage, List.mem_cons_self, part, hpart, hi⟩
          · obtain ⟨t, ht, part', hpart', hi'⟩ := ih hmore hi
            exact ⟨t, List.mem_cons_of_mem _ ht, part', hpart', hi'⟩

/-- A chain of built-in triggers that do not write a bucket keeps off its records. -/
theorem Registry.build_keepsOff {consumer : String} {chain : List TriggerSpec} {p : Pipeline}
    (h : builtins.build consumer chain = .ok p) {a : Address}
    (htarget : ∀ spec ∈ chain, spec.target ≠ a.bucket) : p.KeepsOff a := by
  unfold build at h
  split at h
  · cases h
  · obtain ⟨stages, hstages, rfl⟩ := exists_of_map_eq_ok h
    intro change intents happly i hi heq
    obtain ⟨t, ht, part, hpart, hmem⟩ := Pipeline.mem_applyFrom happly hi
    obtain ⟨spec, hspec, honly⟩ := buildStages_writesOnly hstages t ht
    apply htarget spec hspec
    rw [← honly _ _ _ hpart i hmem, ← heq]
    rfl

end ChangeRelay
