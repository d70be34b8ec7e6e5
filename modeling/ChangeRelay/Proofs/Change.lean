import ChangeRelay.Change

/-!
# What metadata says of a change

The controls give the number and the kind of a change, the name its target. Where something is
missing the change is malformed; nothing else can be wrong with it.
-/

namespace ChangeRelay

namespace Control

variable {metadata metadata' : Json.Fields} {c : Control}

/-- Metadata states what a control says: the first entry change notification among its controls has
the number and the kind, and its name is not the root's. -/
structure Stated (metadata : Json.Fields) (c : Control) : Prop where
  notification : ∃ controls control notification,
    Assoc.find? "controls" metadata = some (.array controls) ∧
      controls.find? isEntryChange = some control ∧ control.get? "value" = some notification ∧
      (notification.get? "changeNumber").bind lenientWord? = some c.seq ∧
      ((notification.get? "changeType").bind lenientWord?).bind Operation.ofChangeType? =
        some c.operation
  target : ∃ dn, Assoc.find? "dn" metadata = some (.string dn) ∧ Dn.normalize dn = .ok c.target ∧
    c.target ≠ ""

theorem eq_array_of_asArray? {v : Json.Value} {items : List Json.Value}
    (h : v.asArray? = some items) : v = .array items := by
  cases v <;> cases h
  rfl

theorem eq_string_of_asString? {v : Json.Value} {s : String} (h : v.asString? = some s) :
    v = .string s := by
  cases v <;> cases h
  rfl

theorem ofMetadata_eq_ok : ofMetadata metadata = .ok c ↔ Stated metadata c := by
  constructor
  · intro h
    unfold ofMetadata at h
    -- one check after the other, and what each has found
    split at h
    · cases h
    rename_i controls hcontrols
    split at h
    · cases h
    rename_i notification hnotification
    split at h
    · cases h
    rename_i seq hseq
    split at h
    · cases h
    rename_i changeType hchangeType
    split at h
    · cases h
    rename_i operation hoperation
    split at h
    · cases h
    rename_i dn hdn
    split at h
    · cases h
    rename_i target htarget
    split at h
    · cases h
    rename_i hroot
    cases h
    obtain ⟨v, hv, harray⟩ := Option.bind_eq_some_iff.1 hcontrols
    obtain ⟨control, hcontrol, hvalue⟩ := Option.bind_eq_some_iff.1 hnotification
    obtain ⟨w, hw, hstring⟩ := Option.bind_eq_some_iff.1 hdn
    refine ⟨⟨controls, control, notification, ?_, hcontrol, hvalue, hseq, ?_⟩, dn, ?_, htarget,
      hroot⟩
    · rw [hv, eq_array_of_asArray? harray]
    · rw [hchangeType, Option.bind_some, hoperation]
    · rw [hw, eq_string_of_asString? hstring]
  · rintro ⟨⟨controls, control, notification, hcontrols, hcontrol, hvalue, hseq, hoperation⟩, dn,
      hdn, htarget, hroot⟩
    obtain ⟨changeType, hchangeType, hoperation⟩ := Option.bind_eq_some_iff.1 hoperation
    simp [ofMetadata, hcontrols, hcontrol, hvalue, hseq, hchangeType, hoperation, hdn, htarget,
      hroot, Json.Value.asArray?, Json.Value.asString?]

theorem malformed_of_ofMetadata {fault : FeedFault} (h : ofMetadata metadata = .error fault) :
    ∃ n reason, fault = .malformed n reason := by
  unfold ofMetadata at h
  repeat' split at h
  all_goals
    cases h
    try exact ⟨_, _, rfl⟩

/-- Once number and kind are read, all depends on the name. -/
theorem ofMetadata_of_notified {controls : List Json.Value} {notification : Json.Value}
    {seq : UInt64} {op : Operation} {dn : String}
    (hcontrols : (Assoc.find? "controls" metadata).bind Json.Value.asArray? = some controls)
    (hnotification : (controls.find? isEntryChange).bind (Json.Value.get? "value") =
      some notification)
    (hseq : (notification.get? "changeNumber").bind lenientWord? = some seq)
    (hop : (notification.get? "changeType").bind lenientWord? = some op.changeType)
    (hdn : (Assoc.find? "dn" metadata).bind Json.Value.asString? = some dn) :
    ofMetadata metadata =
      match Dn.normalize dn with
      | .error e => .error (.malformed (some seq) e.message)
      | .ok target =>
        if target = "" then .error (.malformed (some seq) "change targets the empty DN")
        else .ok { target, seq, operation := op } := by
  cases hname : Dn.normalize dn with
  | error e =>
      simp only [ofMetadata, hcontrols, hnotification, hseq, hop, hdn,
        Operation.ofChangeType?_changeType, hname]
  | ok target =>
      simp only [ofMetadata, hcontrols, hnotification, hseq, hop, hdn,
        Operation.ofChangeType?_changeType, hname]

/-- Only controls and name are looked at. -/
theorem ofMetadata_congr
    (hcontrols : Assoc.find? "controls" metadata = Assoc.find? "controls" metadata')
    (hdn : Assoc.find? "dn" metadata = Assoc.find? "dn" metadata') :
    ofMetadata metadata = ofMetadata metadata' := by
  rw [ofMetadata, ofMetadata, hcontrols, hdn]

end Control

namespace Change

variable {attributes : Attributes} {metadata : Json.Fields} {c : Change}

theorem malformed_of_ofMetadata {fault : FeedFault}
    (h : ofMetadata attributes metadata = .error fault) :
    ∃ n reason, fault = .malformed n reason := by
  rw [ofMetadata] at h
  cases hcontrol : Control.ofMetadata metadata with
  | ok k =>
      rw [hcontrol] at h
      cases h
  | error e =>
      rw [hcontrol] at h
      cases h
      exact Control.malformed_of_ofMetadata hcontrol

/-- A change has its number, its kind and its target from its metadata. -/
theorem ofMetadata_eq_ok :
    ofMetadata attributes metadata = .ok c ↔
      Control.Stated metadata ⟨c.target, c.seq, c.operation⟩ ∧ c.attributes = attributes ∧
        c.metadata = metadata := by
  rw [← Control.ofMetadata_eq_ok, ofMetadata]
  obtain ⟨seq, operation, target, attributes', metadata'⟩ := c
  cases hcontrol : Control.ofMetadata metadata with
  | error fault => simp [Except.map]
  | ok k =>
      obtain ⟨target', seq', operation'⟩ := k
      simp only [Except.map, Except.ok.injEq, Change.mk.injEq, Control.mk.injEq]
      grind

/-- No change targets the empty name. -/
theorem target_ne_of_ofMetadata (h : ofMetadata attributes metadata = .ok c) : c.target ≠ "" := by
  obtain ⟨-, -, -, hroot⟩ := (ofMetadata_eq_ok.1 h).1.target
  exact hroot

end Change

end ChangeRelay
