import ChangeRelay.Proofs.Checkpoint.Resolve
import ChangeRelay.Proofs.Trigger.Targets
import Mathlib.Data.List.Basic
import Mathlib.Tactic.Ring

/-!
# Keys of a changelog

Numbers that are padded to one width stand in the order of their texts, so that the keys of a
changelog stand in the order of the changes. Keys under different prefixes differ, even if one
prefix goes on with digits where the other one ends: all keys have equally many digits behind the
prefix.
-/

namespace ChangeRelay

/-! ## Padded numerals -/

namespace Text

theorem isDigit_of_mem_paddedDigits {width n : Nat} {c : Char} (h : c ∈ paddedDigits width n) :
    c.isDigit = true := by
  rcases List.mem_append.1 h with hzero | hdigit
  · rw [List.eq_of_mem_replicate hzero]
    rfl
  · exact Nat.isDigit_of_mem_toDigits (by decide) (by decide) hdigit

theorem length_paddedDigits {width n : Nat} (hwidth : 0 < width) (h : n < 10 ^ width) :
    (paddedDigits width n).length = width := by
  have hle := (Nat.length_toDigits_le_iff (b := 10) (by decide) hwidth).2 h
  rw [paddedDigits, List.length_append, List.length_replicate]
  omega

/-- Zeros in front do not change the number. -/
theorem ofDigitChars_paddedDigits (width n : Nat) :
    Nat.ofDigitChars 10 (paddedDigits width n) 0 = n := by
  rw [paddedDigits, Nat.ofDigitChars_append, Nat.ofDigitChars_replicate_zero, Nat.mul_zero,
    Nat.ofDigitChars_ten_toDigits]

theorem toNat_sub_of_isDigit {c : Char} (h : c.isDigit = true) :
    '0'.toNat ≤ c.toNat ∧ c.toNat - '0'.toNat < 10 := by
  have hbounds : '0'.toNat ≤ c.toNat ∧ c.toNat ≤ '9'.toNat := by
    simpa [Char.isDigit, UInt32.le_iff_toNat_le] using h
  have hzero : '0'.toNat = 48 := rfl
  have hnine : '9'.toNat = 57 := rfl
  omega

/-- Digits behind a number make it a number between its multiple and the next. -/
theorem ofDigitChars_bounds {cs : List Char} (h : ∀ c ∈ cs, c.isDigit = true) (acc : Nat) :
    acc * 10 ^ cs.length ≤ Nat.ofDigitChars 10 cs acc ∧
      Nat.ofDigitChars 10 cs acc < (acc + 1) * 10 ^ cs.length := by
  induction cs generalizing acc with
  | nil => simp
  | cons c cs ih =>
      have hdigit := (toNat_sub_of_isDigit (h c List.mem_cons_self)).2
      obtain ⟨hlow, hhigh⟩ := ih (fun d hd => h d (List.mem_cons_of_mem _ hd))
        (10 * acc + (c.toNat - '0'.toNat))
      rw [Nat.ofDigitChars_cons, List.length_cons, Nat.pow_succ]
      generalize c.toNat - '0'.toNat = v at *
      constructor
      · calc acc * (10 ^ cs.length * 10) = 10 * acc * 10 ^ cs.length := by ring
          _ ≤ (10 * acc + v) * 10 ^ cs.length := Nat.mul_le_mul_right _ (by omega)
          _ ≤ _ := hlow
      · calc _ < (10 * acc + v + 1) * 10 ^ cs.length := hhigh
          _ ≤ (10 * (acc + 1)) * 10 ^ cs.length := Nat.mul_le_mul_right _ (by omega)
          _ = (acc + 1) * (10 ^ cs.length * 10) := by ring

/-- Of equally many digits, those of the smaller number come first. -/
theorem lt_of_ofDigitChars_lt {cs ds : List Char} (hcs : ∀ c ∈ cs, c.isDigit = true)
    (hds : ∀ d ∈ ds, d.isDigit = true) (hlength : cs.length = ds.length) {acc : Nat}
    (h : Nat.ofDigitChars 10 cs acc < Nat.ofDigitChars 10 ds acc) : cs < ds := by
  induction cs generalizing ds acc with
  | nil =>
      rw [List.length_nil, eq_comm, List.length_eq_zero_iff] at hlength
      subst hlength
      exact absurd h (Nat.lt_irrefl _)
  | cons c cs ih =>
      cases ds with
      | nil => cases hlength
      | cons d ds =>
          have hlength' : cs.length = ds.length := Nat.succ.inj hlength
          have hcs' : ∀ c ∈ cs, c.isDigit = true := fun x hx => hcs x (List.mem_cons_of_mem _ hx)
          have hds' : ∀ d ∈ ds, d.isDigit = true := fun x hx => hds x (List.mem_cons_of_mem _ hx)
          obtain ⟨hc, -⟩ := toNat_sub_of_isDigit (hcs c List.mem_cons_self)
          obtain ⟨hd, -⟩ := toNat_sub_of_isDigit (hds d List.mem_cons_self)
          rw [Nat.ofDigitChars_cons, Nat.ofDigitChars_cons] at h
          rw [List.cons_lt_cons_iff]
          rcases Nat.lt_trichotomy c.toNat d.toNat with hlt | heq | hgt
          · exact .inl (Char.lt_def.2 hlt)
          · have hcd : c = d := Char.toNat_inj.1 heq
            subst hcd
            exact .inr ⟨rfl, ih hcs' hds' hlength' h⟩
          · -- a greater first digit outweighs all that follow
            exfalso
            obtain ⟨hlow, -⟩ := ofDigitChars_bounds hcs' (10 * acc + (c.toNat - '0'.toNat))
            obtain ⟨-, hhigh⟩ := ofDigitChars_bounds hds' (10 * acc + (d.toNat - '0'.toNat))
            rw [hlength'] at hlow
            have hle : (10 * acc + (d.toNat - '0'.toNat) + 1) * 10 ^ ds.length ≤
                (10 * acc + (c.toNat - '0'.toNat)) * 10 ^ ds.length :=
              Nat.mul_le_mul_right _ (by omega)
            omega

theorem paddedDigits_lt {width m n : Nat} (hwidth : 0 < width) (hn : n < 10 ^ width)
    (h : m < n) : paddedDigits width m < paddedDigits width n := by
  apply lt_of_ofDigitChars_lt (fun _ => isDigit_of_mem_paddedDigits)
    (fun _ => isDigit_of_mem_paddedDigits)
  · rw [length_paddedDigits hwidth hn, length_paddedDigits hwidth (Nat.lt_trans h hn)]
  · rw [ofDigitChars_paddedDigits, ofDigitChars_paddedDigits]
    exact h

end Text

/-! ## Keys -/

namespace Changelog

variable {l l' : Changelog} {s t : UInt64}

theorem toNat_lt_pow_keyWidth (s : UInt64) : s.toNat < 10 ^ keyWidth :=
  Nat.lt_trans s.toNat_lt (by decide)

theorem toList_key (l : Changelog) (s : UInt64) :
    (l.key s).toList = l.keyPrefix.toList ++ Text.paddedDigits keyWidth s.toNat := by
  rw [key, String.toList_append, String.toList_ofList]

/-- Keys are the same only under the same prefix and for the same number. -/
theorem key_eq_iff : l.key s = l'.key t ↔ l.keyPrefix = l'.keyPrefix ∧ s = t := by
  constructor
  · intro h
    have hlists := congrArg String.toList h
    rw [toList_key, toList_key] at hlists
    -- the digits are equally many, so they can be told from the prefix
    have hlength : ∀ u : UInt64, (Text.paddedDigits keyWidth u.toNat).length = keyWidth := fun u =>
      Text.length_paddedDigits (by decide) (toNat_lt_pow_keyWidth u)
    obtain ⟨hsame, hdigits⟩ := List.append_inj' hlists ((hlength s).trans (hlength t).symm)
    refine ⟨String.toList_injective hsame, ?_⟩
    have hvalue := congrArg (fun cs => Nat.ofDigitChars 10 cs 0) hdigits
    simp only [Text.ofDigitChars_paddedDigits] at hvalue
    exact UInt64.toNat_inj.1 hvalue
  · rintro ⟨hsame, rfl⟩
    rw [key, key, hsame]

theorem key_lt_of_lt (l : Changelog) (h : s < t) : l.key s < l.key t := by
  rw [String.lt_iff, toList_key, toList_key]
  apply List.append_left_lt
  exact Text.paddedDigits_lt (by decide) (toNat_lt_pow_keyWidth t) (UInt64.lt_iff_toNat_lt.1 h)

/-- The keys under one prefix stand in the order of the numbers. -/
theorem key_lt_iff : l.key s < l.key t ↔ s < t := by
  constructor
  · intro h
    rw [← UInt64.not_le]
    intro hle
    rcases UInt64.lt_or_eq_of_le hle with hlt | heq
    · exact absurd (String.lt_trans h (l.key_lt_of_lt hlt)) (String.lt_irrefl _)
    · rw [heq] at h
      exact String.lt_irrefl _ h
  · exact l.key_lt_of_lt

end Changelog

/-! ## Chains with a changelog -/

namespace Registry

/-- The stages of a chain are those of its parts. -/
theorem buildStages_append {r : Registry} {consumer : String} {earlier later : List TriggerSpec}
    {stages : List Trigger} (h : r.buildStages consumer (earlier ++ later) = .ok stages) :
    ∃ first second, r.buildStages consumer earlier = .ok first ∧
      r.buildStages consumer later = .ok second ∧ stages = first ++ second := by
  induction earlier generalizing stages with
  | nil => exact ⟨[], stages, rfl, h, rfl⟩
  | cons spec rest ih =>
      obtain ⟨stage, hstage, h⟩ := bind_eq_ok.1 h
      obtain ⟨others, hothers, h⟩ := bind_eq_ok.1 h
      cases h
      obtain ⟨first, second, hfirst, hsecond, rfl⟩ := ih hothers
      refine ⟨stage :: first, second, ?_, hsecond, rfl⟩
      rw [buildStages, hstage, hfirst]
      rfl

theorem buildStage_changelog {consumer : String} {spec : TriggerSpec} {t : Trigger}
    {l : Changelog} (h : builtins.buildStage consumer spec = .ok t) (hkind : spec.kind = "changelog")
    (hl : Changelog.ofSpec spec = .ok l) : t = l.trigger := by
  have hfind : Assoc.find? spec.kind builtins =
      some fun s => (Changelog.ofSpec s).map Changelog.trigger := by
    rw [hkind]
    rfl
  simp only [buildStage, hfind, hl, Except.map] at h
  cases h
  rfl

end Registry

/-- The intents of a list of stages are those of its parts. -/
theorem Pipeline.applyFrom_append {consumer : String} {change : Change} {index : Nat}
    {first second : List Trigger} {intents : List Intent}
    (h : applyFrom consumer change index (first ++ second) = .ok intents) :
    ∃ before behind, applyFrom consumer change index first = .ok before ∧
      applyFrom consumer change (index + first.length) second = .ok behind ∧
      intents = before ++ behind := by
  induction first generalizing index intents with
  | nil => exact ⟨[], intents, rfl, h, rfl⟩
  | cons stage rest ih =>
      rw [List.cons_append, applyFrom] at h
      split at h
      · cases h
      · rename_i part hpart
        split at h
        · cases h
        · rename_i more hmore
          cases h
          obtain ⟨before, behind, hbefore, hbehind, rfl⟩ := ih hmore
          refine ⟨part ++ before, behind, ?_, ?_, (List.append_assoc ..).symm⟩
          · rw [applyFrom, hpart, hbefore]
          · rw [List.length_cons, Nat.add_comm rest.length, ← Nat.add_assoc]
            exact hbehind

open Checkpoint (Data)

/-- A pipeline keeps a changelog in a bucket: of every change that it takes it puts the entry there,
and does nothing else there. -/
def Pipeline.Logs (p : Pipeline) (l : Changelog) : Prop :=
  ∀ c intents, p.apply c = .ok intents → ∃ before behind,
    intents = before ++ .put l.bucket (l.key c.seq) (Changelog.entry c) :: behind ∧
    ∀ i ∈ before ++ behind, i.bucket ≠ l.bucket

/-- A chain with a changelog keeps it, if its other triggers write other buckets. -/
theorem Registry.build_logs {consumer : String} {chain earlier later : List TriggerSpec}
    {spec : TriggerSpec} {p : Pipeline} {l : Changelog}
    (h : builtins.build consumer chain = .ok p) (hchain : chain = earlier ++ spec :: later)
    (hkind : spec.kind = "changelog") (hl : Changelog.ofSpec spec = .ok l)
    (hown : ∀ s ∈ earlier ++ later, s.target ≠ spec.target) : p.Logs l := by
  unfold build at h
  split at h
  · cases h
  obtain ⟨stages, hstages, rfl⟩ := exists_of_map_eq_ok h
  rw [hchain] at hstages
  obtain ⟨first, second, hfirst, hsecond, rfl⟩ := buildStages_append hstages
  obtain ⟨stage, hstage, hsecond⟩ := bind_eq_ok.1 hsecond
  obtain ⟨rest, hrest, hsecond⟩ := bind_eq_ok.1 hsecond
  cases hsecond
  obtain rfl := buildStage_changelog hstage hkind hl
  intro c intents happly
  obtain ⟨before, behind, hbefore, hbehind, rfl⟩ := Pipeline.applyFrom_append happly
  rw [Pipeline.applyFrom] at hbehind
  split at hbehind
  · cases hbehind
  rename_i part hpart
  split at hbehind
  · cases hbehind
  rename_i more hmore
  cases hbehind
  cases hpart
  refine ⟨before, more, rfl, ?_⟩
  -- what the other stages want done is in the buckets of their specifications
  have hbucket := Changelog.ofSpec_bucket hl
  have hother : ∀ {stages : List Trigger} {specs : List TriggerSpec} {index : Nat}
      {part : List Intent}, builtins.buildStages consumer specs = .ok stages →
      (∀ s ∈ specs, s.target ≠ spec.target) →
      Pipeline.applyFrom consumer c index stages = .ok part → ∀ i ∈ part, i.bucket ≠ l.bucket := by
    intro stages specs index part hbuilt hne happly i hi
    obtain ⟨t, ht, part', htransform, hmem⟩ := Pipeline.mem_applyFrom happly hi
    obtain ⟨s, hs, honly⟩ := buildStages_writesOnly hbuilt t ht
    rw [honly _ _ _ htransform i hmem, hbucket]
    exact hne s hs
  intro i hi
  rcases List.mem_append.1 hi with hi | hi
  · exact hother hfirst (fun s hs => hown s (List.mem_append_left _ hs)) hbefore i hi
  · exact hother hrest (fun s hs => hown s (List.mem_append_right _ hs)) hmore i hi

namespace Pipeline.Logs

variable {p : Pipeline} {l : Changelog}

/-- What is done in the bucket of the changelog is put there. -/
theorem kind_eq_put (h : p.Logs l) {c : Change} {intents : List Intent}
    (happly : p.apply c = .ok intents) {i : Intent} (hi : i ∈ intents)
    (hbucket : i.bucket = l.bucket) : i.kind = .put := by
  obtain ⟨before, behind, rfl, hother⟩ := h c intents happly
  rcases List.mem_append.1 hi with hbefore | hi
  · exact absurd hbucket (hother i (List.mem_append_left _ hbefore))
  · rcases List.mem_cons.1 hi with rfl | hbehind
    · rfl
    · exact absurd hbucket (hother i (List.mem_append_right _ hbehind))

/-- A change writes its entry, and nothing else in the bucket of the changelog. -/
theorem applyAll_intents (h : p.Logs l) {c : Change} {intents : List Intent}
    (happly : p.apply c = .ok intents) (d : Data) (k : String) :
    d.applyAll intents ⟨l.bucket, k⟩ =
      if k = l.key c.seq then some (Changelog.entry c) else d ⟨l.bucket, k⟩ := by
  obtain ⟨before, behind, rfl, hother⟩ := h c intents happly
  have hoff : ∀ part : List Intent, (∀ i ∈ part, i.bucket ≠ l.bucket) →
      ∀ i ∈ part, Checkpoint.intentAddress i ≠ ⟨l.bucket, k⟩ := by
    intro part hpart i hi heq
    exact hpart i hi (congrArg Store.Address.bucket heq)
  have hbefore := hoff before fun i hi => hother i (List.mem_append_left _ hi)
  have hbehind := hoff behind fun i hi => hother i (List.mem_append_right _ hi)
  rw [Data.applyAll_append, Data.applyAll_cons, Data.applyAll_of_ne hbehind, Data.apply,
    Data.applyAll_of_ne hbefore]
  simp

end Pipeline.Logs

end ChangeRelay
