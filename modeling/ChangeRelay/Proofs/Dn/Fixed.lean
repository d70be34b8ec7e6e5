import ChangeRelay.Proofs.Dn.Normal
import ChangeRelay.Proofs.Text.Fixed

/-!
# Normal forms of normal forms

A normal form is its own normal form. That is so RDN by RDN, and it stays so where a value that
ends in a backslash takes the next RDN for its own: what the two make up is in normal form, with
the type of the first of them.
-/

namespace ChangeRelay.Dn

open Text (trimChars lowercaseChars Tight IsLower)

/-! ## RDNs in normal form -/

/-- A type or value as it stands in a normal form: not empty, in lowercase, and with no blank at
either end. -/
structure Plain (cs : List Char) : Prop where
  ne_nil : cs ≠ []
  tight : Tight cs
  lower : IsLower cs

/-- An RDN in normal form: two plain texts, divided by the first equality sign. -/
def IsNormal (rdn : List Char) : Prop :=
  ∃ name value, rdn = name ++ '=' :: value ∧ '=' ∉ name ∧ Plain name ∧ Plain value

theorem Plain.key_eq {cs : List Char} (h : Plain cs) : lowercaseChars (trimChars cs) = cs := by
  rw [h.tight.trimChars_eq]
  exact h.lower.lowercaseAfter_eq []

theorem plain_key {cs : List Char} (h : trimChars cs ≠ []) :
    Plain (lowercaseChars (trimChars cs)) where
  ne_nil := Text.lowercaseAfter_ne_nil [] h
  tight := (Text.tight_trimChars cs).lowercaseChars
  lower := Text.isLower_lowercaseAfter [] _

/-- Two plain texts with a symbol between them are one. -/
theorem Plain.append {p q : List Char} (hp : Plain p) (hq : Plain q) {c : Char}
    (hc : Text.lowercaseChar c = [c]) : Plain (p ++ c :: q) where
  ne_nil := by simp
  tight := by simpa using hp.tight.append hq.tight hp.ne_nil hq.ne_nil [c]
  lower := hp.lower.append (List.forall_mem_cons.2 ⟨hc, hq.lower⟩)

theorem isNormal_of_normalizeRdn? {rdn n : List Char} (h : normalizeRdn? rdn = some n) :
    IsNormal n := by
  obtain ⟨-, htype, hvalue, rfl⟩ := normalizeRdn?_eq_some.1 h
  exact ⟨_, _, rfl, equals_notMem_typeKey rdn, plain_key htype, plain_key hvalue⟩

namespace IsNormal

variable {p q : List Char}

theorem plain (h : IsNormal p) : Plain p := by
  obtain ⟨name, value, rfl, -, hname, hvalue⟩ := h
  exact hname.append hvalue (by decide)

theorem normalizeRdn?_eq (h : IsNormal p) : normalizeRdn? p = some p := by
  obtain ⟨name, value, rfl, hequals, hname, hvalue⟩ := h
  obtain ⟨htake, hdrop⟩ := takeWhile_equals hequals value
  have htype : typeOf (name ++ '=' :: value) = name := htake
  have hrest : valueOf (name ++ '=' :: value) = value := by rw [valueOf, hdrop, List.tail_cons]
  rw [normalizeRdn?_eq_some, canonical, typeKey, valueKey, htype, hrest, hname.key_eq,
    hvalue.key_eq, hname.tight.trimChars_eq, hvalue.tight.trimChars_eq]
  exact ⟨rfl, hname.ne_nil, hvalue.ne_nil, rfl⟩

/-- An RDN that takes the next one for its own stays in normal form. -/
theorem comma (hp : IsNormal p) (hq : IsNormal q) : IsNormal (p ++ ',' :: q) := by
  obtain ⟨name, value, rfl, hequals, hname, hvalue⟩ := hp
  refine ⟨name, value ++ ',' :: q, by simp, hequals, hname, ?_⟩
  exact hvalue.append hq.plain (by decide)

end IsNormal

/-! ## Names in normal form -/

variable {ps : List (List Char)}

theorem normalizeRdns_of_isNormal (h : ∀ p ∈ ps, IsNormal p) : normalizeRdns ps = .ok ps := by
  rw [normalizeRdns_eq_ok, List.forall₂_same]
  exact fun p hp => (h p hp).normalizeRdn?_eq

theorem isNormal_of_normalizeRdns {rdns : List (List Char)} (h : normalizeRdns rdns = .ok ps) :
    ∀ p ∈ ps, IsNormal p := by
  rw [normalizeRdns_eq_ok] at h
  induction h with
  | nil => exact fun _ hp => nomatch hp
  | cons hn _ ih => exact List.forall_mem_cons.2 ⟨isNormal_of_normalizeRdn? hn, ih⟩

theorem isNormal_join (hne : ps ≠ []) (h : ∀ p ∈ ps, IsNormal p) : IsNormal (join ps) := by
  induction ps with
  | nil => exact absurd rfl hne
  | cons p rest ih =>
      obtain ⟨hp, hrest⟩ := List.forall_mem_cons.1 h
      by_cases hnil : rest = []
      · subst hnil
        rwa [join_singleton]
      · rw [join_cons p hnil]
        exact hp.comma (ih hnil hrest)

theorem isNormal_glue (h : ∀ p ∈ ps, IsNormal p) : ∀ p ∈ glue ps, IsNormal p := by
  induction ps with
  | nil => exact fun _ hp => nomatch hp
  | cons p rest ih =>
      obtain ⟨hp, hrest⟩ := List.forall_mem_cons.1 h
      by_cases hdangling : Dangling p
      · rw [glue, if_pos hdangling]
        cases hglue : glue rest with
        | nil => simpa using hp
        | cons q qs =>
            rw [hglue, List.forall_mem_cons] at ih
            obtain ⟨hq, hqs⟩ := ih hrest
            exact List.forall_mem_cons.2 ⟨hp.comma hq, hqs⟩
      · rw [glue_of_not_dangling hdangling]
        exact List.forall_mem_cons.2 ⟨hp, ih hrest⟩

/-- Normal RDNs, joined, are normalized to themselves: the RDNs that the text is divided into are
other ones where a comma is escaped, but these are normal, too. -/
theorem normalizeChars_join (hwhole : ∀ p ∈ ps, isWhole false p = true)
    (h : ∀ p ∈ ps, IsNormal p) : normalizeChars (join ps) = .ok (join ps) := by
  by_cases hnil : ps = []
  · subst hnil
    rfl
  · have hplain := (isNormal_join hnil h).plain
    have hsplit : split (join ps) = glue ps := split_join hnil hwhole
    have hjoin : join (glue ps) = join ps := by
      rw [← hsplit]
      exact join_splitFrom false _
    unfold normalizeChars
    simp only [hplain.tight.trimChars_eq, if_neg hplain.ne_nil, hsplit,
      normalizeRdns_of_isNormal (isNormal_glue h), Except.map, hjoin]

/-- Normalizing a normal form changes nothing. -/
theorem normalize_idempotent {dn n : String} (h : normalize dn = .ok n) : normalize n = .ok n := by
  obtain ⟨ns, hns, hn⟩ := exists_of_normalize h
  obtain ⟨hcanonical, -⟩ := eq_of_normalizeRdns hns
  have hwhole : ∀ p ∈ ns, isWhole false p = true := hcanonical ▸ (toList_of_normalize h).2
  have hchars := normalizeChars_join hwhole (isNormal_of_normalizeRdns hns)
  rw [← hn] at hchars
  rw [normalize, hchars]
  simp only [String.ofList_toList]

/-- A final sigma in front of a backslash that takes the next RDN: the normal form has one RDN
where the name has two, and stays. -/
theorem normalize_idempotent_escaped_sigma :
    normalize "CN=ΟΔΟΣ\\ , DC=X" = .ok "cn=οδος\\,dc=x" ∧
      normalize "cn=οδος\\,dc=x" = .ok "cn=οδος\\,dc=x" := by
  have hnormal : normalize "CN=ΟΔΟΣ\\ , DC=X" = .ok "cn=οδος\\,dc=x" := by
    decide +kernel
  exact ⟨hnormal, normalize_idempotent hnormal⟩

end ChangeRelay.Dn
