import ChangeRelay.Proofs.Dn.Rdns
import ChangeRelay.Proofs.Text.Case
import Mathlib.Data.List.Forall2

/-!
# Normal forms, RDN by RDN

The normal form of a name is made RDN by RDN, and joined by commas again. It has the RDNs that were
made, in the same places, unless a value ended in an escaped blank: trimming takes the blank and
leaves the backslash, which then escapes the comma behind it. Where no value does, two names share
a normal form exactly if they agree RDN by RDN.
-/

namespace ChangeRelay.Dn

open Text (trimChars lowercaseChars lowercaseAfter isBlank)

/-! ## Texts without symbols -/

theorem escapesNext_of_no_backslash (escaped : Bool) {p : List Char} (hne : p ≠ [])
    (h : ∀ c ∈ p, c ≠ '\\') : escapesNext escaped p = false := by
  induction p generalizing escaped with
  | nil => exact absurd rfl hne
  | cons c rest ih =>
      have hc : c ≠ '\\' := h c List.mem_cons_self
      rw [escapesNext]
      by_cases hrest : rest = []
      · subst hrest
        simp [escapesNext, hc]
      · exact ih _ hrest fun d hd => h d (List.mem_cons_of_mem _ hd)

/-- A text that begins in no escape and has no backslash is not one that ends in one. -/
theorem escapesNext_false_of_no_backslash {p : List Char} (h : ∀ c ∈ p, c ≠ '\\') :
    escapesNext false p = false := by
  by_cases hne : p = []
  · subst hne
    rfl
  · exact escapesNext_of_no_backslash false hne h

theorem isWhole_of_no_comma (escaped : Bool) {p : List Char} (h : ∀ c ∈ p, c ≠ ',') :
    isWhole escaped p = true := by
  induction p generalizing escaped with
  | nil => rfl
  | cons c rest ih =>
      rw [isWhole_cons]
      refine ⟨?_, ih _ fun d hd => h d (List.mem_cons_of_mem _ hd)⟩
      intro hc
      exact h c List.mem_cons_self hc.1

theorem ne_backslash_of_isBlank {c : Char} (h : isBlank c = true) : c ≠ '\\' := by
  rintro rfl
  exact absurd h (by decide)

/-! ## Trimming and lowercasing -/

theorem isWhole_trimChars {cs : List Char} (h : isWhole false cs = true) :
    isWhole false (trimChars cs) = true := by
  obtain ⟨before, behind, hcs, hblank, -⟩ := Text.trimChars_append cs
  -- blanks in front escape nothing
  have hbefore : escapesNext false before = false :=
    escapesNext_false_of_no_backslash fun c hc => ne_backslash_of_isBlank (hblank c hc)
  rw [hcs, isWhole_append, isWhole_append, hbefore] at h
  simp only [Bool.and_eq_true] at h
  exact h.1.2

/-- Lowercasing keeps every backslash and every comma in its place between the others. -/
theorem lowercaseAfter_keeps (escaped : Bool) (before cs : List Char) :
    escapesNext escaped (lowercaseAfter before cs) = escapesNext escaped cs ∧
      isWhole escaped (lowercaseAfter before cs) = isWhole escaped cs := by
  induction cs generalizing escaped before with
  | nil => exact ⟨rfl, rfl⟩
  | cons c rest ih =>
      by_cases hbackslash : c = '\\'
      · subst hbackslash
        rw [Text.lowercaseAfter_cons_of_eq (by decide) (by decide)]
        obtain ⟨hescape, hwhole⟩ := ih (!escaped) ('\\' :: before)
        exact ⟨by simpa [escapesNext] using hescape, by simpa [isWhole] using hwhole⟩
      · obtain ⟨hescape, hwhole⟩ := ih false (c :: before)
        by_cases hcomma : c = ','
        · subst hcomma
          rw [Text.lowercaseAfter_cons_of_eq (by decide) (by decide)]
          exact ⟨by simpa [escapesNext] using hescape, by simp [isWhole, hwhole]⟩
        · -- whatever the character becomes, it escapes nothing and separates nothing
          obtain ⟨first, hfirst, hne, hall⟩ := Text.lowercaseAfter_cons before c rest
          have hsymbol : ∀ d ∈ first, d ≠ '\\' ∧ d ≠ ',' := by
            intro d hd
            rcases hall d hd with rfl | hlarge
            · exact ⟨hbackslash, hcomma⟩
            · constructor <;> (rintro rfl; exact absurd hlarge (by decide))
          have hescapes := escapesNext_of_no_backslash escaped hne
            fun d hd => (hsymbol d hd).1
          have hwholes := isWhole_of_no_comma escaped fun d hd => (hsymbol d hd).2
          rw [hfirst, escapesNext_append, isWhole_append, hescapes, hwholes, hescape, hwhole]
          exact ⟨by simp [escapesNext, hbackslash], by simp [isWhole, hbackslash, hcomma]⟩

theorem escapesNext_lowercaseChars (escaped : Bool) (cs : List Char) :
    escapesNext escaped (lowercaseChars cs) = escapesNext escaped cs :=
  (lowercaseAfter_keeps escaped [] cs).1

theorem isWhole_lowercaseChars (escaped : Bool) (cs : List Char) :
    isWhole escaped (lowercaseChars cs) = isWhole escaped cs :=
  (lowercaseAfter_keeps escaped [] cs).2

theorem equals_of_mem_lowercaseChars {cs : List Char} (h : '=' ∈ lowercaseChars cs) : '=' ∈ cs := by
  rcases Text.mem_lowercaseAfter h with hmem | hlarge
  · exact hmem
  · exact absurd hlarge (by decide)

/-! ## Normal RDNs -/

/-- What stands in front of the first equality sign of an RDN. -/
def typeOf (rdn : List Char) : List Char := rdn.takeWhile (· ≠ '=')

/-- What stands behind the first equality sign of an RDN. -/
def valueOf (rdn : List Char) : List Char := (rdn.dropWhile (· ≠ '=')).tail

/-- The lowercased type without blanks around it. -/
def typeKey (rdn : List Char) : List Char := lowercaseChars (trimChars (typeOf rdn))

/-- The lowercased value without blanks around it. -/
def valueKey (rdn : List Char) : List Char := lowercaseChars (trimChars (valueOf rdn))

/-- The RDN made of lowercased type and value. -/
def canonical (rdn : List Char) : List Char := typeKey rdn ++ '=' :: valueKey rdn

theorem equals_notMem_typeOf (rdn : List Char) : '=' ∉ typeOf rdn := by
  intro h
  simpa using List.mem_takeWhile_imp h

/-- The first equality sign is where an RDN is divided. -/
theorem takeWhile_equals {name : List Char} (h : '=' ∉ name) (value : List Char) :
    (name ++ '=' :: value).takeWhile (· ≠ '=') = name ∧
      (name ++ '=' :: value).dropWhile (· ≠ '=') = '=' :: value := by
  have hname : ∀ c ∈ name, decide (c ≠ '=') = true := by
    intro c hc
    rw [decide_eq_true_eq]
    rintro rfl
    exact h hc
  rw [List.takeWhile_append_of_pos hname, List.dropWhile_append_of_pos hname]
  simp

theorem equals_notMem_typeKey (rdn : List Char) : '=' ∉ typeKey rdn := by
  intro h
  exact equals_notMem_typeOf rdn (Text.mem_of_mem_trimChars (equals_of_mem_lowercaseChars h))

/-- An RDN has a normal form exactly if it has an equality sign with something on either side. -/
theorem normalizeRdn?_eq_some {rdn n : List Char} :
    normalizeRdn? rdn = some n ↔ rdn = typeOf rdn ++ '=' :: valueOf rdn ∧
      trimChars (typeOf rdn) ≠ [] ∧ trimChars (valueOf rdn) ≠ [] ∧ n = canonical rdn := by
  unfold normalizeRdn?
  split
  · rename_i hdrop
    simp only [reduceCtorEq, false_iff]
    rintro ⟨hparts, -⟩
    -- no equality sign, nothing left of the text
    have hall := List.dropWhile_eq_nil_iff.1 hdrop
    have hequals : '=' ∈ rdn := by
      rw [hparts]
      exact List.mem_append_right _ List.mem_cons_self
    exact absurd (hall '=' hequals) (by decide)
  · rename_i c value hdrop
    have hvalue : valueOf rdn = value := by rw [valueOf, hdrop, List.tail_cons]
    -- what is left of the text begins with the equality sign
    have hc : c = '=' := by
      have hhead := List.head?_dropWhile_not (fun c => decide (c ≠ '=')) rdn
      rw [hdrop] at hhead
      simpa using hhead
    have hparts : rdn = typeOf rdn ++ '=' :: valueOf rdn := by
      rw [hvalue, ← hc, ← hdrop]
      exact List.takeWhile_append_dropWhile.symm
    rw [canonical, typeKey, valueKey, hvalue]
    simp only [typeOf] at hparts ⊢
    grind

theorem normalizeRdns_eq_ok {rdns ns : List (List Char)} :
    normalizeRdns rdns = .ok ns ↔
      List.Forall₂ (fun rdn n => normalizeRdn? rdn = some n) rdns ns := by
  induction rdns generalizing ns with
  | nil => simp [normalizeRdns, eq_comm]
  | cons rdn rest ih =>
      rw [List.forall₂_cons_left_iff]
      simp only [normalizeRdns, ← ih]
      cases normalizeRdn? rdn with
      | none => simp
      | some n => cases normalizeRdns rest <;> simp [Except.map, eq_comm]

theorem eq_of_normalizeRdns {rdns ns : List (List Char)} (h : normalizeRdns rdns = .ok ns) :
    ns = rdns.map canonical ∧ ∀ rdn ∈ rdns, rdn = typeOf rdn ++ '=' :: valueOf rdn := by
  rw [normalizeRdns_eq_ok] at h
  induction h with
  | nil => exact ⟨rfl, fun _ h => nomatch h⟩
  | cons hn _ ih =>
      obtain ⟨hpart, -, -, hcanonical⟩ := normalizeRdn?_eq_some.1 hn
      rw [List.map_cons, ← hcanonical, ← ih.1, List.forall_mem_cons]
      exact ⟨rfl, hpart, ih.2⟩

theorem isWhole_canonical {rdn : List Char} (hparts : rdn = typeOf rdn ++ '=' :: valueOf rdn)
    (h : isWhole false rdn = true) : isWhole false (canonical rdn) = true := by
  have hequals : ∀ escaped rest, isWhole escaped ('=' :: rest) = isWhole false rest := by
    intro escaped rest
    simp [isWhole]
  rw [hparts, isWhole_append, hequals] at h
  simp only [Bool.and_eq_true] at h
  rw [canonical, isWhole_append, hequals, typeKey, valueKey, isWhole_lowercaseChars,
    isWhole_lowercaseChars, isWhole_trimChars h.1, isWhole_trimChars h.2]
  rfl

/-- A normal RDN escapes what follows exactly if the value, trimmed, does. -/
theorem dangling_canonical (rdn : List Char) :
    Dangling (canonical rdn) ↔ Dangling (trimChars (valueOf rdn)) := by
  have hequals : ∀ escaped rest, escapesNext escaped ('=' :: rest) = escapesNext false rest := by
    intro escaped rest
    simp [escapesNext]
  rw [← escapesNext_iff, ← escapesNext_iff, canonical, escapesNext_append, hequals, valueKey,
    escapesNext_lowercaseChars]

theorem canonical_eq_iff {r s : List Char} :
    canonical r = canonical s ↔ typeKey r = typeKey s ∧ valueKey r = valueKey s := by
  constructor
  · intro h
    -- the first equality sign ends the type
    have htype : typeKey r = typeKey s := by
      rw [← (takeWhile_equals (equals_notMem_typeKey r) (valueKey r)).1,
        ← (takeWhile_equals (equals_notMem_typeKey s) (valueKey s)).1]
      exact congrArg _ h
    refine ⟨htype, ?_⟩
    rw [canonical, canonical, htype, List.append_cancel_left_eq, List.cons.injEq] at h
    exact h.2
  · rintro ⟨htype, hvalue⟩
    rw [canonical, canonical, htype, hvalue]

theorem map_canonical_eq_iff {rs ss : List (List Char)} :
    rs.map canonical = ss.map canonical ↔
      List.Forall₂ (fun r s => typeKey r = typeKey s ∧ valueKey r = valueKey s) rs ss := by
  rw [← List.forall₂_eq_eq_eq, List.forall₂_map_left_iff, List.forall₂_map_right_iff]
  simp only [canonical_eq_iff]

/-! ## Normal names -/

/-- The RDNs of a name as they are given. -/
def given (dn : String) : List (List Char) := rdns (Text.trim dn).toList

/-- Two names agree RDN by RDN, up to case and to blanks around commas and equality signs. -/
def Agree (dn dn' : String) : Prop :=
  List.Forall₂ (fun r s => typeKey r = typeKey s ∧ valueKey r = valueKey s) (given dn) (given dn')

/-- No value but the last ends, once it is trimmed, in a backslash that escapes what follows. -/
def KeepsEscapes (dn : String) : Prop :=
  ∀ rdn ∈ (given dn).dropLast, ¬ Dangling (trimChars (valueOf rdn))

theorem keepsEscapes_iff (dn : String) :
    KeepsEscapes dn ↔ ∀ p ∈ ((given dn).map canonical).dropLast, ¬ Dangling p := by
  rw [← List.map_dropLast, List.forall_mem_map]
  simp only [dangling_canonical]
  exact Iff.rfl

/-- A name with a normal form is normalized RDN by RDN. -/
theorem exists_of_normalize {dn n : String} (h : normalize dn = .ok n) :
    ∃ ns, normalizeRdns (given dn) = .ok ns ∧ n.toList = join ns := by
  unfold normalize at h
  split at h
  · rename_i cs hcs
    rw [Except.ok.injEq] at h
    have hgiven : given dn = rdns (trimChars dn.toList) := by rw [given, Text.toList_trim]
    unfold normalizeChars at hcs
    simp only at hcs
    split at hcs
    · rename_i hnil
      cases hcs
      rw [hgiven, hnil, ← h]
      exact ⟨[], rfl, rfl⟩
    · rename_i hne
      rw [← rdns_of_ne_nil hne, ← hgiven] at hcs
      cases hns : normalizeRdns (given dn) with
      | error e =>
          rw [hns] at hcs
          cases hcs
      | ok ns =>
          rw [hns] at hcs
          cases hcs
          exact ⟨ns, rfl, by rw [← h, String.toList_ofList]⟩
  · cases h

/-- The normal form is the normal RDNs, joined, and these are whole. -/
theorem toList_of_normalize {dn n : String} (h : normalize dn = .ok n) :
    n.toList = join ((given dn).map canonical) ∧
      ∀ p ∈ (given dn).map canonical, isWhole false p = true := by
  obtain ⟨ns, hns, hn⟩ := exists_of_normalize h
  obtain ⟨hcanonical, hparts⟩ := eq_of_normalizeRdns hns
  refine ⟨hcanonical ▸ hn, ?_⟩
  rw [List.forall_mem_map]
  intro rdn hrdn
  exact isWhole_canonical (hparts rdn hrdn) (isWhole_of_mem_rdns hrdn)

/-- The RDNs of a normal form are the normal RDNs of the name, put together where a value escapes
the comma behind it; so they are as many, and the same ones, exactly if no value does. Two names
have one normal form exactly if their RDNs are the same once they are put together so: names that
agree do, and names that do agree unless a value of theirs escapes a comma. -/
theorem normalize_rdns {dn n : String} (h : normalize dn = .ok n) :
    rdns n.toList = glue ((given dn).map canonical) ∧
    ((rdns n.toList).length = (given dn).length ↔ KeepsEscapes dn) ∧
    (rdns n.toList = (given dn).map canonical ↔ KeepsEscapes dn) ∧
    ∀ dn' n', normalize dn' = .ok n' →
      (n = n' ↔ glue ((given dn).map canonical) = glue ((given dn').map canonical)) ∧
      (Agree dn dn' → n = n') ∧
      (KeepsEscapes dn → KeepsEscapes dn' → n = n' → Agree dn dn') := by
  have hrdns : ∀ {dn n : String}, normalize dn = .ok n →
      rdns n.toList = glue ((given dn).map canonical) := by
    intro dn n h
    obtain ⟨hjoin, hwhole⟩ := toList_of_normalize h
    rw [hjoin]
    apply rdns_join hwhole
    rw [List.forall_mem_map]
    intro rdn _
    simp [canonical]
  have hkeeps : ∀ {dn n : String}, normalize dn = .ok n → KeepsEscapes dn →
      rdns n.toList = (given dn).map canonical := by
    intro dn n h hk
    rw [hrdns h, glue_eq_self_iff]
    exact (keepsEscapes_iff dn).1 hk
  refine ⟨hrdns h, ?_, ?_, ?_⟩
  · have hlen : (given dn).length = ((given dn).map canonical).length := by simp
    rw [hrdns h, hlen, length_glue_iff, keepsEscapes_iff]
  · rw [hrdns h, glue_eq_self_iff, keepsEscapes_iff]
  · intro dn' n' h'
    refine ⟨?_, ?_, ?_⟩
    · rw [← hrdns h, ← hrdns h', rdns_inj, String.toList_inj]
    · intro hagree
      apply String.toList_inj.1
      rw [(toList_of_normalize h).1, (toList_of_normalize h').1, map_canonical_eq_iff.2 hagree]
    · intro hk hk' heq
      apply map_canonical_eq_iff.1
      rw [← hkeeps h hk, ← hkeeps h' hk', heq]

/-- A value that ends in an escaped blank takes the next RDN for its own, and its name the normal
form of another. -/
theorem normalize_rdns_escaped_blank :
    normalize "cn=a\\ , DC=x" = .ok "cn=a\\,dc=x" ∧ normalize "cn=a\\,dc=x" = .ok "cn=a\\,dc=x" ∧
    (given "cn=a\\ , DC=x").length = 2 ∧ (given "cn=a\\,dc=x").length = 1 ∧
    ((rdns "cn=a\\,dc=x".toList).length = (given "cn=a\\ , DC=x").length ↔
      KeepsEscapes "cn=a\\ , DC=x") := by
  have hnormal : normalize "cn=a\\ , DC=x" = .ok "cn=a\\,dc=x" := by decide
  exact ⟨hnormal, by decide, by decide, by decide, (normalize_rdns hnormal).2.1⟩

end ChangeRelay.Dn
