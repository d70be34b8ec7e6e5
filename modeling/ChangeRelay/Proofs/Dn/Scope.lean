import ChangeRelay.Proofs.Dn.Rdns

/-!
# Scope, RDN by RDN

The scope of a base is decided by the end of a name's text and by the number of its RDNs. That is
the same as to compare the two names RDN by RDN, except where the comma in front of the base is
escaped: then the base is the end of a value, and the name is taken for one that lies below it.
-/

namespace ChangeRelay.Dn

/-- What it means that a name lies in the scope of a base: the base's RDNs are the last of the
name's, behind one more, behind any number of them, or behind none. -/
def Lies (dn base : List Char) : Scope → Prop
  | .base => rdns dn = rdns base
  | .one => ∃ rdn, rdns dn = rdn :: rdns base
  | .sub => rdns base <:+ rdns dn

/-- The name ends in the base, and the comma in front of it belongs to a value. -/
def Swallows (dn base : List Char) : Prop :=
  base ≠ [] ∧ ∃ p, dn = p ++ ',' :: base ∧ Dangling p

/-- Names that are taken for what they are not. -/
def Misjudged (dn base : List Char) : Scope → Prop
  | .base => False
  | .one => Swallows dn base ∧ depth dn = depth base + 1
  | .sub => Swallows dn base

theorem isUnder_iff {base dn : List Char} :
    isUnder base dn = true ↔ base = [] ∨ dn = base ∨ ∃ p, dn = p ++ ',' :: base := by
  simp only [isUnder, Bool.or_eq_true, decide_eq_true_eq, List.isSuffixOf_iff_suffix, or_assoc,
    List.IsSuffix, eq_comm (a := dn)]

/-- A comma that is not escaped divides a name into the RDNs in front of it and those behind. -/
theorem rdns_append_comma {p base : List Char} (h : ¬ Dangling p) (hbase : base ≠ []) :
    rdns (p ++ ',' :: base) = split p ++ rdns base := by
  rw [rdns_of_ne_nil (by simp), rdns_of_ne_nil hbase]
  exact splitFrom_append_comma ((escapesNext_eq_false p).2 h) base

/-- Where a name's RDNs are divided in two, the first of them are a text that escapes nothing. -/
theorem exists_of_rdns_eq_append {dn base : List Char} {ps : List (List Char)}
    (h : rdns dn = ps ++ rdns base) (hps : ps ≠ []) (hbase : base ≠ []) :
    ∃ p, dn = p ++ ',' :: base ∧ ¬ Dangling p ∧ split p = ps := by
  have hdn : dn ≠ [] := by
    rintro rfl
    rw [rdns_nil] at h
    exact hps (List.append_eq_nil_iff.1 h.symm).1
  rw [rdns_of_ne_nil hdn, rdns_of_ne_nil hbase] at h
  obtain ⟨p, q, hsplit, hescape, hp, hq⟩ := splitFrom_eq_append h hps (split_ne_nil base)
  have hqbase : q = base := by
    rw [← join_splitFrom false q, ← join_splitFrom false base]
    exact congrArg join hq
  exact ⟨p, hqbase ▸ hsplit, (escapesNext_eq_false p).1 hescape, hp⟩

/-- A base lies at the end of a name exactly if a comma that is not escaped stands in front. -/
theorem rdns_suffix_iff {dn base : List Char} :
    rdns base <:+ rdns dn ↔
      base = [] ∨ dn = base ∨ ∃ p, dn = p ++ ',' :: base ∧ ¬ Dangling p := by
  by_cases hbase : base = []
  · subst hbase
    simp
  · constructor
    · rintro ⟨ps, hps⟩
      by_cases hnil : ps = []
      · subst hnil
        exact .inr (.inl (rdns_inj.1 hps.symm))
      · obtain ⟨p, hdn, hp, -⟩ := exists_of_rdns_eq_append hps.symm hnil hbase
        exact .inr (.inr ⟨p, hdn, hp⟩)
    · rintro (h | rfl | ⟨p, rfl, hp⟩)
      · exact absurd h hbase
      · exact List.suffix_refl _
      · rw [rdns_append_comma hp hbase]
        exact List.suffix_append _ _

/-- A name that swallowed the base does not lie below it. -/
theorem Swallows.not_suffix {dn base : List Char} (h : Swallows dn base) :
    ¬ rdns base <:+ rdns dn := by
  obtain ⟨hbase, p, rfl, hp⟩ := h
  rw [rdns_suffix_iff]
  rintro (hnil | hself | ⟨q, hq, hescape⟩)
  · exact hbase hnil
  · have hlen := congrArg List.length hself
    simp only [List.length_append, List.length_cons] at hlen
    omega
  · -- there is one text in front of the base, and it ends in a backslash that escapes
    rw [List.append_cancel_right_eq] at hq
    exact hescape (hq ▸ hp)

theorem isUnder_iff_lies {dn base : List Char} :
    isUnder base dn = true ↔ rdns base <:+ rdns dn ∨ Swallows dn base := by
  rw [isUnder_iff, rdns_suffix_iff, Swallows]
  constructor
  · rintro (h | h | ⟨p, hp⟩)
    · exact .inl (.inl h)
    · exact .inl (.inr (.inl h))
    · by_cases hbase : base = []
      · exact .inl (.inl hbase)
      · by_cases hdangling : Dangling p
        · exact .inr ⟨hbase, p, hp, hdangling⟩
        · exact .inl (.inr (.inr ⟨p, hp, hdangling⟩))
  · rintro ((h | h | ⟨p, hp, -⟩) | ⟨-, p, hp, -⟩)
    · exact .inl h
    · exact .inr (.inl h)
    · exact .inr (.inr ⟨p, hp⟩)
    · exact .inr (.inr ⟨p, hp⟩)

/-- One RDN in front of the base's is what the number of RDNs says of a name below the base. -/
theorem lies_one_iff {dn base : List Char} :
    Lies dn base .one ↔ rdns base <:+ rdns dn ∧ depth dn = depth base + 1 := by
  constructor
  · rintro ⟨rdn, hrdn⟩
    refine ⟨⟨[rdn], hrdn.symm⟩, ?_⟩
    rw [depth, depth, hrdn, List.length_cons]
  · rintro ⟨⟨ps, hps⟩, hdepth⟩
    rw [depth, depth, ← hps, List.length_append] at hdepth
    obtain ⟨rdn, rfl⟩ := List.length_eq_one_iff.1 (show ps.length = 1 by omega)
    exact ⟨rdn, hps.symm⟩

/-- A name is found in scope exactly if it lies there RDN by RDN or is misjudged, and one that is
misjudged does not lie there. -/
theorem inScope_iff_lies (dn base : String) (scope : Scope) :
    (inScope dn.toList base.toList scope = true ↔
      Lies dn.toList base.toList scope ∨ Misjudged dn.toList base.toList scope) ∧
    ¬ (Lies dn.toList base.toList scope ∧ Misjudged dn.toList base.toList scope) := by
  unfold inScope
  rw [Bool.and_eq_true, isUnder_iff_lies]
  cases scope with
  | base =>
      -- a name that is the base lies below it, too
      have hself : dn.toList = base.toList → rdns base.toList <:+ rdns dn.toList := by
        intro h
        exact (rdns_inj.2 h.symm) ▸ List.suffix_refl _
      simp only [Lies, Misjudged, rdns_inj, decide_eq_true_eq]
      constructor
      · constructor
        · intro h
          exact .inl h.2
        · rintro (h | h)
          · exact ⟨.inl (hself h), h⟩
          · exact h.elim
      · intro h
        exact h.2
  | one =>
      rw [lies_one_iff]
      simp only [Misjudged, decide_eq_true_eq]
      constructor
      · exact or_and_right
      · intro h
        exact h.2.1.not_suffix h.1.1
  | sub =>
      constructor
      · exact and_iff_left rfl
      · intro h
        exact h.2.not_suffix h.1

/-- The value `a\,dc=x` ends in the base, and its entry is found below it. -/
example : inScope "cn=a\\,dc=x".toList "dc=x".toList .sub = true ∧
    ¬ rdns "dc=x".toList <:+ rdns "cn=a\\,dc=x".toList := by
  decide

end ChangeRelay.Dn
