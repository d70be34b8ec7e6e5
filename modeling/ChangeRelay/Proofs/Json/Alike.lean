import ChangeRelay.Proofs.Assoc
import ChangeRelay.Proofs.Json.Doubles

/-!
# Values written alike

Two values are alike if they are the same but for the order of the fields of their objects and for
fields that a later one of the same name overrides. Alike values are those of one canonical form.
-/

namespace ChangeRelay.Json

/-- The value of a name in an object: that of its last field. -/
def Fields.last? (fields : Fields) (name : String) : Option Value :=
  Assoc.find? name fields.reverse

namespace Value

/-- The same value, kind by kind: strings character by character, numbers of one kind by their
value and their sign, arrays item by item, and objects name by name. -/
inductive Alike : Value → Value → Prop
  | null : Alike .null .null
  | bool (b : Bool) : Alike (.bool b) (.bool b)
  | int (n : Int) : Alike (.int n) (.int n)
  | double {x y : Double} (hvalue : x.compare? y = some .eq)
      (hsign : x.isNegative = y.isNegative) : Alike (.double x) (.double y)
  | string {s t : String} (h : s.toList = t.toList) : Alike (.string s) (.string t)
  | array {as bs : List Value} (hlength : as.length = bs.length)
      (hitems : ∀ i (ha : i < as.length) (hb : i < bs.length), Alike as[i] bs[i]) :
      Alike (.array as) (.array bs)
  | object {fs gs : Fields} (hnames : ∀ k, (fs.last? k).isSome = (gs.last? k).isSome)
      (hfields : ∀ k a b, fs.last? k = some a → gs.last? k = some b → Alike a b) :
      Alike (.object fs) (.object gs)

/-! ## Canonical values -/

theorem canonicalItems_eq_map (items : List Value) :
    canonicalItems items = items.map canonical := by
  induction items with
  | nil => rfl
  | cons v vs ih => rw [canonicalItems, List.map_cons, ih]

theorem canonicalFields_eq_map (fields : Fields) :
    canonicalFields fields = fields.map fun p => (p.1, canonical p.2) := by
  induction fields with
  | nil => rfl
  | cons p fields ih => rw [canonicalFields, List.map_cons, ih]

/-- A canonical object has the last field of each name. -/
theorem find?_ofList_canonicalFields (fields : Fields) (k : String) :
    Assoc.find? k (Assoc.ofList (canonicalFields fields)) = (fields.last? k).map canonical := by
  rw [Assoc.find?_ofList, canonicalFields_eq_map, ← List.map_reverse, Assoc.find?_map_value,
    Fields.last?]

theorem mem_of_last? {fields : Fields} {k : String} {v : Value} (h : fields.last? k = some v) :
    (k, v) ∈ fields :=
  List.mem_reverse.1 (Assoc.mem_of_find? h)

theorem Sound.canonical {v : Value} (h : v.Sound) : v.canonical.Sound := by
  induction h with
  | null => exact .null
  | bool b => exact .bool b
  | int hlow hhigh => exact .int hlow hhigh
  | double h => exact .double h
  | string s => exact .string s
  | @array items h ih =>
    rw [Value.canonical, canonicalItems_eq_map]
    apply Sound.array
    intro w hw
    obtain ⟨v, hv, rfl⟩ := List.mem_map.1 hw
    exact ih v hv
  | @object fields h ih =>
    rw [Value.canonical, ofFields]
    apply Sound.object
    rintro ⟨k, w⟩ hp
    have hfind := (Assoc.find?_eq_some_iff (Assoc.ascending_ofList _).keys_nodup).2 hp
    rw [find?_ofList_canonicalFields, Option.map_eq_some_iff] at hfind
    obtain ⟨v, hv, rfl⟩ := hfind
    exact ih (k, v) (mem_of_last? hv)

/-! ## Alike values are of one canonical form -/

/-- Objects are of one canonical form if their last fields of each name are. -/
theorem canonical_object_eq_iff {fs gs : Fields} :
    (Value.object fs).canonical = (Value.object gs).canonical ↔
      ∀ k, (fs.last? k).map canonical = (gs.last? k).map canonical := by
  rw [canonical, canonical, ofFields, ofFields, object.injEq]
  constructor
  · intro h k
    rw [← find?_ofList_canonicalFields, ← find?_ofList_canonicalFields, h]
  · intro h
    apply (Assoc.ascending_ofList _).ext (Assoc.ascending_ofList _)
    intro k
    rw [find?_ofList_canonicalFields, find?_ofList_canonicalFields, h k]

theorem canonical_eq_of_alike {a b : Value} (h : a.Alike b) (ha : a.Sound) (hb : b.Sound) :
    a.canonical = b.canonical := by
  induction h with
  | null => rfl
  | bool b => rfl
  | int n => rfl
  | double hvalue hsign =>
    cases ha with
    | double hx =>
      cases hb with
      | double hy => rw [(Double.eq_iff_compare? hx hy).2 ⟨hvalue, hsign⟩]
  | string h => rw [String.toList_inj.1 h]
  | @array as bs hlength hitems ih =>
    cases ha with
    | array has =>
      cases hb with
      | array hbs =>
        rw [canonical, canonical, canonicalItems_eq_map, canonicalItems_eq_map]
        congr 1
        apply List.ext_getElem
        · rw [List.length_map, List.length_map, hlength]
        · intro i hi hj
          rw [List.length_map] at hi hj
          rw [List.getElem_map, List.getElem_map]
          exact ih i hi hj (has _ (List.getElem_mem hi)) (hbs _ (List.getElem_mem hj))
  | @object fs gs hnames hfields ih =>
    cases ha with
    | object hfs =>
      cases hb with
      | object hgs =>
        rw [canonical_object_eq_iff]
        intro k
        -- the fields that count are both there or both missing
        have hname := hnames k
        cases hf : fs.last? k with
        | none =>
          cases hg : gs.last? k with
          | none => rfl
          | some w =>
            rw [hf, hg] at hname
            cases hname
        | some v =>
          cases hg : gs.last? k with
          | none =>
            rw [hf, hg] at hname
            cases hname
          | some w =>
            have hvalues := ih k v w hf hg (hfs _ (mem_of_last? hf)) (hgs _ (mem_of_last? hg))
            rw [Option.map_some, Option.map_some, hvalues]

theorem alike_of_canonical_eq {a b : Value} (ha : a.Sound) (hb : b.Sound)
    (h : a.canonical = b.canonical) : a.Alike b := by
  -- on the first value; what the second one is made of follows from its form
  induction ha generalizing b with
  | null =>
    cases hb <;> cases h
    exact .null
  | bool x =>
    cases hb <;> cases h
    exact .bool x
  | @int n hlow hhigh =>
    cases hb <;> cases h
    exact .int n
  | @double x hx =>
    cases hb <;> cases h
    obtain ⟨hvalue, hsign⟩ := (Double.eq_iff_compare? hx hx).1 rfl
    exact .double hvalue hsign
  | string s =>
    cases hb <;> cases h
    exact .string rfl
  | @array as has ih =>
    cases hb with
    | @array bs hbs =>
      rw [canonical, canonical, canonicalItems_eq_map, canonicalItems_eq_map, array.injEq] at h
      have hlength : as.length = bs.length := by
        have hlengths := congrArg List.length h
        rw [List.length_map, List.length_map] at hlengths
        exact hlengths
      apply Alike.array hlength
      intro i hi hj
      apply ih _ (List.getElem_mem hi) (hbs _ (List.getElem_mem hj))
      have hi' : i < (as.map canonical).length := by rwa [List.length_map]
      have hitem := List.getElem_of_eq h hi'
      rw [List.getElem_map, List.getElem_map] at hitem
      exact hitem
    | _ => cases h
  | @object fs hfs ih =>
    cases hb with
    | @object gs hgs =>
      rw [canonical_object_eq_iff] at h
      constructor
      · intro k
        have hnames := congrArg Option.isSome (h k)
        rw [Option.isSome_map, Option.isSome_map] at hnames
        exact hnames
      · intro k v w hv hw
        have hvalues := h k
        rw [hv, hw, Option.map_some, Option.map_some, Option.some.injEq] at hvalues
        exact ih _ (mem_of_last? hv) (hgs _ (mem_of_last? hw)) hvalues
    | _ => cases h

/-- Alike are the values of one canonical form. -/
theorem canonical_eq_iff {a b : Value} (ha : a.Sound) (hb : b.Sound) :
    a.canonical = b.canonical ↔ a.Alike b :=
  ⟨alike_of_canonical_eq ha hb, fun h => canonical_eq_of_alike h ha hb⟩

end Value

end ChangeRelay.Json
