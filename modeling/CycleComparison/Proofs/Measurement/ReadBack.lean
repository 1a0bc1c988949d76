import CycleComparison.Measurement.Json
import CycleComparison.Proofs.Json.Reread

/-!
# Reading written measurements

A classified measurement is written as one object with the fields of two
records. The names of the fields differ, so either record finds its own fields
among the members, and no member makes the object be refused: every number that
is written is in range, every string has a text, and nothing is nested. A table of
classified measurements is therefore read from its text as the same table with
its cycles read again.
-/

namespace CycleComparison

open Binary64 (reread)

section Variants

variable (isEmpty : Json → Bool)

theorem Version.ofJson?_toJson (v : Version) : Version.ofJson? isEmpty v.toJson = some v := by
  simp [Version.ofJson?, Version.toJson, Json.ofText, Json.variantName?]

theorem Precision.ofJson?_toJson (p : Precision) : Precision.ofJson? isEmpty p.toJson = some p := by
  simp [Precision.ofJson?, Precision.toJson, Json.ofText, Json.variantName?]

theorem Classification.ofFields?_members (kind : Classification) :
    ofFields? isEmpty (kind.members.map fun member => some member.2) = some kind := by
  simp [ofFields?, members, Json.uint64?_ofNat_toNat, Version.ofJson?_toJson,
    Precision.ofJson?_toJson]

end Variants

namespace Json

theorem int64?_ofInt_toInt (id : Int64) : (ofInt id.toInt).int64? = some id := by
  rw [int64?, ofInt, int?_number_integerNumeral, Option.bind_some, int64OfInt?_toInt]

/-- A document without levels that is written, and that has a value. -/
structure IsPlain (value : Json) : Prop where
  isWritable : value.isWritable
  isMeaningful : value.isMeaningful
  depth : value.depth = 0

theorem isPlain_ofText (text : String) : (ofText text).IsPlain where
  isWritable := isWritable_ofText text
  isMeaningful := by
    rw [isMeaningful, ofText, all, textOf?_symbolsOf, Option.isSome_some]
  depth := rfl

theorem isPlain_ofInt {n : Int} (h : n.natAbs < UInt64.size) : (ofInt n).IsPlain where
  isWritable := decide_eq_true (isJson_integerNumeral n)
  isMeaningful := by
    apply Numeral.isSome_approximate?
    · rwa [integerNumeral, Decimal.valueOf_digitsOf]
    · exact .inl (Int.le_refl 0)
  depth := rfl

theorem isPlain_ofInt_toInt (id : Int64) : (ofInt id.toInt).IsPlain := by
  apply isPlain_ofInt
  have hlow := id.minValue_le_toInt
  have hhigh := id.toInt_le
  rw [Int64.toInt_minValue] at hlow
  rw [Int64.toInt_maxValue] at hhigh
  rw [UInt64.size]
  omega

theorem isPlain_ofNat_toNat (w : UInt64) : (ofNat w.toNat).IsPlain := isPlain_ofInt w.toNat_lt

theorem isPlain_toJson {x : Binary64} (h : x.isFinite) : x.toJson.IsPlain where
  isWritable := x.isWritable_toJson
  isMeaningful := by
    have hread := Binary64.isSome_binary64?_toJson h
    cases x with
    | nan => cases h
    | infinite negative => cases h
    | finite negative step => exact hread
  depth := by
    cases x <;> rfl

theorem isPlain_ofOption_toJson {x : Option Binary64} (h : ∀ y ∈ x, y.isFinite) :
    (ofOption Binary64.toJson x).IsPlain := by
  cases x with
  | none => exact ⟨rfl, rfl, rfl⟩
  | some y => exact isPlain_toJson (h y rfl)

section Members

variable {members : List (String × Json)}

theorem isWritable_ofPlainMembers (h : ∀ member ∈ members, member.2.IsPlain) :
    (ofMembers members).isWritable :=
  isWritable_ofMembers fun member hmember => (h member hmember).isWritable

theorem isMeaningful_ofPlainMembers (h : ∀ member ∈ members, member.2.IsPlain) :
    (ofMembers members).isMeaningful := by
  apply all_ofMembers
  · intro name
    rw [textOf?_symbolsOf, Option.isSome_some]
  · exact fun member hmember => (h member hmember).isMeaningful

theorem depth_ofPlainMembers_le (h : ∀ member ∈ members, member.2.IsPlain) :
    (ofMembers members).depth ≤ 1 :=
  depth_ofMembers_le fun member hmember => Nat.le_of_eq (h member hmember).depth

end Members

end Json

theorem Measurement.ofFields?_members {m : Measurement} (h : ∀ x ∈ m.cycles, x.isFinite) :
    ofFields? (m.members.map fun member => some member.2) =
      some { m with cycles := m.cycles.map reread } := by
  simp [ofFields?, members, Json.int64?_ofInt_toInt, Binary64.option?_ofOption_toJson h]

namespace ClassifiedMeasurement

variable {m : ClassifiedMeasurement}

/-- The members of the object that a classified measurement is written as. -/
def members (m : ClassifiedMeasurement) : List (String × Json) :=
  m.measurement.members ++ m.classification.members

/-- No field of a measurement has the name of a field of a classification. -/
theorem nodup_names (m : ClassifiedMeasurement) : (m.members.map (·.1)).Nodup := by
  change (Measurement.fieldNames ++ Classification.fieldNames).Nodup
  decide

def numbers (m : ClassifiedMeasurement) : List Binary64 := m.measurement.cycles.toList

def mapNumbers (f : Binary64 → Binary64) (m : ClassifiedMeasurement) : ClassifiedMeasurement :=
  { m with measurement := { m.measurement with cycles := m.measurement.cycles.map f } }

theorem mapNumbers_eq_self_iff {f : Binary64 → Binary64} :
    m.mapNumbers f = m ↔ ∀ x ∈ m.numbers, f x = x := by
  obtain ⟨⟨id, name, iterations, cycles⟩, classification⟩ := m
  simp [mapNumbers, numbers, optionMap_eq_self_iff]

theorem isPlain_of_mem_members (h : ∀ x ∈ m.numbers, x.isFinite) :
    ∀ member ∈ m.members, member.2.IsPlain := by
  have hcycles : (Json.ofOption Binary64.toJson m.measurement.cycles).IsPlain :=
    Json.isPlain_ofOption_toJson fun x hx => h x (Option.mem_toList.2 hx)
  have hversion : m.classification.version.toJson.IsPlain := Json.isPlain_ofText _
  have hprecision : m.classification.precision.toJson.IsPlain := Json.isPlain_ofText _
  simp [members, Measurement.members, Classification.members, Json.isPlain_ofInt_toInt,
    Json.isPlain_ofText, Json.isPlain_ofNat_toNat, hcycles, hversion, hprecision]

/-- A classified measurement is read from its object, wherever it stands in a
document that is not nested too deeply. -/
theorem ofJson?_toJson (h : ∀ x ∈ m.numbers, x.isFinite) {level : Nat}
    (hlevel : level + 1 ≤ Json.maxDepth) :
    ofJson? level m.toJson = some (m.mapNumbers reread) := by
  have hplain := isPlain_of_mem_members h
  have hmeaningful := Json.isMeaningful_ofPlainMembers hplain
  have hdepth := Json.depth_ofPlainMembers_le hplain
  have hmeasurement : Json.objectFields? Measurement.fieldNames _ = _ :=
    Json.objectFields?_symbolsOf m.nodup_names (List.subset_append_left _ _)
  have hclassification : Json.objectFields? Classification.fieldNames _ = _ :=
    Json.objectFields?_symbolsOf m.nodup_names (List.subset_append_right _ _)
  have hcycles := Measurement.ofFields?_members fun x hx => h x (Option.mem_toList.2 hx)
  rw [Json.ofMembers] at hmeaningful hdepth
  have hlevel := Nat.le_trans (Nat.add_le_add_left hdepth level) hlevel
  change ofJson? level (.object (m.members.map _)) = _
  simp [ofJson?, hmeaningful, hlevel, hmeasurement, hclassification, hcycles,
    Classification.ofFields?_members, mapNumbers]

/-- The cycles of a classified measurement are written as `null` only if there
are none. -/
theorem cycles_toJson_eq_null_iff (h : ∀ x ∈ m.numbers, x.isFinite) :
    m.toJson.fields? ["cycles"] = some [some .null] ↔ m.measurement.cycles = none := by
  have hmember : [("cycles", Json.ofOption Binary64.toJson m.measurement.cycles)] ⊆ m.members :=
    List.subset_append_of_subset_left _ (by simp [Measurement.members])
  have hfield : m.toJson.fields? ["cycles"] = _ :=
    Json.objectFields?_symbolsOf m.nodup_names hmember
  have hnull := Binary64.ofOption_toJson_eq_null_iff fun x hx => h x (Option.mem_toList.2 hx)
  rw [hfield, ← hnull]
  simp

section Tables

variable {ms : List ClassifiedMeasurement}

def tableNumbers (ms : List ClassifiedMeasurement) : List Binary64 := ms.flatMap numbers

theorem tableOfJson?_tableToJson (h : ∀ x ∈ tableNumbers ms, x.isFinite) :
    tableOfJson? (tableToJson ms) = some (ms.map (mapNumbers reread)) := by
  rw [tableNumbers, List.forall_mem_flatMap] at h
  have hfields : (tableToJson ms).fields? ["records"] = some [some (.ofList toJson ms)] :=
    Json.fields?_ofMembers (by simp)
  rw [tableOfJson?, hfields]
  exact Json.list?_ofList fun m hm => ofJson?_toJson (h m hm) (by decide)

theorem isWritable_tableToJson (h : ∀ x ∈ tableNumbers ms, x.isFinite) :
    (tableToJson ms).isWritable := by
  rw [tableNumbers, List.forall_mem_flatMap] at h
  have hrecords : (Json.ofList toJson ms).isWritable := Json.isWritable_ofList fun m hm =>
    Json.isWritable_ofPlainMembers (isPlain_of_mem_members (h m hm))
  apply Json.isWritable_ofMembers
  simp [hrecords]

/-- A table of classified measurements is read from its text as the table with
its cycles read again, so it is read back exactly if all of them are. -/
theorem readTable_eq_iff (h : ∀ x ∈ tableNumbers ms, x.isFinite) :
    (Json.read? (tableToJson ms).toCompactText).bind tableOfJson? =
        some (ms.map (mapNumbers reread)) ∧
      ((Json.read? (tableToJson ms).toCompactText).bind tableOfJson? = some ms ↔
        ∀ x ∈ tableNumbers ms, x.IsReadBack) := by
  have hread : (Json.read? (tableToJson ms).toCompactText).bind tableOfJson? =
      some (ms.map (mapNumbers reread)) := by
    rw [Json.read?_toCompactText (isWritable_tableToJson h), Option.bind_some,
      tableOfJson?_tableToJson h]
  refine ⟨hread, ?_⟩
  rw [hread, Option.some.injEq, listMap_eq_self_iff]
  simp only [mapNumbers_eq_self_iff]
  rw [← List.forall_mem_flatMap]
  exact forall₂_congr fun x hx => Binary64.reread_eq_self_iff (h x hx)

end Tables

end ClassifiedMeasurement

end CycleComparison
