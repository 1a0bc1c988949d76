import CycleComparison.Proofs.Json.Exact
import CycleComparison.Proofs.Json.Fields

/-!
# Numbers read again

A finite number is read from its JSON text as some finite number, which need not
be the number itself. `reread` is what it is read as, so what is read from the
text of a record is the record with `reread` applied to its numbers, and the
record itself exactly if every number is read back.
-/

namespace CycleComparison

namespace Binary64

/-- What a number is read as from the document that it is written as. -/
def reread (x : Binary64) : Binary64 := x.toJson.binary64?.getD x

theorem binary64?_toJson {x : Binary64} (h : x.isFinite) : x.toJson.binary64? = some x.reread := by
  obtain ⟨y, hy⟩ := Option.isSome_iff_exists.1 (isSome_binary64?_toJson h)
  rw [reread, hy, Option.getD_some]

theorem toJson_ne_null {x : Binary64} (h : x.isFinite) : x.toJson ≠ .null := by
  cases x with
  | nan => cases h
  | infinite negative => cases h
  | finite negative step => exact nofun

/-- A number that may be absent is read again, or is absent again. -/
theorem option?_ofOption_toJson {x : Option Binary64} (h : ∀ y ∈ x, y.isFinite) :
    Json.option? Json.binary64? (some (.ofOption toJson x)) = some (x.map reread) :=
  Json.option?_ofOption fun y hy => ⟨toJson_ne_null (h y hy), binary64?_toJson (h y hy)⟩

/-- Only an absent number is written as `null`. -/
theorem ofOption_toJson_eq_null_iff {x : Option Binary64} (h : ∀ y ∈ x, y.isFinite) :
    Json.ofOption toJson x = .null ↔ x = none := by
  cases x with
  | none => exact ⟨fun _ => rfl, fun _ => rfl⟩
  | some y => exact ⟨fun hnull => absurd hnull (toJson_ne_null (h y rfl)), nofun⟩

/-- A number is read from its own text. -/
def IsReadBack (x : Binary64) : Prop :=
  (Json.read? x.toJson.toCompactText).bind Json.binary64? = some x

theorem isReadBack_iff {x : Binary64} : x.IsReadBack ↔ x.toJson.binary64? = some x := by
  rw [IsReadBack, Json.read?_toCompactText x.isWritable_toJson, Option.bind_some]

theorem reread_eq_self_iff {x : Binary64} (h : x.isFinite) : x.reread = x ↔ x.IsReadBack := by
  rw [isReadBack_iff, binary64?_toJson h, Option.some.injEq]

end Binary64

section SelfMaps

variable {α : Type} {f : α → α}

theorem optionMap_eq_self_iff {x : Option α} : x.map f = x ↔ ∀ y ∈ x, f y = y := by
  cases x <;> simp

theorem listMap_eq_self_iff {l : List α} : l.map f = l ↔ ∀ y ∈ l, f y = y := by
  simpa using List.map_inj_left (f := f) (g := id) (l := l)

end SelfMaps

end CycleComparison
