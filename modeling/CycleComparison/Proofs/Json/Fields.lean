import CycleComparison.Json.Fields
import CycleComparison.Proofs.Json.RoundTrip

/-!
# Written records

The fields of a record are found again in the object that it is written as, as
long as their names differ. A list is read item by item and an absent value is
`null`, so a record is read back wherever its values are.
-/

namespace CycleComparison

namespace Json

section Writable

theorem areItemsWritable_iff (items : List Json) :
    areItemsWritable items ↔ ∀ value ∈ items, value.isWritable := by
  induction items with
  | nil => exact ⟨nofun, fun _ => rfl⟩
  | cons value items ih => simp [areItemsWritable_cons, ih]

theorem isWritable_ofText (text : String) : (ofText text).isWritable := isWritable_symbolsOf text

theorem isWritable_ofList {α : Type} {f : α → Json} {values : List α}
    (h : ∀ x ∈ values, (f x).isWritable) : (ofList f values).isWritable := by
  rw [ofList, isWritable_array, areItemsWritable_iff]
  intro value hvalue
  obtain ⟨x, hx, rfl⟩ := List.mem_map.1 hvalue
  exact h x hx

theorem isWritable_ofOption {α : Type} {f : α → Json} (h : ∀ x, (f x).isWritable)
    (x : Option α) : (ofOption f x).isWritable := by
  cases x with
  | none => rfl
  | some x => exact h x

theorem all_ofMembers {number : Numeral → Bool} {string : List Symbol → Bool}
    {members : List (String × Json)} (hnames : ∀ name, string (symbolsOf name))
    (h : ∀ member ∈ members, member.2.all number string) :
    (ofMembers members).all number string := by
  rw [ofMembers, all]
  induction members with
  | nil => rfl
  | cons member members ih =>
      rw [List.map_cons, allMembers, Bool.and_eq_true, Bool.and_eq_true]
      exact ⟨⟨hnames member.1, h member List.mem_cons_self⟩,
        ih fun member hmember => h member (List.mem_cons_of_mem _ hmember)⟩

theorem isWritable_ofMembers {members : List (String × Json)}
    (h : ∀ member ∈ members, member.2.isWritable) : (ofMembers members).isWritable :=
  all_ofMembers isWritable_symbolsOf h

end Writable

theorem depth_ofMembers_le {bound : Nat} {members : List (String × Json)}
    (h : ∀ member ∈ members, member.2.depth ≤ bound) : (ofMembers members).depth ≤ bound + 1 := by
  rw [ofMembers, depth]
  apply Nat.succ_le_succ
  induction members with
  | nil => exact Nat.zero_le bound
  | cons member members ih =>
      rw [List.map_cons, depthOfMembers]
      exact Nat.max_le.2 ⟨h member List.mem_cons_self,
        ih fun member hmember => h member (List.mem_cons_of_mem _ hmember)⟩

/-- A list is read as what its items are read as. -/
theorem mapM_eq_some_map {α β : Type} {f : α → Option β} {g : α → β} {l : List α}
    (h : ∀ x ∈ l, f x = some (g x)) : l.mapM f = some (l.map g) := by
  induction l with
  | nil => rfl
  | cons x l ih =>
      rw [List.mapM_cons, h x List.mem_cons_self, ih fun y hy => h y (List.mem_cons_of_mem _ hy)]
      rfl

theorem list?_ofList {α β : Type} {f : α → Json} {read : Json → Option β} {g : α → β}
    {values : List α} (h : ∀ x ∈ values, read (f x) = some (g x)) :
    (ofList f values).list? read = some (values.map g) := by
  rw [ofList, list?, List.mapM_map]
  exact mapM_eq_some_map h

theorem option?_ofOption {α β : Type} {f : α → Json} {read : Json → Option β} {g : α → β}
    {x : Option α} (h : ∀ y ∈ x, f y ≠ .null ∧ read (f y) = some (g y)) :
    option? read (some (ofOption f x)) = some (x.map g) := by
  cases x with
  | none => rfl
  | some x =>
      obtain ⟨hnull, hread⟩ := h x rfl
      simp [ofOption, option?, hread]

@[simp] theorem text?_ofText (text : String) : (ofText text).text? = some text :=
  textOf?_symbolsOf text

theorem named?_symbolsOf (members : List (String × Json)) :
    named? (members.map fun (name, value) => (symbolsOf name, value)) = some members := by
  rw [named?, List.mapM_map]
  simpa using mapM_eq_some_map (g := id) (l := members) fun member _ => by simp

theorem filter_name_of_mem {members : List (String × Json)} (hnames : (members.map (·.1)).Nodup)
    {member : String × Json} (h : member ∈ members) :
    (members.filter fun other => other.1 == member.1) = [member] := by
  induction members with
  | nil => cases h
  | cons first members ih =>
      obtain ⟨hfirst, hnames⟩ := List.nodup_cons.1 hnames
      have hother : ∀ other ∈ members, other.1 ≠ first.1 := by
        intro other hother heq
        exact hfirst (List.mem_map.2 ⟨other, hother, heq⟩)
      rcases List.mem_cons.1 h with rfl | h
      · have hnone : (members.filter fun other => other.1 == member.1) = [] :=
          List.filter_eq_nil_iff.2 fun other hmem => by simpa using hother other hmem
        simp [hnone]
      · have hne : (first.1 == member.1) = false := beq_false_of_ne (hother member h).symm
        rw [List.filter_cons, hne, if_neg Bool.false_ne_true, ih hnames h]

/-- Some of the members of an object are found by their names. -/
theorem objectFields?_symbolsOf {members fields : List (String × Json)}
    (hnames : (members.map (·.1)).Nodup) (h : fields ⊆ members) :
    objectFields? (fields.map (·.1)) (members.map fun (name, value) => (symbolsOf name, value)) =
      some (fields.map fun field => some field.2) := by
  rw [objectFields?, named?_symbolsOf, Option.bind_some, List.mapM_map]
  apply mapM_eq_some_map
  intro field hfield
  simp only [Function.comp_apply, member?, filter_name_of_mem hnames (h hfield)]

/-- The fields of a record are found in the object that it is written as. -/
theorem fields?_ofMembers {members : List (String × Json)}
    (hnames : (members.map (·.1)).Nodup) :
    fields? (members.map (·.1)) (ofMembers members) =
      some (members.map fun member => some member.2) :=
  objectFields?_symbolsOf hnames (List.Subset.refl members)

end Json

end CycleComparison
