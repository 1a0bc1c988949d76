import CycleComparison.Delimited.Reader

/-!
# How a load ends

A load goes along the records until one of them is bad, there is one more than
the limit allows, or there are no more. So it matters only how far the records
are good: a bad record within the limit is reported, one beyond it is not even
looked at. The records themselves do not depend on the limit, and a load that
has not met it ends in the same way under any higher one.
-/

namespace CycleComparison

namespace Delimited

section Records

variable (found : List (Except RecordError (List String)))

/-- So many records are there and can be read. -/
def GoodUpTo (n : Nat) : Prop := ∀ i < n, ∃ row, found[i]? = some (.ok row)

/-- The records up to the limit can be read, and there is another one. -/
def ExceedsLimit (limit : Nat) : Prop := GoodUpTo found limit ∧ limit < found.length

/-- The record with this number, counted from zero, is the first that cannot be
read. -/
def FirstBad (i : Nat) (cause : RecordError) : Prop :=
  GoodUpTo found i ∧ found[i]? = some (.error cause)

variable {found} {i j n limit limit' : Nat} {cause cause' : RecordError}

theorem GoodUpTo.mono (h : GoodUpTo found n) (hle : i ≤ n) : GoodUpTo found i :=
  fun j hj => h j (Nat.lt_of_lt_of_le hj hle)

theorem GoodUpTo.not_error (h : GoodUpTo found n) (hi : i < n) :
    found[i]? ≠ some (.error cause) := by
  obtain ⟨row, hrow⟩ := h i hi
  rw [hrow]
  exact nofun

/-- Records that can be read are rows, and the others come after them. -/
theorem GoodUpTo.exists_rows (h : GoodUpTo found n) :
    ∃ rows : List (List String), rows.length = n ∧ found = rows.map .ok ++ found.drop n := by
  induction n generalizing found with
  | zero => exact ⟨[], rfl, rfl⟩
  | succ n ih =>
      obtain ⟨row, hrow⟩ := h 0 (Nat.succ_pos n)
      cases found with
      | nil => cases hrow
      | cons outcome rest =>
          cases hrow
          have hgood : GoodUpTo rest n := fun i hi => h (i + 1) (Nat.succ_lt_succ hi)
          obtain ⟨rows, hlength, hrest⟩ := ih hgood
          refine ⟨row :: rows, by rw [List.length_cons, hlength], ?_⟩
          rw [List.map_cons, List.cons_append, List.drop_succ_cons, ← hrest]

theorem goodUpTo_map_ok (rows : List (List String)) : GoodUpTo (rows.map .ok) rows.length := by
  intro i hi
  exact ⟨rows[i], by rw [List.getElem?_map, List.getElem?_eq_getElem hi, Option.map_some]⟩

theorem firstBad_append (rows : List (List String))
    (rest : List (Except RecordError (List String))) :
    FirstBad (rows.map .ok ++ .error cause :: rest) rows.length cause := by
  constructor
  · intro i hi
    rw [List.getElem?_append_left (by rwa [List.length_map])]
    exact goodUpTo_map_ok rows i hi
  · rw [List.getElem?_append_right (Nat.le_of_eq (List.length_map _)), List.length_map,
      Nat.sub_self]
    rfl

theorem FirstBad.lt_length (h : FirstBad found i cause) : i < found.length :=
  (List.getElem?_eq_some_iff.1 h.2).1

/-- Only one record is the first bad one. -/
theorem FirstBad.unique (h : FirstBad found i cause) (h' : FirstBad found j cause') :
    i = j ∧ cause = cause' := by
  have hle {i j : Nat} {cause cause' : RecordError} (h : FirstBad found i cause)
      (h' : FirstBad found j cause') : j ≤ i :=
    Nat.le_of_not_lt fun hlt => h'.1.not_error hlt h.2
  obtain rfl := Nat.le_antisymm (hle h' h) (hle h h')
  refine ⟨rfl, ?_⟩
  cases h.2.symm.trans h'.2
  rfl

theorem FirstBad.lt_limit (h : FirstBad found i cause) (hlimit : ¬ ExceedsLimit found limit) :
    i < limit :=
  Nat.lt_of_not_le fun hle => hlimit ⟨h.1.mono hle, Nat.lt_of_le_of_lt hle h.lt_length⟩

/-- Records of which none is the first bad one are rows. -/
theorem exists_firstBad_or (found : List (Except RecordError (List String))) :
    (∃ i cause, FirstBad found i cause) ∨ ∃ rows : List (List String), found = rows.map .ok := by
  induction found with
  | nil => exact .inr ⟨[], rfl⟩
  | cons outcome rest ih =>
      cases outcome with
      | error cause => exact .inl ⟨0, cause, nofun, rfl⟩
      | ok row =>
          rcases ih with ⟨i, cause, hgood, hbad⟩ | ⟨rows, rfl⟩
          · refine .inl ⟨i + 1, cause, fun j hj => ?_, hbad⟩
            cases j with
            | zero => exact ⟨row, rfl⟩
            | succ j => exact hgood j (by omega)
          · exact .inr ⟨row :: rows, rfl⟩

theorem exceedsLimit_map_ok_iff {rows : List (List String)} :
    ExceedsLimit (rows.map .ok) limit ↔ limit < rows.length := by
  unfold ExceedsLimit
  rw [List.length_map]
  exact and_iff_right_of_imp fun h => (goodUpTo_map_ok rows).mono (Nat.le_of_lt h)

/-- A limit that is not exceeded can be raised. -/
theorem not_exceedsLimit_of_le (h : ¬ ExceedsLimit found limit) (hle : limit ≤ limit') :
    ¬ ExceedsLimit found limit' := by
  rintro ⟨hgood, hlt⟩
  exact h ⟨hgood.mono hle, Nat.lt_of_le_of_lt hle hlt⟩

end Records

section Collect

variable {maxRows count : Nat} {rows good : List (List String)}
  {rest : List (Except RecordError (List String))}

/-- Good rows within the limit are taken in. -/
theorem collect_good (h : count + good.length ≤ maxRows) :
    collect maxRows count rows (good.map .ok ++ rest) =
      collect maxRows (count + good.length) (good.reverse ++ rows) rest := by
  induction good generalizing count rows with
  | nil => rfl
  | cons row good ih =>
      rw [List.length_cons] at h
      have hlt : ¬ maxRows ≤ count := by omega
      rw [List.map_cons, List.cons_append, collect, if_neg hlt, ih (by omega), List.length_cons,
        List.reverse_cons, List.append_assoc, Nat.add_assoc, Nat.add_comm 1]
      rfl

/-- Another record after as many rows as the limit allows, be it good or bad. -/
theorem collect_of_le (h : maxRows ≤ count) (hrest : rest ≠ []) :
    collect maxRows count rows rest = .error (.tooManyRows maxRows (count + 1)) := by
  obtain ⟨outcome, rest, rfl⟩ := List.exists_cons_of_ne_nil hrest
  unfold collect
  rw [if_pos h]

theorem collect_error {cause : RecordError} (h : count < maxRows) :
    collect maxRows count rows (.error cause :: rest) =
      .error (.badRecord (cause.line?.getD (count + 1)) cause) := by
  rw [collect, if_neg (Nat.not_le.2 h)]

end Collect

section Load

variable {options : ReadOptions} {source : Source}

theorem load_of_ne_nil (h : outcomes options source ≠ []) :
    load options source = collect options.maxRows 0 [] (outcomes options source) := by
  obtain ⟨outcome, rest, hcons⟩ := List.exists_cons_of_ne_nil h
  unfold load
  rw [hcons]

theorem load_of_exceedsLimit (h : ExceedsLimit (outcomes options source) options.maxRows) :
    load options source = .error (.tooManyRows options.maxRows (options.maxRows + 1)) := by
  obtain ⟨rows, hlength, hfound⟩ := h.1.exists_rows
  have hne : outcomes options source ≠ [] := List.ne_nil_of_length_pos (by have := h.2; omega)
  have hrest : (outcomes options source).drop options.maxRows ≠ [] :=
    mt List.drop_eq_nil_iff.1 (Nat.not_le.2 h.2)
  rw [load_of_ne_nil hne, hfound, collect_good (by omega), collect_of_le (by omega) hrest, hlength,
    Nat.zero_add]

theorem load_of_firstBad {i : Nat} {cause : RecordError}
    (hlimit : ¬ ExceedsLimit (outcomes options source) options.maxRows)
    (h : FirstBad (outcomes options source) i cause) :
    load options source = .error (.badRecord (cause.line?.getD (i + 1)) cause) := by
  obtain ⟨rows, hlength, hfound⟩ := h.1.exists_rows
  have hlt := h.lt_limit hlimit
  have hne : outcomes options source ≠ [] :=
    List.ne_nil_of_length_pos (Nat.zero_lt_of_lt h.lt_length)
  have hrest : (outcomes options source).drop i =
      .error cause :: (outcomes options source).drop (i + 1) := by
    rw [List.drop_eq_getElem_cons h.lt_length]
    exact congrArg (· :: _) (List.getElem?_eq_some_iff.1 h.2).2
  rw [load_of_ne_nil hne, hfound, collect_good (by omega), hrest, collect_error (by omega), hlength,
    Nat.zero_add]

theorem load_of_rows {rows : List (List String)} (h : outcomes options source = rows.map .ok)
    (hne : rows ≠ []) (hle : rows.length ≤ options.maxRows) : load options source = .ok rows := by
  have hne' : outcomes options source ≠ [] := by
    rw [h]
    exact mt List.map_eq_nil_iff.1 hne
  rw [load_of_ne_nil hne', h, ← List.append_nil (rows.map _), collect_good (by omega), collect,
    List.append_nil, List.reverse_reverse]

/-- The ends that a load can have, each with what the records are then. -/
inductive Ends (options : ReadOptions) (source : Source) :
    Except LoadError (List (List String)) → Prop
  | empty (h : outcomes options source = []) : Ends options source (.error .empty)
  | tooManyRows (h : ExceedsLimit (outcomes options source) options.maxRows) :
      Ends options source (.error (.tooManyRows options.maxRows (options.maxRows + 1)))
  | badRecord {i : Nat} {cause : RecordError}
      (hlimit : ¬ ExceedsLimit (outcomes options source) options.maxRows)
      (h : FirstBad (outcomes options source) i cause) :
      Ends options source (.error (.badRecord (cause.line?.getD (i + 1)) cause))
  | rows {rows : List (List String)} (h : outcomes options source = rows.map .ok)
      (hne : rows ≠ []) (hle : rows.length ≤ options.maxRows) : Ends options source (.ok rows)

theorem ends_load (options : ReadOptions) (source : Source) :
    Ends options source (load options source) := by
  by_cases hlimit : ExceedsLimit (outcomes options source) options.maxRows
  · rw [load_of_exceedsLimit hlimit]
    exact .tooManyRows hlimit
  rcases exists_firstBad_or (outcomes options source) with ⟨i, cause, h⟩ | ⟨rows, hrows⟩
  · rw [load_of_firstBad hlimit h]
    exact .badRecord hlimit h
  · cases rows with
    | nil =>
        rw [load, hrows]
        exact .empty hrows
    | cons row rows =>
        rw [hrows, exceedsLimit_map_ok_iff] at hlimit
        have hle := Nat.le_of_not_lt hlimit
        have hne := List.cons_ne_nil row rows
        rw [load_of_rows hrows hne hle]
        exact .rows hrows hne hle

theorem load_eq_tooManyRows_iff {limit actual : Nat} :
    load options source = .error (.tooManyRows limit actual) ↔
      ExceedsLimit (outcomes options source) options.maxRows ∧ limit = options.maxRows ∧
        actual = options.maxRows + 1 := by
  constructor
  · intro h
    cases h ▸ ends_load options source with
    | tooManyRows hlimit => exact ⟨hlimit, rfl, rfl⟩
  · rintro ⟨hlimit, rfl, rfl⟩
    exact load_of_exceedsLimit hlimit

theorem load_eq_badRecord_iff {line : Nat} {cause : RecordError} :
    load options source = .error (.badRecord line cause) ↔
      ¬ ExceedsLimit (outcomes options source) options.maxRows ∧
        ∃ i, FirstBad (outcomes options source) i cause ∧ line = cause.line?.getD (i + 1) := by
  constructor
  · intro h
    cases h ▸ ends_load options source with
    | badRecord hlimit hbad => exact ⟨hlimit, _, hbad, rfl⟩
  · rintro ⟨hlimit, i, hbad, rfl⟩
    exact load_of_firstBad hlimit hbad

theorem load_eq_empty_iff : load options source = .error .empty ↔ outcomes options source = [] := by
  constructor
  · intro h
    cases h ▸ ends_load options source with
    | empty hnil => exact hnil
  · intro hnil
    rw [load, hnil]

/-- A load succeeds with the rows that its records are, if there are some and not
too many. -/
theorem load_eq_ok_iff {rows : List (List String)} :
    load options source = .ok rows ↔
      outcomes options source = rows.map .ok ∧ rows ≠ [] ∧ rows.length ≤ options.maxRows := by
  constructor
  · intro h
    cases h ▸ ends_load options source with
    | rows hrows hne hle => exact ⟨hrows, hne, hle⟩
  · rintro ⟨hrows, hne, hle⟩
    exact load_of_rows hrows hne hle

theorem outcomes_maxRows (options : ReadOptions) (source : Source) (limit : Nat) :
    outcomes { options with maxRows := limit } source = outcomes options source := rfl

/-- A load that has not met its limit ends in the same way under a higher one. -/
theorem load_of_higher_limit {limit : Nat} (hle : options.maxRows ≤ limit)
    (h : ∀ l actual, load options source ≠ .error (.tooManyRows l actual)) :
    load { options with maxRows := limit } source = load options source := by
  have hend := ends_load options source
  generalize load options source = result at hend h
  cases hend with
  | empty hnil => exact load_eq_empty_iff.2 hnil
  | tooManyRows _ => exact absurd rfl (h _ _)
  | badRecord hlimit hbad => exact load_of_firstBad (not_exceedsLimit_of_le hlimit hle) hbad
  | rows hrows hne hmax => exact load_of_rows hrows hne (Nat.le_trans hmax hle)

end Load

/-- How a load ends. It has too many rows exactly if the records up to the limit
can be read and there is another one, good or bad. Otherwise the first bad record
is reported if there is one, a source without records is empty, and only then are
there rows: exactly the records, in order, and no more than the limit. The records
do not depend on the limit, so a load that does not exceed it is not changed by a
higher one. -/
theorem load_ends (options : ReadOptions) (source : Source) :
    let found := outcomes options source
    (∀ limit actual, load options source = .error (.tooManyRows limit actual) ↔
      ExceedsLimit found options.maxRows ∧ limit = options.maxRows ∧
        actual = options.maxRows + 1) ∧
    (∀ line cause, load options source = .error (.badRecord line cause) ↔
      ¬ ExceedsLimit found options.maxRows ∧
        ∃ i, FirstBad found i cause ∧ line = cause.line?.getD (i + 1)) ∧
    (load options source = .error .empty ↔ found = []) ∧
    (∀ rows, load options source = .ok rows ↔
      found = rows.map .ok ∧ rows ≠ [] ∧ rows.length ≤ options.maxRows) ∧
    (∀ limit, outcomes { options with maxRows := limit } source = found) ∧
    ∀ limit, options.maxRows ≤ limit →
      (∀ l actual, load options source ≠ .error (.tooManyRows l actual)) →
        load { options with maxRows := limit } source = load options source :=
  ⟨fun _ _ => load_eq_tooManyRows_iff, fun _ _ => load_eq_badRecord_iff, load_eq_empty_iff,
    fun _ => load_eq_ok_iff, outcomes_maxRows options source,
    fun _ hle h => load_of_higher_limit hle h⟩

/-- The second record is no text. With a limit of one row it counts as a row too
many, with any higher limit it is reported; with no row allowed the first record
is too many. -/
theorem load_ends_bad_at_limit :
    let source : Source := ⟨[0x61, 0xA, 0xFF, 0xA, 0x62], none, none⟩
    let options (limit : Nat) : ReadOptions := { ReadOptions.default with maxRows := limit }
    load (options 0) source = .error (.tooManyRows 0 1) ∧
      load (options 1) source = .error (.tooManyRows 1 2) ∧
        ∀ limit, 2 ≤ limit →
          load (options limit) source = .error (.badRecord 2 (.notUtf8 1 ⟨2, 2⟩ 0 0)) := by
  intro source options
  have hfound : outcomes (options 2) source =
      [.ok ["a"], .error (.notUtf8 1 ⟨2, 2⟩ 0 0), .ok ["b"]] := by
    rfl
  have hbad : FirstBad (outcomes (options 2) source) 1 (.notUtf8 1 ⟨2, 2⟩ 0 0) := by
    rw [hfound]
    exact firstBad_append [["a"]] [.ok ["b"]]
  have hlength : (outcomes (options 2) source).length = 3 := by rw [hfound]; rfl
  have hlimit : ¬ ExceedsLimit (outcomes (options 2) source) 2 := fun h =>
    h.1.not_error (by decide) hbad.2
  have htwo := ((load_ends (options 2) source).2.1 2 _).2 ⟨hlimit, 1, hbad, rfl⟩
  refine ⟨?_, ?_, fun limit hle => ?_⟩
  · exact ((load_ends (options 0) source).1 0 1).2 ⟨⟨nofun, by
      rw [outcomes_maxRows (options 2), hlength]; decide⟩, rfl, rfl⟩
  · exact ((load_ends (options 1) source).1 1 2).2 ⟨⟨hbad.1, by
      rw [outcomes_maxRows (options 2), hlength]; decide⟩, rfl, rfl⟩
  · rw [← htwo]
    exact (load_ends (options 2) source).2.2.2.2.2 limit hle fun l actual h => by
      cases htwo.symm.trans h

/-- A blank that is trimmed does not count in the place of the byte that is no text. -/
example : load .default ⟨[0x20, 0xFF, 0xA], none, none⟩ =
    .error (.badRecord 1 (.notUtf8 0 ⟨1, 0⟩ 0 0)) := by
  rfl

end Delimited

end CycleComparison
