import Mathlib.Data.List.Basic
import Mathlib.Data.List.Nodup

/-!
# Objects as lists of fields

An object of a scripting language keeps its fields in the order in which they were first
set.
-/

namespace FastTAK.Fields

variable {κ α : Type}

section Put

variable [BEq κ]

/-- `fields[key] = value`. -/
def put (key : κ) (value : α) : List (κ × α) → List (κ × α)
  | [] => [(key, value)]
  | field :: fields =>
      if field.1 == key then (key, value) :: fields else field :: put key value fields

/-- `{**fields, **later}`. -/
def putAll (later fields : List (κ × α)) : List (κ × α) :=
  later.foldl (fun fields field => put field.1 field.2 fields) fields

end Put

def keys (fields : List (κ × α)) : List κ := fields.map Prod.fst

@[simp]
theorem keys_cons (field : κ × α) (fields : List (κ × α)) :
    keys (field :: fields) = field.1 :: keys fields := rfl

section Lookup

variable [BEq κ] [LawfulBEq κ] {fields : List (κ × α)} {key other : κ} {value : α}

theorem lookup_cons_of_ne {field : κ × α} (hne : key ≠ field.1) :
    (field :: fields).lookup key = fields.lookup key := by
  have hbeq : (key == field.1) = false := by simpa using hne
  rw [List.lookup_cons, hbeq]

@[simp]
theorem lookup_put_self (key : κ) (value : α) (fields : List (κ × α)) :
    (put key value fields).lookup key = some value := by
  induction fields with
  | nil => simp [put]
  | cons field fields ih =>
      rw [put]
      split_ifs with hsame
      · simp
      · have hne : key ≠ field.1 := fun h => hsame (by simp [h])
        rw [lookup_cons_of_ne hne, ih]

theorem lookup_put_of_ne (hne : other ≠ key) (value : α) (fields : List (κ × α)) :
    (put key value fields).lookup other = fields.lookup other := by
  induction fields with
  | nil => rw [put, lookup_cons_of_ne hne]
  | cons field fields ih =>
      rw [put]
      split_ifs with hsame
      · have hfield : other ≠ field.1 := fun h => hne (h.trans (by simpa using hsame))
        rw [lookup_cons_of_ne hne, lookup_cons_of_ne hfield]
      · by_cases hother : other = field.1
        · subst hother
          rw [List.lookup_cons, List.lookup_cons]
          simp
        · rw [lookup_cons_of_ne hother, lookup_cons_of_ne hother, ih]

theorem mem_of_lookup (hfound : fields.lookup key = some value) : (key, value) ∈ fields := by
  obtain ⟨before, after, rfl, -⟩ := List.lookup_eq_some_iff.mp hfound
  simp

theorem lookup_of_mem (hnodup : (keys fields).Nodup) (hmem : (key, value) ∈ fields) :
    fields.lookup key = some value := by
  induction fields with
  | nil => cases hmem
  | cons field fields ih =>
      obtain ⟨hhead, htail⟩ := List.nodup_cons.mp hnodup
      rcases List.mem_cons.mp hmem with rfl | hmem
      · simp
      · have hne : key ≠ field.1 := by
          rintro rfl
          exact hhead (List.mem_map.mpr ⟨_, hmem, rfl⟩)
        rw [lookup_cons_of_ne hne, ih htail hmem]

omit [BEq κ] [LawfulBEq κ] in
theorem mem_keys_iff : key ∈ keys fields ↔ ∃ value, (key, value) ∈ fields := by
  simp [keys]

theorem lookup_eq_none_iff : fields.lookup key = none ↔ key ∉ keys fields := by
  rw [List.lookup_eq_none_iff, mem_keys_iff]
  constructor
  · rintro hnone ⟨value, hmem⟩
    simpa using hnone _ hmem
  · intro hnot field hfield
    have hne : key ≠ field.1 := by
      rintro rfl
      exact hnot ⟨field.2, hfield⟩
    simpa using hne

omit [LawfulBEq κ] in
theorem mem_of_mem_put {field : κ × α} (hfield : field ∈ put key value fields) :
    field = (key, value) ∨ field ∈ fields := by
  induction fields with
  | nil => exact Or.inl (List.mem_singleton.mp hfield)
  | cons first fields ih =>
      rw [put] at hfield
      split_ifs at hfield
      · exact (List.mem_cons.mp hfield).imp_right (List.mem_cons_of_mem _)
      · rcases List.mem_cons.mp hfield with rfl | hfield
        · simp
        · exact (ih hfield).imp_right (List.mem_cons_of_mem _)

theorem mem_keys_put : other ∈ keys (put key value fields) ↔ other = key ∨ other ∈ keys fields := by
  by_cases hsame : other = key
  · subst hsame
    apply iff_of_true _ (Or.inl rfl)
    exact mem_keys_iff.mpr ⟨value, mem_of_lookup (lookup_put_self _ _ _)⟩
  · have hiff : other ∉ keys (put key value fields) ↔ other ∉ keys fields := by
      rw [← lookup_eq_none_iff, ← lookup_eq_none_iff, lookup_put_of_ne hsame]
    rw [or_iff_right hsame]
    exact not_iff_not.mp hiff

/-- A field that is there keeps its place. -/
theorem keys_put_of_lookup {old : α} (hfound : fields.lookup key = some old) (value : α) :
    keys (put key value fields) = keys fields := by
  induction fields with
  | nil => cases hfound
  | cons field fields ih =>
      rw [put]
      split_ifs with hsame
      · have heq : field.1 = key := by simpa using hsame
        rw [keys_cons, keys_cons, heq]
      · have hne : key ≠ field.1 := fun h => hsame (by simp [h])
        rw [lookup_cons_of_ne hne] at hfound
        rw [keys_cons, keys_cons, ih hfound]

theorem nodup_keys_put (hnodup : (keys fields).Nodup) : (keys (put key value fields)).Nodup := by
  induction fields with
  | nil => exact List.nodup_singleton key
  | cons field fields ih =>
      obtain ⟨hhead, htail⟩ := List.nodup_cons.mp hnodup
      rw [put]
      split_ifs with hsame
      · have heq : field.1 = key := by simpa using hsame
        exact List.nodup_cons.mpr ⟨heq ▸ hhead, htail⟩
      · apply List.nodup_cons.mpr
        use fun hmem => (mem_keys_put.mp hmem).elim (fun heq => hsame (by simp [heq])) hhead
        exact ih htail

theorem nodup_keys_putAll {later : List (κ × α)} (hnodup : (keys fields).Nodup) :
    (keys (putAll later fields)).Nodup := by
  induction later generalizing fields with
  | nil => exact hnodup
  | cons field later ih => exact ih (nodup_keys_put hnodup)

omit [LawfulBEq κ] in
theorem mem_of_mem_putAll {later : List (κ × α)} {field : κ × α}
    (hfield : field ∈ putAll later fields) : field ∈ later ∨ field ∈ fields := by
  induction later generalizing fields with
  | nil => exact .inr hfield
  | cons first later ih =>
      rcases ih hfield with hlater | hput
      · exact .inl (List.mem_cons_of_mem first hlater)
      · rcases mem_of_mem_put hput with rfl | hold
        · exact .inl List.mem_cons_self
        · exact .inr hold

/-- The later value of a key stands. -/
theorem lookup_putAll {later : List (κ × α)} (hnodup : (keys later).Nodup) (key : κ) :
    (putAll later fields).lookup key = (later.lookup key).or (fields.lookup key) := by
  induction later generalizing fields with
  | nil => rfl
  | cons field later ih =>
      obtain ⟨hhead, htail⟩ := List.nodup_cons.mp hnodup
      have hrest : (putAll later (put field.1 field.2 fields)).lookup key =
          (later.lookup key).or ((put field.1 field.2 fields).lookup key) := ih htail
      rw [putAll] at hrest
      rw [putAll, List.foldl_cons, hrest]
      by_cases hkey : key = field.1
      · subst hkey
        rw [lookup_eq_none_iff.mpr hhead, lookup_put_self, List.lookup_cons, beq_self_eq_true]
        rfl
      · rw [lookup_cons_of_ne hkey, lookup_put_of_ne hkey]

end Lookup

end FastTAK.Fields
