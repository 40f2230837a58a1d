import Mathlib

/-!
# Outer joins by key

Two lists are joined by keys: all rows of the left list come first, then those of the right
list whose key no row on the left has.
-/

namespace FastTAK.OuterJoin

variable {α β κ : Type} [DecidableEq κ] (leftKey : α → κ) (rightKey : β → κ)

/-- The rows on the right that no row on the left matches. -/
def unmatched (left : List α) (right : List β) : List β :=
  right.filter fun b => rightKey b ∉ left.map leftKey

/-- The keys of the join, in order. -/
def keys (left : List α) (right : List β) : List κ :=
  left.map leftKey ++ (unmatched leftKey rightKey left right).map rightKey

variable {leftKey rightKey} {left : List α} {right : List β}

theorem mem_unmatched_iff {b : β} :
    b ∈ unmatched leftKey rightKey left right ↔ b ∈ right ∧ rightKey b ∉ left.map leftKey := by
  rw [unmatched, List.mem_filter, decide_eq_true_eq]

/-- No key of either list is lost. -/
theorem mem_keys_iff {k : κ} :
    k ∈ keys leftKey rightKey left right ↔ k ∈ left.map leftKey ∨ k ∈ right.map rightKey := by
  rw [keys, List.mem_append]
  constructor
  · rintro (hleft | hright)
    · exact Or.inl hleft
    · obtain ⟨b, hb, rfl⟩ := List.mem_map.mp hright
      exact Or.inr (List.mem_map_of_mem (mem_unmatched_iff.mp hb).1)
  · rintro (hleft | hright)
    · exact Or.inl hleft
    · by_cases hleft : k ∈ left.map leftKey
      · exact Or.inl hleft
      · obtain ⟨b, hb, rfl⟩ := List.mem_map.mp hright
        exact Or.inr (List.mem_map_of_mem (mem_unmatched_iff.mpr ⟨hb, hleft⟩))

/-- A key occurs twice only within one of the lists. -/
theorem nodup_keys_iff :
    (keys leftKey rightKey left right).Nodup ↔ (left.map leftKey).Nodup ∧
      ((unmatched leftKey rightKey left right).map rightKey).Nodup := by
  rw [keys, List.nodup_append']
  have hdisjoint : (left.map leftKey).Disjoint
      ((unmatched leftKey rightKey left right).map rightKey) := by
    intro k hleft hright
    obtain ⟨b, hb, rfl⟩ := List.mem_map.mp hright
    exact (mem_unmatched_iff.mp hb).2 hleft
  tauto

end FastTAK.OuterJoin
