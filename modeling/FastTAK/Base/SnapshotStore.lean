import Mathlib

/-!
# Tables under snapshot isolation

A table of rows in which a transaction works on a snapshot and commits a
deletion only if nobody wrote to the row's key since.  A write stamps the keys
it touches.  The one fact a client needs is that an unconflicted commit finds
the row of its snapshot still in the table.
-/

namespace FastTAK.SnapshotStore

variable {ρ κ : Type} [DecidableEq κ]

/-- A table, with the number of the last write to each key and of the last
write at all. -/
structure Table (ρ κ : Type) where
  rows : List ρ
  lastWrite : κ → ℕ
  stamp : ℕ
  bounded : ∀ k, lastWrite k ≤ stamp

namespace Table

def empty : Table ρ κ where
  rows := []
  lastWrite := fun _ => 0
  stamp := 0
  bounded := fun _ => le_refl 0

def insert (key : ρ → κ) (row : ρ) (t : Table ρ κ) : Table ρ κ where
  rows := t.rows ++ [row]
  lastWrite := fun k => if k = key row then t.stamp + 1 else t.lastWrite k
  stamp := t.stamp + 1
  bounded := fun k => by
    have := t.bounded k
    split_ifs <;> omega

def deleteWhere (key : ρ → κ) (p : ρ → Bool) (t : Table ρ κ) : Table ρ κ where
  rows := t.rows.filter fun row => !p row
  lastWrite := fun k =>
    if t.rows.any fun row => p row && key row == k then t.stamp + 1
    else t.lastWrite k
  stamp := t.stamp + 1
  bounded := fun k => by
    have := t.bounded k
    split_ifs <;> omega

/-- Commit the deletion of a key that a transaction made on its snapshot. -/
def commitDelete (key : ρ → κ) (k : κ) (t snapshot : Table ρ κ) :
    Option (Table ρ κ) :=
  if t.lastWrite k ≤ snapshot.stamp then
    some (t.deleteWhere key fun row => key row == k)
  else none

theorem mem_rows_insert (key : ρ → κ) (row other : ρ) (t : Table ρ κ) :
    other ∈ (t.insert key row).rows ↔ other ∈ t.rows ∨ other = row := by
  simp [insert]

theorem mem_rows_deleteWhere (key : ρ → κ) (p : ρ → Bool) (row : ρ)
    (t : Table ρ κ) :
    row ∈ (t.deleteWhere key p).rows ↔ row ∈ t.rows ∧ p row = false := by
  simp [deleteWhere]

/-! ## Keys nobody wrote to keep their rows -/

/-- The table came from an older one by writes that stamped what they touched. -/
structure Since (key : ρ → κ) (old new : Table ρ κ) : Prop where
  stamp : old.stamp ≤ new.stamp
  lastWrite : ∀ k, old.lastWrite k ≤ new.lastWrite k
  rows : ∀ row, new.lastWrite (key row) ≤ old.stamp →
    (row ∈ new.rows ↔ row ∈ old.rows)

omit [DecidableEq κ] in
theorem Since.refl (key : ρ → κ) (t : Table ρ κ) : Since key t t :=
  ⟨le_refl _, fun _ => le_refl _, fun _ _ => Iff.rfl⟩

omit [DecidableEq κ] in
theorem Since.trans {key : ρ → κ} {t₁ t₂ t₃ : Table ρ κ}
    (hfirst : Since key t₁ t₂) (hsecond : Since key t₂ t₃) : Since key t₁ t₃ where
  stamp := hfirst.stamp.trans hsecond.stamp
  lastWrite := fun k => (hfirst.lastWrite k).trans (hsecond.lastWrite k)
  rows := fun row hrow => by
    rw [hsecond.rows row (hrow.trans hfirst.stamp)]
    exact hfirst.rows row ((hsecond.lastWrite _).trans hrow)

theorem since_insert (key : ρ → κ) (row : ρ) (t : Table ρ κ) :
    Since key t (t.insert key row) where
  stamp := Nat.le_succ _
  lastWrite := fun k => by
    have := t.bounded k
    simp only [insert]
    split_ifs <;> omega
  rows := fun other hother => by
    rw [mem_rows_insert]
    refine ⟨fun h => h.elim id fun heq => ?_, Or.inl⟩
    subst heq
    simp only [insert, if_true] at hother
    omega

theorem since_deleteWhere (key : ρ → κ) (p : ρ → Bool) (t : Table ρ κ) :
    Since key t (t.deleteWhere key p) where
  stamp := Nat.le_succ _
  lastWrite := fun k => by
    have := t.bounded k
    simp only [deleteWhere]
    split_ifs <;> omega
  rows := fun row hrow => by
    rw [mem_rows_deleteWhere]
    refine ⟨And.left, fun hmem => ⟨hmem, ?_⟩⟩
    by_contra hp
    have hany : t.rows.any fun other => p other && key other == key row := by
      rw [List.any_eq_true]
      exact ⟨row, hmem, by simpa using hp⟩
    simp only [deleteWhere, hany, if_true] at hrow
    omega

/-- A commit without conflict finds the rows of its snapshot in the table and
removes them. -/
theorem commitDelete_eq_some {key : ρ → κ} {k : κ} {snapshot t t' : Table ρ κ}
    (hsince : Since key snapshot t)
    (hcommit : commitDelete key k t snapshot = some t') :
    t' = t.deleteWhere key (fun row => key row == k) ∧
      ∀ row ∈ snapshot.rows, key row = k → row ∈ t.rows := by
  unfold commitDelete at hcommit
  split_ifs at hcommit with hfree
  refine ⟨(Option.some.inj hcommit).symm, fun row hrow hkey => ?_⟩
  subst hkey
  exact (hsince.rows row hfree).mpr hrow

end Table

end FastTAK.SnapshotStore
