import Mathlib

/-!
# Entries that can be made only once

A ledger marks entries and publishes all its marks with each new one.  Marking
an entry a second time fails and publishes nothing.  This file determines when
a sequence of attempts succeeds and what it leaves published.
-/

namespace FastTAK

/-- The marks of a ledger and what was last published of them. -/
structure Ledger (α : Type) where
  marked : List α
  published : List α
  deriving DecidableEq, Repr

namespace Ledger

variable {α : Type} [DecidableEq α]

/-- Mark an entry and publish; `none` is an entry that could not be read. -/
def attempt (l : Ledger α) : Option α → Bool × Ledger α
  | none => (false, l)
  | some entry =>
    if entry ∈ l.marked then (false, l)
    else (true, ⟨entry :: l.marked, entry :: l.marked⟩)

/-- Attempt every entry in order, whether or not earlier ones failed. -/
def attemptAll (l : Ledger α) : List (Option α) → Bool × Ledger α
  | [] => (true, l)
  | entry :: entries =>
    ((l.attempt entry).1 && ((l.attempt entry).2.attemptAll entries).1,
      ((l.attempt entry).2.attemptAll entries).2)

theorem attemptAll_cons (l : Ledger α) (entry : Option α)
    (entries : List (Option α)) :
    l.attemptAll (entry :: entries) =
      ((l.attempt entry).1 && ((l.attempt entry).2.attemptAll entries).1,
        ((l.attempt entry).2.attemptAll entries).2) := rfl

theorem attemptAll_append (l : Ledger α) (first rest : List (Option α)) :
    l.attemptAll (first ++ rest) =
      ((l.attemptAll first).1 && ((l.attemptAll first).2.attemptAll rest).1,
        ((l.attemptAll first).2.attemptAll rest).2) := by
  induction first generalizing l with
  | nil => simp [attemptAll]
  | cons entry first ih =>
      rw [List.cons_append, attemptAll_cons, attemptAll_cons, ih,
        Bool.and_assoc]

/-- All attempts succeed exactly when every entry can be read, none is marked
yet and none occurs twice. -/
theorem attemptAll_fst_iff (l : Ledger α) (entries : List (Option α)) :
    (l.attemptAll entries).1 = true ↔
      (∀ entry ∈ entries, entry.isSome) ∧ entries.Nodup ∧
        ∀ n, some n ∈ entries → n ∉ l.marked := by
  induction entries generalizing l with
  | nil => simp [attemptAll]
  | cons entry entries ih =>
      rw [attemptAll_cons, Bool.and_eq_true, ih]
      cases entry with
      | none => simp [attempt]
      | some m =>
          by_cases hm : m ∈ l.marked
          · simp only [attempt, hm, if_true, Bool.false_eq_true, false_and,
              false_iff, not_and]
            exact fun _ _ h => h m (by simp) hm
          · simp only [attempt, hm, if_false, true_and, List.nodup_cons,
              List.mem_cons, not_or]
            constructor
            · rintro ⟨hread, hnodup, hfresh⟩
              refine ⟨?_, ⟨fun h => (hfresh m h).1 rfl, hnodup⟩, ?_⟩
              · rintro entry (rfl | h)
                · rfl
                · exact hread entry h
              rintro n (h | h)
              · rwa [Option.some.inj h]
              · exact (hfresh n h).2
            · rintro ⟨hread, ⟨hnot, hnodup⟩, hfresh⟩
              refine ⟨fun entry h => hread entry (Or.inr h), hnodup,
                fun n h => ⟨?_, hfresh n (Or.inr h)⟩⟩
              rintro rfl
              exact hnot h

/-- The ledger publishes all its marks once an entry is new, and nothing
otherwise. -/
theorem mem_published_attemptAll (l : Ledger α) (entries : List (Option α))
    (n : α) :
    n ∈ (l.attemptAll entries).2.published ↔
      ((∃ m, some m ∈ entries ∧ m ∉ l.marked) ∧
        (n ∈ l.marked ∨ some n ∈ entries)) ∨
      ((∀ m, some m ∈ entries → m ∈ l.marked) ∧ n ∈ l.published) := by
  induction entries generalizing l with
  | nil => simp [attemptAll]
  | cons entry entries ih =>
      rw [attemptAll_cons, ih]
      cases entry with
      | none => simp [attempt]
      | some m =>
          by_cases hm : m ∈ l.marked
          · have hold : (l.attempt (some m)).2 = l := by simp [attempt, hm]
            rw [hold]
            have hexists : (∃ k, some k ∈ some m :: entries ∧ k ∉ l.marked) ↔
                ∃ k, some k ∈ entries ∧ k ∉ l.marked := by
              refine exists_congr fun k => and_congr_left fun hk => ?_
              have : k ≠ m := fun h => hk (h ▸ hm)
              simp [this]
            have hforall : (∀ k, some k ∈ some m :: entries → k ∈ l.marked) ↔
                ∀ k, some k ∈ entries → k ∈ l.marked := by
              simp only [List.mem_cons, Option.some.injEq]
              exact ⟨fun h k hk => h k (Or.inr hk),
                fun h k hk => hk.elim (fun h => h ▸ hm) (h k)⟩
            rw [hexists, hforall]
            refine or_congr_left (and_congr_right fun _ => ?_)
            simp only [List.mem_cons, Option.some.injEq]
            exact ⟨fun h => h.imp_right Or.inr, fun h => h.elim Or.inl
              fun h => h.elim (fun h => Or.inl (h ▸ hm)) Or.inr⟩
          · have hnew : (l.attempt (some m)).2 =
                ⟨m :: l.marked, m :: l.marked⟩ := by simp [attempt, hm]
            rw [hnew]
            simp only [List.mem_cons, Option.some.injEq, not_or]
            constructor
            · rintro (⟨-, h⟩ | ⟨-, h⟩)
              · exact Or.inl ⟨⟨m, Or.inl rfl, hm⟩, by tauto⟩
              · exact Or.inl ⟨⟨m, Or.inl rfl, hm⟩, by tauto⟩
            · rintro (⟨-, h⟩ | ⟨h, -⟩)
              · by_cases hlater : ∃ k, some k ∈ entries ∧ k ≠ m ∧ k ∉ l.marked
                · exact Or.inl ⟨hlater, by tauto⟩
                · push Not at hlater
                  refine Or.inr ⟨fun k hk => ?_, ?_⟩
                  · by_cases hkm : k = m
                    · exact Or.inl hkm
                    · exact Or.inr (hlater k hk hkm)
                  · rcases h with h | h | h
                    · exact Or.inr h
                    · exact Or.inl h
                    · by_cases hnm : n = m
                      · exact Or.inl hnm
                      · exact Or.inr (hlater n h hnm)
              · exact absurd (h m (Or.inl rfl)) hm

/-- Attempts at new entries publish them and, if there is any, all marks. -/
theorem mem_published_of_fresh {l : Ledger α} {entries : List (Option α)} {n : α}
    (hpublished : l.published ⊆ l.marked) (hread : ∀ entry ∈ entries, entry.isSome)
    (hfresh : ∀ n, some n ∈ entries → n ∉ l.marked) :
    n ∈ (l.attemptAll entries).2.published ↔
      some n ∈ entries ∨ n ∈ l.published ∨ entries ≠ [] ∧ n ∈ l.marked := by
  rw [mem_published_attemptAll]
  by_cases hnil : entries = []
  · simp [hnil]
  · obtain ⟨entry, hentry⟩ := List.exists_mem_of_ne_nil _ hnil
    obtain ⟨m, rfl⟩ := Option.isSome_iff_exists.mp (hread entry hentry)
    constructor
    · rintro (⟨-, h | h⟩ | ⟨h, -⟩)
      · exact Or.inr (Or.inr ⟨hnil, h⟩)
      · exact Or.inl h
      · exact absurd (h m hentry) (hfresh m hentry)
    · intro h
      refine Or.inl ⟨⟨m, hentry, hfresh m hentry⟩, ?_⟩
      rcases h with h | h | h
      · exact Or.inr h
      · exact Or.inl (hpublished h)
      · exact Or.inl h.2

/-- What is published once all attempts have succeeded. -/
theorem mem_published_of_succeeds {l l' : Ledger α} {entries : List (Option α)} {n : α}
    (hpublished : l.published ⊆ l.marked) (hall : l.attemptAll entries = (true, l')) :
    n ∈ l'.published ↔
      some n ∈ entries ∨ n ∈ l.published ∨ entries ≠ [] ∧ n ∈ l.marked := by
  obtain ⟨hread, -, hfresh⟩ := (attemptAll_fst_iff l entries).mp (congrArg Prod.fst hall)
  have hlast : n ∈ (l.attemptAll entries).2.published ↔ _ :=
    mem_published_of_fresh hpublished hread hfresh
  rwa [hall] at hlast

end Ledger

end FastTAK
