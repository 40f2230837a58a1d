import Mathlib.Logic.Relation

/-!
# Steps that are done again

A script goes through its steps and stops where one fails, which may leave its own part of the
state in any condition.  The script is then run again from the beginning.
-/

namespace FastTAK.Redo

/-! ## Runs -/

section Runs

variable {ι σ : Type} {apply : ι → σ → Option σ} {spoils : ι → σ → σ → Prop} {R : σ → σ → Prop}
  {steps : List ι} {s s' s'' : σ} {stop : Option ι}

/-- A run through steps, with the step that it stops at. -/
inductive Runs (apply : ι → σ → Option σ) (spoils : ι → σ → σ → Prop) :
    List ι → σ → σ → Option ι → Prop
  | done (s : σ) : Runs apply spoils [] s s none
  | stops {i : ι} {steps : List ι} {s s' : σ} (hspoils : spoils i s s') :
      Runs apply spoils (i :: steps) s s' (some i)
  | goes {i : ι} {steps : List ι} {s s' s'' : σ} {stop : Option ι} (happly : apply i s = some s')
      (hruns : Runs apply spoils steps s' s'' stop) : Runs apply spoils (i :: steps) s s'' stop

/-- What each step keeps, whether it fails or not, a run keeps. -/
theorem Runs.keeps (hruns : Runs apply spoils steps s s' stop) (hrefl : ∀ s, R s s)
    (htrans : ∀ {s s' s''}, R s s' → R s' s'' → R s s'')
    (happly : ∀ i ∈ steps, ∀ s s', apply i s = some s' → R s s')
    (hspoils : ∀ i ∈ steps, ∀ s s', spoils i s s' → R s s') : R s s' := by
  induction hruns with
  | done s => exact hrefl s
  | stops hstep => exact hspoils _ List.mem_cons_self _ _ hstep
  | goes hstep _ ih =>
      apply htrans (happly _ List.mem_cons_self _ _ hstep)
      apply ih
      · exact fun i hi => happly i (List.mem_cons_of_mem _ hi)
      · exact fun i hi => hspoils i (List.mem_cons_of_mem _ hi)

/-- The steps of a run that does not stop are all applied. -/
theorem runs_none_iff :
    Runs apply spoils steps s s' none ↔ steps.foldlM (fun s i => apply i s) s = some s' := by
  induction steps generalizing s with
  | nil =>
      rw [List.foldlM_nil]
      constructor
      · rintro ⟨⟩
        rfl
      · intro hsame
        obtain rfl := Option.some.inj hsame
        exact .done s
  | cons i steps ih =>
      rw [List.foldlM_cons, Option.bind_eq_bind, Option.bind_eq_some_iff]
      constructor
      · intro hruns
        cases hruns with
        | goes happly hruns => exact ⟨_, happly, ih.mp hruns⟩
      · rintro ⟨next, happly, hrest⟩
        exact .goes happly (ih.mpr hrest)

/-- A run through two lists of steps stops in the first, or gets to the second. -/
theorem Runs.split {steps' : List ι} (h : Runs apply spoils (steps ++ steps') s s' stop) :
    (∃ i, stop = some i ∧ Runs apply spoils steps s s' stop) ∨
      ∃ middle, Runs apply spoils steps s middle none ∧
        Runs apply spoils steps' middle s' stop := by
  induction steps generalizing s with
  | nil => exact .inr ⟨s, .done s, h⟩
  | cons i steps ih =>
      cases h with
      | stops hspoils => exact .inl ⟨i, rfl, .stops hspoils⟩
      | goes happly hruns =>
          rcases ih hruns with ⟨j, rfl, hfirst⟩ | ⟨middle, hfirst, hsecond⟩
          · exact .inl ⟨j, rfl, .goes happly hfirst⟩
          · exact .inr ⟨middle, .goes happly hfirst, hsecond⟩

/-- Attempts that stop, of a kind. -/
def Attempts (apply : ι → σ → Option σ) (spoils : ι → σ → σ → Prop) (steps : List ι)
    (kind : ι → σ → σ → Prop) : σ → σ → Prop :=
  Relation.ReflTransGen fun s s' => ∃ i, Runs apply spoils steps s s' (some i) ∧ kind i s s'

theorem Attempts.keeps {kind : ι → σ → σ → Prop} (h : Attempts apply spoils steps kind s s')
    (hrefl : ∀ s, R s s) (htrans : ∀ {s s' s''}, R s s' → R s' s'' → R s s'')
    (happly : ∀ i ∈ steps, ∀ s s', apply i s = some s' → R s s')
    (hspoils : ∀ i ∈ steps, ∀ s s', spoils i s s' → R s s') : R s s' := by
  induction h with
  | refl => exact hrefl s
  | tail _ hattempt ih =>
      obtain ⟨i, hruns, -⟩ := hattempt
      exact htrans ih (hruns.keeps hrefl htrans happly hspoils)

end Runs

/-! ## Writing over what is there -/

section Overlay

variable {κ β : Type} {top bottom bottom' : κ → Option β}

/-- What is written, over what is there. -/
def overlay (top bottom : κ → Option β) : κ → Option β := fun k => (top k).or (bottom k)

/-- The same where nothing is written. -/
def SameOff (top bottom bottom' : κ → Option β) : Prop := ∀ k, top k = none → bottom k = bottom' k

theorem SameOff.trans {bottom'' : κ → Option β} (h : SameOff top bottom bottom')
    (h' : SameOff top bottom' bottom'') : SameOff top bottom bottom'' :=
  fun k hk => (h k hk).trans (h' k hk)

theorem sameOff_overlay (top bottom : κ → Option β) : SameOff top bottom (overlay top bottom) := by
  intro k hk
  rw [overlay, hk, Option.none_or]

/-- Writing all of it again does not depend on what a part of the writing left. -/
theorem overlay_congr (h : SameOff top bottom bottom') :
    overlay top bottom = overlay top bottom' := by
  funext k
  cases hk : top k with
  | none => rw [overlay, overlay, hk, h k hk]
  | some b => rw [overlay, overlay, hk, Option.some_or, Option.some_or]

end Overlay

end FastTAK.Redo
