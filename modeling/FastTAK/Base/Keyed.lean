import Mathlib.Data.List.Basic
import Mathlib.Data.List.Infix

/-!
# Machines that keep one state for each key

A service that is called for many clients often keeps a separate record for each of
them.  What it does for one client is then the run of a machine on that client's record
alone, whatever calls of other clients come in between.
-/

namespace FastTAK.Keyed

variable {κ σ τ α β : Type}

/-- Feed inputs to a machine one after the other and pair each with what it puts out. -/
def outputs (step : σ → α → σ × β) : σ → List α → List (α × β)
  | _, [] => []
  | s, a :: rest => (a, (step s a).2) :: outputs step (step s a).1 rest

/-- The state in which the inputs leave the machine. -/
def after (step : σ → α → σ × β) : σ → List α → σ
  | s, [] => s
  | s, a :: rest => after step (step s a).1 rest

@[simp]
theorem outputs_nil (step : σ → α → σ × β) (s : σ) : outputs step s [] = [] := rfl

@[simp]
theorem outputs_cons (step : σ → α → σ × β) (s : σ) (a : α) (rest : List α) :
    outputs step s (a :: rest) = (a, (step s a).2) :: outputs step (step s a).1 rest := rfl

@[simp]
theorem after_nil (step : σ → α → σ × β) (s : σ) : after step s [] = s := rfl

@[simp]
theorem after_cons (step : σ → α → σ × β) (s : σ) (a : α) (rest : List α) :
    after step s (a :: rest) = after step (step s a).1 rest := rfl

theorem outputs_append (step : σ → α → σ × β) (s : σ) (first rest : List α) :
    outputs step s (first ++ rest) =
      outputs step s first ++ outputs step (after step s first) rest := by
  induction first generalizing s with
  | nil => rfl
  | cons a first ih => simp [ih]

/-- Every output belongs to one of the inputs. -/
theorem mem_of_mem_outputs {step : σ → α → σ × β} {s : σ} {inputs : List α} {entry : α × β}
    (hentry : entry ∈ outputs step s inputs) : entry.1 ∈ inputs := by
  induction inputs generalizing s with
  | nil => simp at hentry
  | cons a rest ih =>
      rw [outputs_cons, List.mem_cons] at hentry
      cases hentry with
      | inl hhead => simp [hhead]
      | inr htail => exact List.mem_cons_of_mem _ (ih htail)

/-- The machine `step` serves the inputs of each key with a copy of `single` that sees
only the record of that key. -/
structure Separates (step : σ → α → σ × β) (key : α → κ) (view : κ → σ → τ)
    (single : τ → α → τ × β) : Prop where
  output : ∀ s a, (step s a).2 = (single (view (key a) s) a).2
  own : ∀ s a, view (key a) (step s a).1 = (single (view (key a) s) a).1
  other : ∀ s a k, key a ≠ k → view k (step s a).1 = view k s

section Projection

variable [DecidableEq κ] {step : σ → α → σ × β} {key : α → κ} {view : κ → σ → τ}
  {single : τ → α → τ × β}

/-- What the machine puts out for one key is a run on the inputs of that key. -/
theorem outputs_filter (hstep : Separates step key view single) (k : κ) (s : σ)
    (inputs : List α) :
    (outputs step s inputs).filter (fun entry => key entry.1 = k) =
      outputs single (view k s) (inputs.filter (fun a => key a = k)) := by
  induction inputs generalizing s with
  | nil => rfl
  | cons a rest ih =>
      rw [outputs_cons]
      by_cases hkey : key a = k
      · subst hkey
        simp [ih, hstep.output, hstep.own]
      · simp [ih, hkey, hstep.other s a k hkey]

/-- So is the record in which the machine leaves that key. -/
theorem view_after (hstep : Separates step key view single) (k : κ) (s : σ)
    (inputs : List α) :
    view k (after step s inputs) =
      after single (view k s) (inputs.filter (fun a => key a = k)) := by
  induction inputs generalizing s with
  | nil => rfl
  | cons a rest ih =>
      rw [after_cons, ih]
      by_cases hkey : key a = k
      · subst hkey
        simp [hstep.own]
      · simp [hkey, hstep.other s a k hkey]

end Projection

end FastTAK.Keyed
