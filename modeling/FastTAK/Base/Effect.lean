import Mathlib

/-!
# Calls that change a state and may raise

A call of an imperative program reads and changes a state and either returns a
value or raises an exception.  A raise keeps every change made before it: there
is no rollback.  This file fixes that meaning, with sequencing, `try`, loops
over a list and the restriction of a call to one part of a larger state, and
proves the rules by which properties of a whole call follow from its parts.

Failures of the outside world are not special: a call that depends on them
takes the next verdict from a queue kept in its state.
-/

namespace FastTAK.Effect

variable {ε σ τ α β γ : Type}

/-- A call over the state `σ` that returns an `α` or raises an `ε`. -/
def Call (ε σ α : Type) : Type := σ → Except ε α × σ

namespace Call

instance : Monad (Call ε σ) where
  pure a := fun s => (.ok a, s)
  bind call next := fun s =>
    match call s with
    | (.ok a, s') => next a s'
    | (.error e, s') => (.error e, s')

/-- Raise an exception. -/
def raise (e : ε) : Call ε σ α := fun s => (.error e, s)

/-- `try call except e: handler e`. -/
def tryExcept (call : Call ε σ α) (handler : ε → Call ε σ α) : Call ε σ α :=
  fun s =>
    match call s with
    | (.ok a, s') => (.ok a, s')
    | (.error e, s') => handler e s'

/-- Read a value off the state. -/
def read (f : σ → α) : Call ε σ α := fun s => (.ok (f s), s)

/-- Change the state. -/
def modify (f : σ → σ) : Call ε σ Unit := fun s => (.ok (), f s)

/-- Change the state and return a value computed with the change. -/
def update (f : σ → α × σ) : Call ε σ α := fun s => (.ok (f s).1, (f s).2)

/-- Run a call on one part of a larger state. -/
def onPart (get : τ → σ) (set : σ → τ → τ) (call : Call ε σ α) : Call ε τ α :=
  fun t => ((call (get t)).1, set (call (get t)).2 t)

/-- Run `body` on every element in order and collect what it returns. -/
def mapList (body : α → Call ε σ β) : List α → Call ε σ (List β)
  | [] => pure []
  | x :: xs => do
      let y ← body x
      let ys ← mapList body xs
      return y :: ys

/-- Run `body` on every element in order. -/
def forList (body : α → Call ε σ Unit) : List α → Call ε σ Unit
  | [] => pure ()
  | x :: xs => do
      body x
      forList body xs

/-! ## How the operations run -/

@[simp]
theorem pure_apply (a : α) (s : σ) :
    (pure a : Call ε σ α) s = (.ok a, s) := rfl

theorem bind_apply (call : Call ε σ α) (next : α → Call ε σ β) (s : σ) :
    (call >>= next) s =
      match call s with
      | (.ok a, s') => next a s'
      | (.error e, s') => (.error e, s') := rfl

@[simp]
theorem raise_apply (e : ε) (s : σ) :
    (raise e : Call ε σ α) s = (.error e, s) := rfl

@[simp]
theorem read_apply (f : σ → α) (s : σ) :
    (read f : Call ε σ α) s = (.ok (f s), s) := rfl

@[simp]
theorem modify_apply (f : σ → σ) (s : σ) :
    (modify f : Call ε σ Unit) s = (.ok (), f s) := rfl

@[simp]
theorem update_apply (f : σ → α × σ) (s : σ) :
    (update f : Call ε σ α) s = (.ok (f s).1, (f s).2) := rfl

theorem onPart_apply (get : τ → σ) (set : σ → τ → τ) (call : Call ε σ α)
    (t : τ) :
    onPart get set call t = ((call (get t)).1, set (call (get t)).2 t) := rfl

/-- After a call that returns, the rest runs from the state it left. -/
theorem bind_of_ok {call : Call ε σ α} {s s' : σ} {a : α}
    (hcall : call s = (.ok a, s')) (next : α → Call ε σ β) :
    (call >>= next) s = next a s' := by
  rw [bind_apply, hcall]

/-- After a call that raises, the rest does not run. -/
theorem bind_of_error {call : Call ε σ α} {s s' : σ} {e : ε}
    (hcall : call s = (.error e, s')) (next : α → Call ε σ β) :
    (call >>= next) s = (.error e, s') := by
  rw [bind_apply, hcall]

/-- A sequence that returned went through both of its calls. -/
theorem bind_eq_ok {call : Call ε σ α} {next : α → Call ε σ β} {s s'' : σ}
    {b : β} (h : (call >>= next) s = (.ok b, s'')) :
    ∃ a s', call s = (.ok a, s') ∧ next a s' = (.ok b, s'') := by
  rw [bind_apply] at h
  rcases hcall : call s with ⟨result, s'⟩
  cases result with
  | error e => simp [hcall] at h
  | ok a => exact ⟨a, s', rfl, by simpa [hcall] using h⟩

theorem pure_eq_ok {a b : α} {s s' : σ} :
    (pure a : Call ε σ α) s = (.ok b, s') ↔ a = b ∧ s = s' := by
  simp

theorem read_eq_ok {f : σ → α} {a : α} {s s' : σ} :
    (read f : Call ε σ α) s = (.ok a, s') ↔ f s = a ∧ s = s' := by
  simp

theorem tryExcept_of_ok {call : Call ε σ α} {s s' : σ} {a : α}
    (hcall : call s = (.ok a, s')) (handler : ε → Call ε σ α) :
    tryExcept call handler s = (.ok a, s') := by
  rw [tryExcept, hcall]

/-- A guarded call that returned did so itself or through its handler. -/
theorem tryExcept_eq_ok {call : Call ε σ α} {handler : ε → Call ε σ α} {s s' : σ}
    {a : α} (h : tryExcept call handler s = (.ok a, s')) :
    call s = (.ok a, s') ∨
      ∃ e s₁, call s = (.error e, s₁) ∧ handler e s₁ = (.ok a, s') := by
  unfold tryExcept at h
  rcases hcall : call s with ⟨result, s₁⟩
  cases result with
  | ok b => exact Or.inl (by simpa [hcall] using h)
  | error e => exact Or.inr ⟨e, s₁, rfl, by simpa [hcall] using h⟩

@[simp]
theorem pure_bind (a : α) (next : α → Call ε σ β) :
    ((pure a : Call ε σ α) >>= next) = next a := rfl

@[simp]
theorem raise_bind (e : ε) (next : α → Call ε σ β) :
    ((raise e : Call ε σ α) >>= next) = raise e := rfl

@[simp]
theorem bind_pure_eq_ok {call : Call ε σ α} {f : α → β} {s s' : σ} {b : β} :
    (call >>= fun a => pure (f a)) s = (.ok b, s') ↔
      ∃ a, call s = (.ok a, s') ∧ f a = b := by
  constructor
  · intro h
    obtain ⟨a, s₁, hcall, hpure⟩ := bind_eq_ok h
    simp only [pure_apply, Prod.mk.injEq, Except.ok.injEq] at hpure
    obtain ⟨rfl, rfl⟩ := hpure
    exact ⟨a, hcall, rfl⟩
  · rintro ⟨a, hcall, rfl⟩
    rw [bind_of_ok hcall, pure_apply]

@[simp]
theorem mapList_nil (body : α → Call ε σ β) :
    mapList body [] = (pure [] : Call ε σ (List β)) := rfl

theorem mapList_cons (body : α → Call ε σ β) (x : α) (xs : List α) :
    mapList body (x :: xs) =
      (body x >>= fun y => mapList body xs >>= fun ys => pure (y :: ys)) :=
  rfl

@[simp]
theorem forList_nil (body : α → Call ε σ Unit) :
    forList body [] = (pure () : Call ε σ Unit) := rfl

theorem forList_cons (body : α → Call ε σ Unit) (x : α) (xs : List α) :
    forList body (x :: xs) = (body x >>= fun _ => forList body xs) := rfl

/-! ## What every run of a call preserves -/

/-- Every run of the call, returned or raised, relates its first state to its
last one. -/
def Keeps (R : σ → σ → Prop) (call : Call ε σ α) : Prop :=
  ∀ s, R s (call s).2

section Keeps

variable {R : σ → σ → Prop} [IsPreorder σ R]

theorem keeps_pure (a : α) : Keeps R (pure a : Call ε σ α) :=
  fun s => refl_of R s

theorem keeps_raise (e : ε) : Keeps R (raise e : Call ε σ α) :=
  fun s => refl_of R s

theorem keeps_read (f : σ → α) : Keeps R (read f : Call ε σ α) :=
  fun s => refl_of R s

omit [IsPreorder σ R] in
theorem keeps_modify {f : σ → σ} (hstep : ∀ s, R s (f s)) :
    Keeps R (modify f : Call ε σ Unit) := hstep

omit [IsPreorder σ R] in
theorem keeps_update {f : σ → α × σ} (hstep : ∀ s, R s (f s).2) :
    Keeps R (update f : Call ε σ α) := hstep

/-- The rule for sequences that may use what the first call established. -/
theorem keeps_bind_of {call : Call ε σ α} {next : α → Call ε σ β}
    (hcall : Keeps R call)
    (hnext : ∀ s a s', call s = (.ok a, s') → R s' (next a s').2) :
    Keeps R (call >>= next) := by
  intro s
  have hfirst := hcall s
  rw [bind_apply]
  rcases hrun : call s with ⟨result, s'⟩
  rw [hrun] at hfirst
  cases result with
  | error e => exact hfirst
  | ok a => exact trans_of R hfirst (hnext s a s' hrun)

theorem keeps_bind {call : Call ε σ α} {next : α → Call ε σ β}
    (hcall : Keeps R call) (hnext : ∀ a, Keeps R (next a)) :
    Keeps R (call >>= next) :=
  keeps_bind_of hcall fun _ a s' _ => hnext a s'

theorem keeps_tryExcept {call : Call ε σ α} {handler : ε → Call ε σ α}
    (hcall : Keeps R call) (hhandler : ∀ e, Keeps R (handler e)) :
    Keeps R (tryExcept call handler) := by
  intro s
  have hfirst := hcall s
  unfold tryExcept
  rcases hrun : call s with ⟨result, s'⟩
  rw [hrun] at hfirst
  cases result with
  | ok a => exact hfirst
  | error e => exact trans_of R hfirst (hhandler e s')

omit [IsPreorder σ R] in
theorem Keeps.mono {R' : σ → σ → Prop} {call : Call ε σ α}
    (hcall : Keeps R call) (himp : ∀ s s', R s s' → R' s s') :
    Keeps R' call := fun s => himp _ _ (hcall s)

end Keeps

end Call

/-! ## Verdicts of the outside world -/

/-- What happens to one request sent outside.  `fails` is a failure the peer
or the transport reports, `raises` an exception of the client library; either
may come after the first `done` effects of the request took place. -/
inductive Verdict where
  | runs
  | fails (done : ℕ)
  | raises (done : ℕ)
  deriving DecidableEq, Repr

/-- The verdict at the head of a queue.  A queue that has run out lets
everything succeed. -/
def nextVerdict (queue : List Verdict) : Verdict := queue.headD .runs

@[simp]
theorem nextVerdict_nil : nextVerdict [] = .runs := rfl

@[simp]
theorem nextVerdict_cons (v : Verdict) (queue : List Verdict) :
    nextVerdict (v :: queue) = v := rfl

/-! ## Command sequences -/

/-- Commands joined by `&&`.  A command that fails ends the sequence; what was
done before it stays done. -/
def runSteps : List (σ → Option σ) → σ → Bool × σ
  | [], s => (true, s)
  | step :: steps, s =>
    match step s with
    | none => (false, s)
    | some s' => runSteps steps s'

/-- What holds of every command holds of every sequence. -/
theorem runSteps_related {R : σ → σ → Prop} [IsPreorder σ R]
    {steps : List (σ → Option σ)}
    (hsteps : ∀ step ∈ steps, ∀ s s', step s = some s' → R s s') (s : σ) :
    R s (runSteps steps s).2 := by
  induction steps generalizing s with
  | nil => exact refl_of R s
  | cons step steps ih =>
      rw [runSteps]
      cases hstep : step s with
      | none => exact refl_of R s
      | some s' =>
          exact trans_of R (hsteps step (by simp) s s' hstep)
            (ih (fun later hlater => hsteps later (by simp [hlater])) s')

end FastTAK.Effect
