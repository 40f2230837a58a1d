import FastTAK.Base.Program

/-!
# Programs that clean up

`try … finally`: the cleanup runs after the program however it ends, and an exception of the
cleanup replaces its result.
-/

namespace FastTAK.Effect.Prog

variable {ε σ α β : Type}

/-- `try: p finally: cleanup`. -/
def tryFinally (p : Prog ε σ α) (cleanup : Prog ε σ Unit) : Prog ε σ α := do
  let a ← p.tryExcept (fun e => do
    cleanup
    raise e)
  cleanup
  return a

/-- Only the effects of the program. -/
def discard (p : Prog ε σ α) : Prog ε σ Unit := do
  let _ ← p
  return ()

theorem run_tryFinally_ok {p : Prog ε σ α} {cleanup : Prog ε σ Unit} {s s' : σ} {a : α}
    (hp : p.run s = (.ok a, s')) :
    (p.tryFinally cleanup).run s =
      match cleanup.run s' with
      | (.ok _, t) => (.ok a, t)
      | (.error e, t) => (.error e, t) := by
  rw [tryFinally, run_bind, run_tryExcept, Call.bind_apply, Call.tryExcept, hp]
  dsimp only
  rw [run_bind, Call.bind_apply]
  cases hcleanup : cleanup.run s' with
  | mk result t => cases result <;> rfl

theorem run_tryFinally_error {p : Prog ε σ α} {cleanup : Prog ε σ Unit} {s s' : σ} {e : ε}
    (hp : p.run s = (.error e, s')) :
    (p.tryFinally cleanup).run s =
      match cleanup.run s' with
      | (.ok _, t) => (.error e, t)
      | (.error e', t) => (.error e', t) := by
  rw [tryFinally, run_bind, run_tryExcept, Call.bind_apply, Call.tryExcept, hp]
  dsimp only
  rw [run_bind, Call.bind_apply]
  cases hcleanup : cleanup.run s' with
  | mk result t => cases result <;> rfl

section Respects

variable {guar : σ → σ → Prop} {P : α → Prop}

theorem respects_tryFinally {p : Prog ε σ α} {cleanup : Prog ε σ Unit}
    (hp : Respects guar P p) (hcleanup : Respects guar (fun _ => True) cleanup) :
    Respects guar P (p.tryFinally cleanup) := by
  apply respects_bind (respects_tryExcept hp (fun e => ?_))
  · intro a ha
    exact respects_bind hcleanup (fun _ _ => respects_pure ha)
  · exact respects_bind hcleanup (fun _ _ => respects_raise e)

theorem respects_discard {p : Prog ε σ α} (hp : Respects guar P p) :
    Respects guar (fun _ => True) p.discard :=
  respects_bind hp (fun _ _ => respects_pure trivial)

end Respects

section Meets

variable {rely guar : σ → σ → Prop} [IsPreorder σ rely]

/-- The cleanup takes up where the program ended. -/
theorem meets_tryFinally {p : Prog ε σ α} {cleanup : Prog ε σ Unit} {s : σ}
    {post : Except ε α → σ → Prop}
    (hpost : ∀ result s s', post result s → rely s s' → post result s')
    (hp : Meets rely guar (fun result s' => Meets rely guar (fun ended t =>
      match ended with
      | .ok _ => post result t
      | .error e => post (.error e) t) cleanup s') p s) :
    Meets rely guar post (p.tryFinally cleanup) s := by
  apply meets_bind
  apply meets_tryExcept
  apply hp.mono
  intro result s' hcleanup
  cases result with
  | ok a =>
      apply meets_bind
      apply hcleanup.mono
      intro ended t ht
      cases ended with
      | ok _ => exact meets_pure (fun t' hrely => hpost (.ok a) t t' ht hrely)
      | error e => exact ht
  | error e =>
      apply meets_bind
      apply hcleanup.mono
      intro ended t ht
      cases ended with
      | ok _ =>
          intro t' hrely
          exact hpost (.error e) t t' ht hrely
      | error e' => exact ht

end Meets

end FastTAK.Effect.Prog
