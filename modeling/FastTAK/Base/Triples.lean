import FastTAK.Base.Pool

/-!
# Pre- and postconditions beside other programs

Programs that share a state keep an invariant of it, and move it along a relation.  What that
relation does not disturb can be said before and after a program, as if it ran alone.
-/

namespace FastTAK.Effect

variable {ε σ α β : Type}

/-- What all the programs on a state agree on. -/
structure Discipline (σ : Type) where
  inv : σ → Prop
  steps : σ → σ → Prop
  refl : ∀ s, steps s s
  trans : ∀ s s' s'', steps s s' → steps s' s'' → steps s s''

namespace Discipline

variable (d : Discipline σ)

def Moves (s s' : σ) : Prop := d.inv s → d.inv s' ∧ d.steps s s'

instance : IsPreorder σ d.Moves where
  refl s := fun h => ⟨h, d.refl s⟩
  trans s s' s'' h h' := by
    intro hinv
    obtain ⟨hinv', hsteps⟩ := h hinv
    obtain ⟨hinv'', hsteps'⟩ := h' hinv'
    exact ⟨hinv'', d.trans s s' s'' hsteps hsteps'⟩

/-- A property that the steps do not disturb. -/
def Stable (p : σ → Prop) : Prop := ∀ s s', d.inv s → d.steps s s' → p s → p s'

/-- From a state with the invariant and `pre`, with others in between, the program keeps to the
discipline and returns only what `post` holds of. -/
def Triple (pre : σ → Prop) (post : α → σ → Prop) (p : Prog ε σ α) : Prop :=
  ∀ s, d.inv s → pre s → Prog.Meets d.Moves d.Moves
    (fun result s' => d.inv s' ∧ ∀ a, result = .ok a → post a s') p s

end Discipline

section Rules

variable {d : Discipline σ} {pre : σ → Prop} {post : α → σ → Prop} {post' : β → σ → Prop}

theorem stable_const (p : Prop) : d.Stable fun _ => p := fun _ _ _ _ h => h

theorem Discipline.Triple.weaken {pre' : σ → Prop} {p : Prog ε σ α} (hp : d.Triple pre post p)
    (h : ∀ s, pre' s → pre s) : d.Triple pre' post p :=
  fun s hinv hpre => hp s hinv (h s hpre)

theorem Discipline.Triple.mono {post' : α → σ → Prop} {p : Prog ε σ α} (hp : d.Triple pre post p)
    (h : ∀ a s, post a s → post' a s) : d.Triple pre post' p := by
  intro s hinv hpre
  apply (hp s hinv hpre).mono
  exact fun _ s' h' => ⟨h'.1, fun a ha => h a s' (h'.2 a ha)⟩

theorem triple_pure {a : α} (hstable : d.Stable pre) (h : ∀ s, d.inv s → pre s → post a s) :
    d.Triple pre post (pure a : Prog ε σ α) := by
  intro s hinv hpre s' hmoves
  obtain ⟨hinv', hsteps⟩ := hmoves hinv
  refine ⟨hinv', fun b hb => ?_⟩
  obtain rfl := Except.ok.inj hb
  exact h s' hinv' (hstable s s' hinv hsteps hpre)

theorem triple_raise (e : ε) : d.Triple pre post (Prog.raise e : Prog ε σ α) := by
  intro s hinv _ s' hmoves
  refine ⟨(hmoves hinv).1, fun a ha => ?_⟩
  cases ha

theorem triple_atomic {call : Call ε σ α} (hpre : d.Stable pre) (hpost : ∀ a, d.Stable (post a))
    (h : ∀ s, d.inv s → pre s → d.inv (call s).2 ∧ d.steps s (call s).2 ∧
      ∀ a, (call s).1 = .ok a → post a (call s).2) :
    d.Triple pre post (Prog.atomic call) := by
  intro s hinv hs
  apply Prog.meets_atomic
  intro s' hmoves
  obtain ⟨hinv', hsteps⟩ := hmoves hinv
  obtain ⟨hkeeps, hstep, hreturns⟩ := h s' hinv' (hpre s s' hinv hsteps hs)
  refine ⟨fun _ => ⟨hkeeps, hstep⟩, fun s'' hlater => ?_⟩
  obtain ⟨hinv'', hsteps'⟩ := hlater hkeeps
  exact ⟨hinv'', fun a ha => hpost a _ s'' hkeeps hsteps' (hreturns a ha)⟩

/-- A request that only looks. -/
theorem triple_read {call : Call ε σ α} (hpost : ∀ a, d.Stable (post a))
    (hsame : ∀ s, (call s).2 = s)
    (h : ∀ s, d.inv s → ∀ a, (call s).1 = .ok a → post a s) :
    d.Triple (fun _ => True) post (Prog.atomic call) := by
  apply triple_atomic (stable_const True) hpost
  intro s hinv _
  rw [hsame]
  exact ⟨hinv, d.refl s, h s hinv⟩

theorem triple_bind {p : Prog ε σ α} {next : α → Prog ε σ β} (hp : d.Triple pre post p)
    (hnext : ∀ a, d.Triple (post a) post' (next a)) : d.Triple pre post' (p >>= next) := by
  intro s hinv hpre
  apply Prog.meets_bind
  apply (hp s hinv hpre).mono
  rintro result s' ⟨hinv', hreturns⟩
  cases result with
  | ok a => exact hnext a s' hinv' (hreturns a rfl)
  | error e =>
      refine ⟨hinv', fun b hb => ?_⟩
      cases hb

/-- What the first program returned is known from then on. -/
theorem triple_bind_of {holds : α → Prop} {p : Prog ε σ α} {next : α → Prog ε σ β}
    (hp : d.Triple pre (fun a _ => holds a) p)
    (hnext : ∀ a, holds a → d.Triple (fun _ => True) post' (next a)) :
    d.Triple pre post' (p >>= next) := by
  apply triple_bind hp
  intro a s hinv ha
  exact hnext a ha s hinv trivial

theorem triple_tryExcept {p : Prog ε σ α} {handler : ε → Prog ε σ α} (hp : d.Triple pre post p)
    (hhandler : ∀ e, d.Triple (fun _ => True) post (handler e)) :
    d.Triple pre post (p.tryExcept handler) := by
  intro s hinv hpre
  apply Prog.meets_tryExcept
  apply (hp s hinv hpre).mono
  rintro result s' ⟨hinv', hreturns⟩
  cases result with
  | ok a => exact ⟨hinv', hreturns⟩
  | error e => exact hhandler e s' hinv' trivial

/-- A loop returns what each round returns. -/
theorem triple_mapList {body : α → Prog ε σ β} {holds : β → Prop} (xs : List α)
    (hbody : ∀ x ∈ xs, d.Triple (fun _ => True) (fun b _ => holds b) (body x)) :
    d.Triple (fun _ => True) (fun bs _ => ∀ b ∈ bs, holds b) (Prog.mapList body xs) := by
  induction xs with
  | nil =>
      apply triple_pure (stable_const True)
      intro s _ _ b hb
      cases hb
  | cons x xs ih =>
      apply triple_bind_of (hbody x List.mem_cons_self)
      intro b hb
      apply triple_bind_of (ih fun y hy => hbody y (List.mem_cons_of_mem x hy))
      intro bs hbs
      apply triple_pure (stable_const True)
      exact fun _ _ _ => List.forall_mem_cons.mpr ⟨hb, hbs⟩

end Rules

/-! ## Pools -/

/-- Programs that keep to the discipline keep its invariant, in whatever order they take turns. -/
theorem Pool.invariant_of_triples {d : Discipline σ} {post : α → σ → Prop}
    {starts : ℕ → Prog ε σ α → Prop} {env : σ → σ → Prop} {admits : ℕ → σ → σ → Prop}
    (hstarts : ∀ i p, starts i p → d.Triple (fun _ => True) post p)
    (henv : ∀ s s', env s s' → d.Moves s s') {s : σ} (hs : d.inv s) {pool : Pool ε σ α}
    (hruns : Pool.Runs starts env admits (Pool.idle s) pool) : d.inv pool.state := by
  have hpool : Pool.Cooperates (fun _ => d.inv) (fun _ => d.Moves) (fun _ => d.Moves) starts env :=
    { starts := fun i p hp s hinv => (hstarts i p hp s hinv trivial).mono fun _ _ _ => trivial
      fresh := fun _ _ _ hinv hmoves => (hmoves hinv).1
      env := fun _ => henv
      others := fun _ _ _ _ _ hmoves => hmoves }
  have hinv := Pool.runs_invariant hpool (fun s s' hinv h => (henv s s' h hinv).1)
    (fun _ _ _ hinv hmoves _ => (hmoves hinv).1) hs (fun _ => hs) hruns
  exact hinv.1

end FastTAK.Effect
