import FastTAK.Base.Pool

/-!
# One program among others

What a program leads to when it is one of a pool: beside others that move the state along what
it relies on, and as long as its own requests are of an admitted kind.
-/

namespace FastTAK.Effect

variable {ε σ α β : Type}

namespace Prog

/-- From `s` on, if the others move the state along `rely` between the requests of the program
and each of its requests is admitted, the program ends with `post`. -/
def Arrives (rely admits : σ → σ → Prop) (post : Except ε α → σ → Prop) :
    Prog ε σ α → σ → Prop
  | done result => fun s => ∀ s', rely s s' → post result s'
  | act effect rest => fun s => ∀ s', rely s s' → admits s' (effect s') →
      Arrives rely admits post (rest s') (effect s')

section Arrives

variable {rely admits : σ → σ → Prop} {post : Except ε α → σ → Prop}
  {post' : Except ε β → σ → Prop}

theorem Arrives.of_rely [IsPreorder σ rely] {p : Prog ε σ α} {s s' : σ}
    (hp : Arrives rely admits post p s) (hrely : rely s s') :
    Arrives rely admits post p s' := by
  cases p with
  | done result => exact fun t ht => hp t (trans_of rely hrely ht)
  | act effect rest => exact fun t ht => hp t (trans_of rely hrely ht)

theorem Arrives.mono {post₁ : Except ε α → σ → Prop} {p : Prog ε σ α} {s : σ}
    (hp : Arrives rely admits post p s) (himp : ∀ r s, post r s → post₁ r s) :
    Arrives rely admits post₁ p s := by
  induction p generalizing s with
  | done result => exact fun s' h => himp _ _ (hp s' h)
  | act effect rest ih => exact fun s' h hadmits => ih s' (hp s' h hadmits)

theorem arrives_pure {a : α} {s : σ} (hpost : ∀ s', rely s s' → post (.ok a) s') :
    Arrives rely admits post (pure a) s := hpost

theorem arrives_raise {e : ε} {s : σ} (hpost : ∀ s', rely s s' → post (.error e) s') :
    Arrives rely admits post (raise e) s := hpost

theorem arrives_atomic {call : Call ε σ α} {s : σ}
    (hcall : ∀ s', rely s s' → admits s' (call s').2 →
      ∀ s'', rely (call s').2 s'' → post (call s').1 s'') :
    Arrives rely admits post (atomic call) s := hcall

/-- The rest of a sequence runs from wherever its first program ended. -/
theorem arrives_bind [IsPreorder σ rely] {p : Prog ε σ α} {next : α → Prog ε σ β} {s : σ}
    (hp : Arrives rely admits (fun result s' =>
      match result with
      | .ok a => Arrives rely admits post' (next a) s'
      | .error e => post' (.error e) s') p s) :
    Arrives rely admits post' (p >>= next) s := by
  change Arrives rely admits post' (p.bind next) s
  induction p generalizing s with
  | done result =>
      cases result with
      | ok a => exact hp s (refl_of rely s)
      | error e => exact hp
  | act effect rest ih => exact fun s' h hadmits => ih s' (hp s' h hadmits)

/-- What neither the others nor the admitted requests of the program disturb holds in the
end. -/
theorem Respects.arrives {steps : σ → σ → Prop} {P : α → Prop} {p : Prog ε σ α}
    (hp : Respects steps P p) {keeps : σ → Prop}
    (hrely : ∀ s s', keeps s → rely s s' → keeps s')
    (hsteps : ∀ s s', keeps s → steps s s' → admits s s' → keeps s') {s : σ}
    (hs : keeps s) :
    Arrives rely admits (fun result s' => (∀ a, result = .ok a → P a) ∧ keeps s') p s := by
  induction p generalizing s with
  | done result =>
      intro s' h
      refine ⟨?_, hrely s s' hs h⟩
      rintro a rfl
      exact hp
  | act effect rest ih =>
      intro s' h hadmits
      exact ih s' (hp s').2 (hsteps s' _ (hrely s s' hs h) (hp s').1 hadmits)

/-- Beside anything, a program returns what it returns. -/
theorem Respects.arrives_returns {steps : σ → σ → Prop} {P : α → Prop} {p : Prog ε σ α}
    (hp : Respects steps P p) (s : σ) :
    Arrives rely admits (fun result _ => ∀ a, result = .ok a → P a) p s := by
  have hkeeps : ∀ s s' : σ, True → rely s s' → True := fun _ _ _ _ => trivial
  have hsteps : ∀ s s' : σ, True → steps s s' → admits s s' → True :=
    fun _ _ _ _ _ => trivial
  exact (hp.arrives hkeeps hsteps trivial).mono fun _ _ h => h.1

end Arrives

end Prog

namespace Pool

variable {starts : ℕ → Prog ε σ α → Prop} {env rely : σ → σ → Prop}
  {admits guar : ℕ → σ → σ → Prop} {post : Except ε α → σ → Prop}

/-- A program is under way, and all programs respect their guarantees. -/
structure Underway (guar : ℕ → σ → σ → Prop) (rely admits : σ → σ → Prop)
    (post : Except ε α → σ → Prop) (i : ℕ) (pool : Pool ε σ α) : Prop where
  respects : ∀ j q, pool.threads j = some q → Prog.Respects (guar j) (fun _ => True) q
  arrives : ∃ p, pool.threads i = some p ∧ Prog.Arrives rely admits post p pool.state

/-- A step of the pool keeps the program on its way. -/
theorem Underway.step [IsPreorder σ rely]
    (hstarts : ∀ j p, starts j p → Prog.Respects (guar j) (fun _ => True) p)
    (henv : ∀ s s', env s s' → rely s s')
    (hothers : ∀ j s s', guar j s s' → admits j s s' → rely s s') {i : ℕ}
    {pool pool' : Pool ε σ α} (hunderway : Underway guar rely (admits i) post i pool)
    (hstep : Step starts env admits pool pool') :
    Underway guar rely (admits i) post i pool' := by
  obtain ⟨p, hp, harrives⟩ := hunderway.arrives
  cases hstep with
  | start j hadmitted hfree =>
      have hne : i ≠ j := by
        rintro rfl
        rw [hfree] at hp
        cases hp
      refine ⟨?_, p, (if_neg hne).trans hp, harrives⟩
      intro k q hq
      rcases eq_or_ne k j with rfl | hkj
      · obtain rfl := Option.some.inj ((if_pos rfl).symm.trans hq)
        exact hstarts k _ hadmitted
      · exact hunderway.respects k q ((if_neg hkj).symm.trans hq)
  | advance j hthread hadmits =>
      have hrespects := hunderway.respects j _ hthread pool.state
      constructor
      · intro k q hq
        rcases eq_or_ne k j with rfl | hkj
        · obtain rfl := Option.some.inj ((if_pos rfl).symm.trans hq)
          exact hrespects.2
        · exact hunderway.respects k q ((if_neg hkj).symm.trans hq)
      · rcases eq_or_ne i j with rfl | hne
        · obtain rfl := Option.some.inj (hthread.symm.trans hp)
          exact ⟨_, if_pos rfl, harrives pool.state (refl_of rely _) hadmits⟩
        · have hmoved := hothers j _ _ hrespects.1 hadmits
          exact ⟨p, (if_neg hne).trans hp, harrives.of_rely hmoved⟩
  | env hmoved =>
      exact ⟨hunderway.respects, p, hp, harrives.of_rely (henv _ _ hmoved)⟩

theorem Underway.runs [IsPreorder σ rely]
    (hstarts : ∀ j p, starts j p → Prog.Respects (guar j) (fun _ => True) p)
    (henv : ∀ s s', env s s' → rely s s')
    (hothers : ∀ j s s', guar j s s' → admits j s s' → rely s s') {i : ℕ}
    {start pool : Pool ε σ α} (hunderway : Underway guar rely (admits i) post i start)
    (hruns : Runs starts env admits start pool) :
    Underway guar rely (admits i) post i pool := by
  induction hruns with
  | refl => exact hunderway
  | tail _ hstep ih => exact ih.step hstarts henv hothers hstep

/-- A program that has ended beside the others has ended as it was to. -/
theorem Underway.ended [IsPreorder σ rely] {i : ℕ} {pool : Pool ε σ α}
    {admitted : σ → σ → Prop} {result : Except ε α}
    (hunderway : Underway guar rely admitted post i pool)
    (hended : pool.threads i = some (.done result)) : post result pool.state := by
  obtain ⟨p, hp, harrives⟩ := hunderway.arrives
  obtain rfl := Option.some.inj (hended.symm.trans hp)
  exact harrives pool.state (refl_of rely _)

end Pool

end FastTAK.Effect
