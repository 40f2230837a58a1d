import FastTAK.Base.Program

/-!
# What a program yields alone

A program that reads through a cache returns the same from every state whose cache is true.  Such a
program is given by its result and by what holds of the states before and after it.
-/

namespace FastTAK.Effect.Prog

variable {ε σ α β : Type} {pre mid post : σ → Prop}

/-- From every state with `pre`, the program alone ends with the result, in a state with `post`. -/
def Yields (pre post : σ → Prop) (result : Except ε α) (p : Prog ε σ α) : Prop :=
  ∀ s, pre s → (p.run s).1 = result ∧ post (p.run s).2

theorem yields_pure (a : α) : Yields pre pre (.ok a) (pure a : Prog ε σ α) :=
  fun _ hpre => ⟨rfl, hpre⟩

theorem yields_raise (e : ε) : Yields pre pre (.error e) (raise e : Prog ε σ α) :=
  fun _ hpre => ⟨rfl, hpre⟩

theorem Yields.mono {result : Except ε α} {p : Prog ε σ α} (hp : Yields pre mid result p)
    (h : ∀ s, mid s → post s) : Yields pre post result p :=
  fun s hpre => ⟨(hp s hpre).1, h _ (hp s hpre).2⟩

/-- The rest depends on what the first program returned, the result does not. -/
theorem yields_bind_of {holds : α → Prop} {p : Prog ε σ α} {next : α → Prog ε σ β}
    {result : Except ε β}
    (hp : ∀ s, pre s → ∃ a, holds a ∧ (p.run s).1 = .ok a ∧ mid (p.run s).2)
    (hnext : ∀ a, holds a → Yields mid post result (next a)) :
    Yields pre post result (p >>= next) := by
  intro s hpre
  obtain ⟨a, ha, hresult, hmid⟩ := hp s hpre
  have hrun : p.run s = (.ok a, (p.run s).2) := Prod.ext hresult rfl
  rw [run_bind, Call.bind_of_ok hrun]
  exact hnext a ha _ hmid

theorem yields_bind {p : Prog ε σ α} {next : α → Prog ε σ β} {a : α} {result : Except ε β}
    (hp : Yields pre mid (.ok a) p) (hnext : Yields mid post result (next a)) :
    Yields pre post result (p >>= next) := by
  have hof : ∀ s, pre s → ∃ b, b = a ∧ (p.run s).1 = .ok b ∧ mid (p.run s).2 :=
    fun s hpre => ⟨a, rfl, hp s hpre⟩
  apply yields_bind_of hof
  rintro _ rfl
  exact hnext

theorem yields_bind_error {p : Prog ε σ α} {next : α → Prog ε σ β} {e : ε}
    (hp : Yields pre post (.error e) p) : Yields pre post (.error e) (p >>= next) := by
  intro s hpre
  obtain ⟨hresult, hpost⟩ := hp s hpre
  have hrun : p.run s = (.error e, (p.run s).2) := Prod.ext hresult rfl
  rw [run_bind, Call.bind_of_error hrun]
  exact ⟨rfl, hpost⟩

theorem yields_tryExcept {p : Prog ε σ α} {handler : ε → Prog ε σ α} {a : α}
    (hp : Yields pre post (.ok a) p) : Yields pre post (.ok a) (p.tryExcept handler) := by
  intro s hpre
  obtain ⟨hresult, hpost⟩ := hp s hpre
  have hrun : p.run s = (.ok a, (p.run s).2) := Prod.ext hresult rfl
  rw [run_tryExcept, Call.tryExcept, hrun]
  exact ⟨rfl, hpost⟩

theorem yields_mapList {body : α → Prog ε σ β} {f : α → β} (xs : List α)
    (hbody : ∀ x, Yields pre pre (.ok (f x)) (body x)) :
    Yields pre pre (.ok (xs.map f)) (mapList body xs) := by
  induction xs with
  | nil => exact yields_pure []
  | cons x xs ih =>
      apply yields_bind (hbody x)
      apply yields_bind ih
      exact yields_pure (f x :: xs.map f)

end FastTAK.Effect.Prog
