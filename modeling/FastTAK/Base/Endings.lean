import FastTAK.Base.Cleanup

/-!
# How programs end

The exceptions that a program can raise, and programs that can be killed: from then on
their requests do nothing.
-/

namespace FastTAK.Effect.Prog

variable {ε σ α β : Type}

/-! ## Exceptions -/

/-- Whatever the program finds, the exceptions it raises satisfy `E`. -/
def Raises (E : ε → Prop) : Prog ε σ α → Prop
  | done (.ok _) => True
  | done (.error e) => E e
  | act _ rest => ∀ s, Raises E (rest s)

section Raises

variable {E : ε → Prop}

theorem raises_pure {a : α} : Raises E (pure a : Prog ε σ α) := trivial

theorem raises_raise {e : ε} (he : E e) : Raises E (raise e : Prog ε σ α) := he

theorem raises_atomic {call : Call ε σ α} (hcall : ∀ s e, (call s).1 = .error e → E e) :
    Raises E (atomic call) := by
  intro s
  change Raises E (done (call s).1)
  cases hresult : (call s).1 with
  | ok a => trivial
  | error e => exact hcall s e hresult

theorem raises_bind {p : Prog ε σ α} {next : α → Prog ε σ β} (hp : Raises E p)
    (hnext : ∀ a, Raises E (next a)) : Raises E (p >>= next) := by
  change Raises E (p.bind next)
  induction p with
  | done result =>
      cases result with
      | ok a => exact hnext a
      | error e => exact hp
  | act effect rest ih => exact fun s => ih s (hp s)

theorem raises_tryExcept {p : Prog ε σ α} {handler : ε → Prog ε σ α} {E' : ε → Prop}
    (hp : Raises E' p) (hhandler : ∀ e, E' e → Raises E (handler e)) :
    Raises E (p.tryExcept handler) := by
  induction p with
  | done result =>
      cases result with
      | ok a => trivial
      | error e => exact hhandler e hp
  | act effect rest ih => exact fun s => ih s (hp s)

theorem raises_forList {body : α → Prog ε σ Unit} (xs : List α)
    (hbody : ∀ x, Raises E (body x)) : Raises E (forList body xs) := by
  induction xs with
  | nil => exact raises_pure
  | cons x xs ih => exact raises_bind (hbody x) (fun _ => ih)

theorem raises_mapList {body : α → Prog ε σ β} (xs : List α)
    (hbody : ∀ x, Raises E (body x)) : Raises E (mapList body xs) := by
  induction xs with
  | nil => exact raises_pure
  | cons x xs ih =>
      apply raises_bind (hbody x)
      intro y
      exact raises_bind ih (fun ys => raises_pure)

theorem raises_tryFinally {p : Prog ε σ α} {cleanup : Prog ε σ Unit} (hp : Raises E p)
    (hcleanup : Raises E cleanup) : Raises E (p.tryFinally cleanup) := by
  apply raises_bind
  · apply raises_tryExcept hp
    intro e he
    exact raises_bind hcleanup (fun _ => raises_raise he)
  · intro a
    exact raises_bind hcleanup (fun _ => raises_pure)

theorem raises_discard {p : Prog ε σ α} (hp : Raises E p) : Raises E p.discard :=
  raises_bind hp (fun _ => raises_pure)

/-- What is known of the exceptions is known where the program ends. -/
theorem Raises.meets {rely guar : σ → σ → Prop} {post : Except ε α → σ → Prop}
    {p : Prog ε σ α} {s : σ} (hraises : Raises E p) (hp : Meets rely guar post p s) :
    Meets rely guar (fun result s' => post result s' ∧ ∀ e, result = .error e → E e) p s := by
  induction p generalizing s with
  | done result =>
      intro s' hrely
      refine ⟨hp s' hrely, ?_⟩
      rintro e rfl
      exact hraises
  | act effect rest ih =>
      exact fun s' hrely => ⟨(hp s' hrely).1, ih s' (hraises s') (hp s' hrely).2⟩

end Raises

/-! ## Returns -/

/-- Alone, the program returns. -/
def Returns (p : Prog ε σ α) (s : σ) : Prop := ∃ a, (p.run s).1 = .ok a

section Returns

variable {p : Prog ε σ α} {next : α → Prog ε σ β} {s : σ}

theorem returns_pure {a : α} : Returns (pure a : Prog ε σ α) s := ⟨a, rfl⟩

theorem not_returns_raise {e : ε} : ¬ Returns (raise e : Prog ε σ α) s := by
  intro h
  obtain ⟨a, ha⟩ := h
  cases ha

theorem run_bind_of_ok {s' : σ} {a : α} (hp : p.run s = (.ok a, s')) :
    (p >>= next).run s = (next a).run s' := by
  rw [run_bind]
  exact Call.bind_of_ok hp _

theorem run_bind_of_error {s' : σ} {e : ε} (hp : p.run s = (.error e, s')) :
    (p >>= next).run s = (.error e, s') := by
  rw [run_bind]
  exact Call.bind_of_error hp _

/-- A sequence that returned has gone through the end of its first program. -/
theorem run_bind_eq_ok {s'' : σ} {b : β}
    (h : (p >>= next).run s = (.ok b, s'')) :
    ∃ a s', p.run s = (.ok a, s') ∧ (next a).run s' = (.ok b, s'') := by
  rw [run_bind] at h
  exact Call.bind_eq_ok h

theorem Respects.keeps_of_run {guar : σ → σ → Prop} [IsPreorder σ guar] {P : α → Prop} {s' : σ}
    {result : Except ε α} (hp : Respects guar P p) (hrun : p.run s = (result, s')) :
    guar s s' := by
  have hkeeps := hp.keeps s
  rw [hrun] at hkeeps
  exact hkeeps

theorem run_tryExcept_of_ok {handler : ε → Prog ε σ α} {s' : σ} {a : α}
    (hp : p.run s = (.ok a, s')) : (p.tryExcept handler).run s = (.ok a, s') := by
  rw [run_tryExcept, Call.tryExcept, hp]

theorem run_tryExcept_of_error {handler : ε → Prog ε σ α} {s' : σ} {e : ε}
    (hp : p.run s = (.error e, s')) : (p.tryExcept handler).run s = (handler e).run s' := by
  rw [run_tryExcept, Call.tryExcept, hp]

/-- How a program that returns, or does not, has run. -/
theorem Returns.run (h : Returns p s) : ∃ a s', p.run s = (.ok a, s') := by
  obtain ⟨a, ha⟩ := h
  exact ⟨a, (p.run s).2, Prod.ext ha rfl⟩

theorem run_of_not_returns (h : ¬ Returns p s) : ∃ e s', p.run s = (.error e, s') := by
  cases hrun : p.run s with
  | mk result s' =>
      cases result with
      | ok a => exact absurd ⟨a, by rw [hrun]⟩ h
      | error e => exact ⟨e, s', rfl⟩

/-- Where a sequence returns, its second program has returned from the end of its first. -/
theorem Returns.of_bind (h : Returns (p >>= next) s) :
    ∃ a s', p.run s = (.ok a, s') ∧ Returns (next a) s' := by
  cases hrun : p.run s with
  | mk result s' =>
      cases result with
      | ok a =>
          rw [Returns, run_bind_of_ok hrun] at h
          exact ⟨a, s', rfl, h⟩
      | error e =>
          rw [Returns, run_bind_of_error hrun] at h
          obtain ⟨b, hb⟩ := h
          cases hb

/-- A sequence returns when its first program does and its second does from there. -/
theorem returns_bind_iff {Q : Prop}
    (hnext : ∀ a s', p.run s = (.ok a, s') → (Returns (next a) s' ↔ Q)) :
    Returns (p >>= next) s ↔ Returns p s ∧ Q := by
  by_cases hp : Returns p s
  · obtain ⟨a, s', hrun⟩ := hp.run
    rw [and_iff_right hp, ← hnext a s' hrun, Returns, Returns, run_bind_of_ok hrun]
  · obtain ⟨e, s', hrun⟩ := run_of_not_returns hp
    apply iff_of_false
    · intro h
      obtain ⟨b, hb⟩ := h
      rw [run_bind_of_error hrun] at hb
      cases hb
    · exact fun h => hp h.1

theorem returns_bind_pure {f : α → β} : Returns (p >>= fun a => pure (f a)) s ↔ Returns p s := by
  rw [returns_bind_iff (fun a s' _ => (iff_true_intro returns_pure :
    Returns (pure (f a) : Prog ε σ β) s' ↔ True)), and_true]

/-- The cleanup runs where the program ends. -/
theorem run_tryFinally (cleanup : Prog ε σ Unit) {s' : σ} {result : Except ε α}
    (hp : p.run s = (result, s')) :
    ((p.tryFinally cleanup).run s).2 = (cleanup.run s').2 ∧
      (Returns (p.tryFinally cleanup) s ↔ (∃ a, result = .ok a) ∧ Returns cleanup s') := by
  rw [Returns, Returns]
  cases result with
  | ok a =>
      rw [run_tryFinally_ok hp]
      cases hcleanup : cleanup.run s' with
      | mk ended t => cases ended <;> simp
  | error e =>
      rw [run_tryFinally_error hp]
      cases hcleanup : cleanup.run s' with
      | mk ended t => cases ended <;> simp

/-- A loop returns when every round does from wherever the others lead. -/
theorem returns_mapList {R : σ → σ → Prop} [IsPreorder σ R] {body : α → Prog ε σ β}
    {xs : List α} {Q : α → Prop} (hbody : ∀ x, Respects R (fun _ => True) (body x))
    (hround : ∀ x s', R s s' → (Returns (body x) s' ↔ Q x)) :
    Returns (mapList body xs) s ↔ ∀ x ∈ xs, Q x := by
  induction xs generalizing s with
  | nil => exact iff_of_true returns_pure (by simp)
  | cons x xs ih =>
      rw [List.forall_mem_cons, ← hround x s (refl_of R s), mapList]
      apply returns_bind_iff
      intro y s' hrun
      have hmoved := (hbody x).keeps s
      rw [hrun] at hmoved
      have hrest : ∀ x s'', R s' s'' → (Returns (body x) s'' ↔ Q x) :=
        fun x s'' h => hround x s'' (trans_of R hmoved h)
      exact returns_bind_pure.trans (ih hrest)

end Returns

/-! ## Where a program leads -/

/-- What holds in the end, by how a program ended. -/
def endsIn (J K : σ → Prop) : Except ε α → σ → Prop
  | .ok _, s => J s
  | .error _, s => K s

/-- Alone, from `I` on, the program returns in `J` or raises in `K`. -/
def Leads (I J K : σ → Prop) (p : Prog ε σ α) : Prop :=
  ∀ s, I s → endsIn J K (p.run s).1 (p.run s).2

section Leads

variable {I J K L : σ → Prop} {p : Prog ε σ α}

theorem leads_pure {a : α} (h : ∀ s, I s → J s) : Leads I J K (pure a : Prog ε σ α) := h

theorem Leads.mono {I' J' K' : σ → Prop} (hp : Leads I J K p) (hI : ∀ s, I' s → I s)
    (hJ : ∀ s, J s → J' s) (hK : ∀ s, K s → K' s) : Leads I' J' K' p := by
  intro s hs
  have hends := hp s (hI s hs)
  cases hresult : (p.run s).1 with
  | ok a =>
      rw [hresult] at hends
      exact hJ _ hends
  | error e =>
      rw [hresult] at hends
      exact hK _ hends

theorem leads_bind {next : α → Prog ε σ β} (hp : Leads I J K p)
    (hnext : ∀ a, Leads J L K (next a)) : Leads I L K (p >>= next) := by
  intro s hs
  have hends := hp s hs
  cases hrun : p.run s with
  | mk result s' =>
      rw [hrun] at hends
      cases result with
      | ok a =>
          rw [run_bind_of_ok hrun]
          exact hnext a s' hends
      | error e =>
          rw [run_bind_of_error hrun]
          exact hends

theorem leads_tryExcept {handler : ε → Prog ε σ α} (hp : Leads I J K p)
    (hhandler : ∀ e, Leads K J L (handler e)) : Leads I J L (p.tryExcept handler) := by
  intro s hs
  have hends := hp s hs
  cases hrun : p.run s with
  | mk result s' =>
      rw [hrun] at hends
      cases result with
      | ok a =>
          rw [run_tryExcept_of_ok hrun]
          exact hends
      | error e =>
          rw [run_tryExcept_of_error hrun]
          exact hhandler e s' hends

theorem endsIn_same {result : Except ε α} {s : σ} : endsIn J J result s ↔ J s := by
  cases result <;> rfl

/-- Where the program and its cleanup both lead, however they end. -/
theorem leads_tryFinally {cleanup : Prog ε σ Unit} (hp : Leads I J J p)
    (hcleanup : Leads J J J cleanup) : Leads I J J (p.tryFinally cleanup) := by
  intro s hs
  have hends := endsIn_same.mp (hp s hs)
  rw [endsIn_same, (run_tryFinally cleanup rfl).1]
  exact endsIn_same.mp (hcleanup _ hends)

theorem leads_discard (hp : Leads I J K p) : Leads I J K p.discard :=
  leads_bind hp (fun _ => leads_pure (fun _ h => h))

/-- A loop leads back to where each of its rounds does. -/
theorem leads_mapList {body : α → Prog ε σ β} (xs : List α)
    (hbody : ∀ x ∈ xs, Leads J J K (body x)) : Leads J J K (mapList body xs) := by
  induction xs with
  | nil => exact leads_pure (fun _ h => h)
  | cons x xs ih =>
      apply leads_bind (hbody x List.mem_cons_self)
      intro y
      apply leads_bind (ih (fun x' hx' => hbody x' (List.mem_cons_of_mem x hx')))
      intro ys
      exact leads_pure (fun _ h => h)

theorem Respects.leads {guar : σ → σ → Prop} {P : α → Prop} (hp : Respects guar P p)
    (hkeeps : ∀ s s', I s → guar s s' → I s') : Leads I I I p := by
  intro s hs
  exact endsIn_same.mpr ((hp.alone hkeeps hs).ends.2)

end Leads

/-! ## Crashes -/

/-- A program whose requests do nothing once it is dead. -/
def mortal (alive : σ → Prop) [DecidablePred alive] : Prog ε σ α → Prog ε σ α
  | done result => done result
  | act effect rest =>
      act (fun s => if alive s then effect s else s) (fun s => (rest s).mortal alive)

/-- What the others do as long as the program is alive. -/
def WhileAlive (alive : σ → Prop) (rely : σ → σ → Prop) (s s' : σ) : Prop :=
  alive s' → alive s ∧ rely s s'

instance {alive : σ → Prop} {rely : σ → σ → Prop} [IsPreorder σ rely] :
    IsPreorder σ (WhileAlive alive rely) where
  refl s halive := ⟨halive, refl_of rely s⟩
  trans _ _ _ h h' halive :=
    ⟨(h (h' halive).1).1, trans_of rely (h (h' halive).1).2 (h' halive).2⟩

/-- A program that meets its guarantee meets it until it is killed, and does nothing after. -/
theorem Meets.mortal {alive : σ → Prop} [DecidablePred alive] {rely guar : σ → σ → Prop}
    {post : Except ε α → σ → Prop} {p : Prog ε σ α} {s : σ} (hidle : ∀ s, guar s s)
    (hp : alive s → Meets rely guar post p s) :
    Meets (WhileAlive alive rely) guar (fun result s' => alive s' → post result s')
      (p.mortal alive) s := by
  induction p generalizing s with
  | done result =>
      intro s' hrely halive
      exact hp (hrely halive).1 s' (hrely halive).2
  | act effect rest ih =>
      intro s' hrely
      by_cases halive : alive s'
      · have hstep := hp (hrely halive).1 s' (hrely halive).2
        simp only [if_pos halive]
        exact ⟨hstep.1, ih s' (fun _ => hstep.2)⟩
      · simp only [if_neg halive]
        exact ⟨hidle s', ih s' (fun hlater => absurd hlater halive)⟩

end FastTAK.Effect.Prog
