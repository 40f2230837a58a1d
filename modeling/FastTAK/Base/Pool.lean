import FastTAK.Base.Program

/-!
# Interleavings

Programs that take turns on one state, request by request.  A program may be
watched: a record that it cannot see follows its requests, so that statements can
speak about the past of a run.  What each program guarantees with every request, as
long as the others move the state along what it relies on, holds of every step.
-/

namespace FastTAK.Effect

variable {ε σ γ α β : Type}

namespace Prog

/-! ## Watched programs -/

/-- The program with a record of its requests beside the state. -/
def watch (record : σ → σ → γ → γ) : Prog ε σ α → Prog ε (σ × γ) α
  | done result => done result
  | act effect rest =>
    act (fun t => (effect t.1, record t.1 (effect t.1) t.2)) fun t => (rest t.1).watch record

theorem watch_bind (record : σ → σ → γ → γ) (p : Prog ε σ α) (next : α → Prog ε σ β) :
    (p >>= next).watch record = p.watch record >>= fun a => (next a).watch record := by
  change (p.bind next).watch record = (p.watch record).bind _
  induction p with
  | done result => cases result <;> rfl
  | act effect rest ih =>
      apply congrArg (act _)
      funext t
      exact ih t.1

/-- What every request of the program does, with what the record makes of it. -/
theorem Respects.watch {guar : σ → σ → Prop} {P : α → Prop} {p : Prog ε σ α}
    (hp : Respects guar P p) (record : σ → σ → γ → γ) :
    Respects (fun t t' => guar t.1 t'.1 ∧ t'.2 = record t.1 t'.1 t.2) P
      (p.watch record) := by
  induction p with
  | done result =>
      cases result with
      | ok a => exact hp
      | error e => trivial
  | act effect rest ih =>
      intro t
      exact ⟨⟨(hp t.1).1, rfl⟩, ih t.1 (hp t.1).2⟩

/-- The watched program `p'` does what `p` does, whatever is recorded. -/
def Erases : Prog ε (σ × γ) α → Prog ε σ α → Prop
  | done result, p => p = done result
  | act effect' rest', p => ∃ effect rest, p = act effect rest ∧
      ∀ t, (effect' t).1 = effect t.1 ∧ Erases (rest' t) (rest t.1)

theorem erases_watch (record : σ → σ → γ → γ) (p : Prog ε σ α) :
    Erases (p.watch record) p := by
  induction p with
  | done result => rfl
  | act effect rest ih => exact ⟨effect, rest, rfl, fun t => ⟨rfl, ih t.1⟩⟩

theorem erases_bind {p' : Prog ε (σ × γ) α} {p : Prog ε σ α}
    {next' : α → Prog ε (σ × γ) β} {next : α → Prog ε σ β} (hp : Erases p' p)
    (hnext : ∀ a, Erases (next' a) (next a)) : Erases (p' >>= next') (p >>= next) := by
  change Erases (p'.bind next') (p.bind next)
  induction p' generalizing p with
  | done result =>
      obtain rfl := hp
      cases result with
      | ok a => exact hnext a
      | error e => rfl
  | act effect' rest' ih =>
      obtain ⟨effect, rest, rfl, hrest⟩ := hp
      exact ⟨effect, _, rfl, fun t => ⟨(hrest t).1, ih t (hrest t).2⟩⟩

theorem erases_tryExcept {p' : Prog ε (σ × γ) α} {p : Prog ε σ α}
    {handler' : ε → Prog ε (σ × γ) α} {handler : ε → Prog ε σ α} (hp : Erases p' p)
    (hhandler : ∀ e, Erases (handler' e) (handler e)) :
    Erases (p'.tryExcept handler') (p.tryExcept handler) := by
  induction p' generalizing p with
  | done result =>
      obtain rfl := hp
      cases result with
      | ok a => rfl
      | error e => exact hhandler e
  | act effect' rest' ih =>
      obtain ⟨effect, rest, rfl, hrest⟩ := hp
      exact ⟨effect, _, rfl, fun t => ⟨(hrest t).1, ih t (hrest t).2⟩⟩

theorem erases_forList {body' : α → Prog ε (σ × γ) Unit} {body : α → Prog ε σ Unit}
    (hbody : ∀ x, Erases (body' x) (body x)) (xs : List α) :
    Erases (forList body' xs) (forList body xs) := by
  induction xs with
  | nil => rfl
  | cons x xs ih => exact erases_bind (hbody x) fun _ => ih

theorem watch_eq_done {record : σ → σ → γ → γ} {p : Prog ε σ α} {result : Except ε α}
    (h : p.watch record = done result) : p = done result := by
  cases p with
  | done result' => exact congrArg done (Prog.done.inj h)
  | act effect rest => cases h

/-- The record does not change with what a program ends. -/
theorem Concludes.watch {ends : σ → σ → α → Prop} {p : Prog ε σ α} (hp : Concludes ends p)
    (record : σ → σ → γ → γ) :
    Concludes (fun t t' => ends t.1 t'.1) (p.watch record) := by
  induction p with
  | done result => trivial
  | act effect rest ih =>
      exact fun t => ⟨fun a hdone => (hp t.1).1 a (watch_eq_done hdone), ih t.1 (hp t.1).2⟩

end Prog

/-! ## Pools -/

/-- A state with the programs that act on it. -/
structure Pool (ε σ α : Type) where
  state : σ
  threads : ℕ → Option (Prog ε σ α)

namespace Pool

/-- Nothing runs yet. -/
def idle (s : σ) : Pool ε σ α := ⟨s, fun _ => none⟩

def setThread (pool : Pool ε σ α) (i : ℕ) (p : Prog ε σ α) : Pool ε σ α :=
  { pool with threads := fun j => if j = i then some p else pool.threads j }

/-- One step: a program is started, a program makes its next request, or the
surroundings act. -/
inductive Step (starts : ℕ → Prog ε σ α → Prop) (env : σ → σ → Prop)
    (admits : ℕ → σ → σ → Prop) : Pool ε σ α → Pool ε σ α → Prop
  | start {pool : Pool ε σ α} {p : Prog ε σ α} (i : ℕ) (hstarts : starts i p)
      (hfree : pool.threads i = none) : Step starts env admits pool (pool.setThread i p)
  | advance {pool : Pool ε σ α} {effect : σ → σ} {rest : σ → Prog ε σ α} (i : ℕ)
      (hthread : pool.threads i = some (.act effect rest))
      (hadmits : admits i pool.state (effect pool.state)) :
      Step starts env admits pool
        (setThread ⟨effect pool.state, pool.threads⟩ i (rest pool.state))
  | env {pool : Pool ε σ α} {s : σ} (henv : env pool.state s) :
      Step starts env admits pool ⟨s, pool.threads⟩

/-- A run of the pool. -/
abbrev Runs (starts : ℕ → Prog ε σ α → Prop) (env : σ → σ → Prop)
    (admits : ℕ → σ → σ → Prop) : Pool ε σ α → Pool ε σ α → Prop :=
  Relation.ReflTransGen (Step starts env admits)

/-- Every program still meets its guarantee from the present state on, and the others can
start. -/
structure AllMeet (fresh : ℕ → σ → Prop) (rely guar : ℕ → σ → σ → Prop)
    (pool : Pool ε σ α) : Prop where
  started : ∀ i p, pool.threads i = some p →
    Prog.Meets (rely i) (guar i) (fun _ _ => True) p pool.state
  fresh : ∀ i, pool.threads i = none → fresh i pool.state

/-- The obligations of a pool: a program that starts meets its guarantee, and the
surroundings and the other programs do what it relies on. -/
structure Cooperates (fresh : ℕ → σ → Prop) (rely guar : ℕ → σ → σ → Prop)
    (starts : ℕ → Prog ε σ α → Prop) (env : σ → σ → Prop) : Prop where
  starts : ∀ i p, starts i p → ∀ s, fresh i s →
    Prog.Meets (rely i) (guar i) (fun _ _ => True) p s
  fresh : ∀ i s s', fresh i s → rely i s s' → fresh i s'
  env : ∀ i s s', env s s' → rely i s s'
  others : ∀ i j, i ≠ j → ∀ s s', guar i s s' → rely j s s'

section Runs

variable {fresh : ℕ → σ → Prop} {rely guar : ℕ → σ → σ → Prop}
variable [∀ i, IsPreorder σ (rely i)]
variable {starts : ℕ → Prog ε σ α → Prop} {env : σ → σ → Prop} {admits : ℕ → σ → σ → Prop}

/-- The program that makes a request takes a step of its guarantee, and all programs still
meet theirs. -/
theorem step_guar (hpool : Cooperates fresh rely guar starts env) {pool pool' : Pool ε σ α}
    (hall : AllMeet fresh rely guar pool) (hstep : Step starts env admits pool pool') :
    AllMeet fresh rely guar pool' ∧ (pool'.state = pool.state ∨ env pool.state pool'.state ∨
      ∃ i, guar i pool.state pool'.state ∧ admits i pool.state pool'.state) := by
  cases hstep with
  | start i hadmitted hfree =>
      refine ⟨⟨?_, ?_⟩, Or.inl rfl⟩
      · intro j q hq
        rcases eq_or_ne j i with rfl | hne
        · obtain rfl := Option.some.inj ((if_pos rfl).symm.trans hq)
          exact hpool.starts j _ hadmitted _ (hall.fresh j hfree)
        · exact hall.started j q ((if_neg hne).symm.trans hq)
      · intro j hj
        rcases eq_or_ne j i with rfl | hne
        · cases (if_pos rfl).symm.trans hj
        · exact hall.fresh j ((if_neg hne).symm.trans hj)
  | advance i hthread hadmits =>
      have hmeets := hall.started i _ hthread _ (refl_of (rely i) _)
      have hothers := fun j (hne : j ≠ i) => hpool.others i j hne.symm _ _ hmeets.1
      refine ⟨⟨?_, ?_⟩, Or.inr (Or.inr ⟨i, hmeets.1, hadmits⟩)⟩
      · intro j q hq
        rcases eq_or_ne j i with rfl | hne
        · obtain rfl := Option.some.inj ((if_pos rfl).symm.trans hq)
          exact hmeets.2
        · have hold := hall.started j q ((if_neg hne).symm.trans hq)
          exact hold.of_rely (hothers j hne)
      · intro j hj
        rcases eq_or_ne j i with rfl | hne
        · cases (if_pos rfl).symm.trans hj
        · exact hpool.fresh j _ _ (hall.fresh j ((if_neg hne).symm.trans hj)) (hothers j hne)
  | env henv =>
      refine ⟨⟨?_, ?_⟩, Or.inr (Or.inl henv)⟩
      · intro j q hq
        exact (hall.started j q hq).of_rely (hpool.env j _ _ henv)
      · intro j hj
        exact hpool.fresh j _ _ (hall.fresh j hj) (hpool.env j _ _ henv)

/-- What every request under its guarantee and the surroundings preserve holds in every
state of a run. -/
theorem runs_invariant (hpool : Cooperates fresh rely guar starts env) {Inv : σ → Prop}
    (henv : ∀ s s', Inv s → env s s' → Inv s')
    (hguar : ∀ i s s', Inv s → guar i s s' → admits i s s' → Inv s') {s : σ} (hs : Inv s)
    (hfresh : ∀ i, fresh i s) {pool : Pool ε σ α}
    (hruns : Runs starts env admits (idle s) pool) :
    Inv pool.state ∧ AllMeet fresh rely guar pool := by
  induction hruns with
  | refl =>
      refine ⟨hs, ?_, fun i _ => hfresh i⟩
      intro i p hp
      cases hp
  | tail _ hstep ih =>
      obtain ⟨hinv, hall⟩ := ih
      obtain ⟨hall', hsame | hmoved | ⟨i, hstepped, hadmits⟩⟩ := step_guar hpool hall hstep
      · exact ⟨hsame ▸ hinv, hall'⟩
      · exact ⟨henv _ _ hinv hmoved, hall'⟩
      · exact ⟨hguar i _ _ hinv hstepped hadmits, hall'⟩

end Runs

/-- What holds of the programs that start, and of the rest of a program of which it holds,
holds of every program of a run. -/
theorem threads_of_runs {starts : ℕ → Prog ε σ α → Prop} {env : σ → σ → Prop}
    {admits : ℕ → σ → σ → Prop} {holds : ℕ → Prog ε σ α → Prop}
    (hstarts : ∀ i p, starts i p → holds i p)
    (hrest : ∀ i effect rest, holds i (.act effect rest) → ∀ s, holds i (rest s)) {s : σ}
    {pool : Pool ε σ α} (hruns : Runs starts env admits (idle s) pool) {i : ℕ}
    {p : Prog ε σ α} (hthread : pool.threads i = some p) : holds i p := by
  induction hruns generalizing i p with
  | refl => cases hthread
  | tail _ hstep ih =>
      cases hstep with
      | start j hadmitted hfree =>
          rcases eq_or_ne i j with rfl | hne
          · obtain rfl := Option.some.inj ((if_pos rfl).symm.trans hthread)
            exact hstarts i _ hadmitted
          · exact ih ((if_neg hne).symm.trans hthread)
      | advance j hold hadmits =>
          rcases eq_or_ne i j with rfl | hne
          · obtain rfl := Option.some.inj ((if_pos rfl).symm.trans hthread)
            exact hrest i _ _ (ih hold) _
          · exact ih ((if_neg hne).symm.trans hthread)
      | env henv => exact ih hthread

/-- What every request that programs respect and the surroundings preserve holds in every state
of a run. -/
theorem invariant_of_respects {starts : ℕ → Prog ε σ α → Prop} {env : σ → σ → Prop}
    {admits guar : ℕ → σ → σ → Prop}
    (hstarts : ∀ i p, starts i p → Prog.Respects (guar i) (fun _ => True) p)
    {Inv : σ → Prop} (henv : ∀ s s', Inv s → env s s' → Inv s')
    (hguar : ∀ i s s', Inv s → guar i s s' → admits i s s' → Inv s') {s : σ} (hs : Inv s)
    {pool : Pool ε σ α} (hruns : Runs starts env admits (idle s) pool) : Inv pool.state := by
  have hrest : ∀ i effect rest, Prog.Respects (guar i) (fun _ : α => True)
      (.act effect rest : Prog ε σ α) → ∀ s, Prog.Respects (guar i) (fun _ => True) (rest s) :=
    fun _ _ _ hp s => (hp s).2
  induction hruns with
  | refl => exact hs
  | tail hbefore hstep ih =>
      cases hstep with
      | start i hadmitted hfree => exact ih
      | advance i hthread hadmits =>
          have hrespects := threads_of_runs hstarts hrest hbefore hthread
          exact hguar i _ _ ih (hrespects _).1 hadmits
      | env hmoved => exact henv _ _ ih hmoved

/-! ## Playing a schedule -/

/-- The next request of a program, if it has one. -/
def advance (pool : Pool ε σ α) (i : ℕ) : Pool ε σ α :=
  match pool.threads i with
  | some (.act effect rest) =>
      setThread ⟨effect pool.state, pool.threads⟩ i (rest pool.state)
  | _ => pool

/-- The programs take turns as scheduled. -/
def play (schedule : List ℕ) (pool : Pool ε σ α) : Pool ε σ α :=
  schedule.foldl advance pool

/-- The program has returned. -/
def returned (pool : Pool ε σ α) (i : ℕ) : Bool :=
  match pool.threads i with
  | some (.done (.ok _)) => true
  | _ => false

/-- Every request of the schedule is admitted. -/
def Plays (admits : ℕ → σ → σ → Prop) : List ℕ → Pool ε σ α → Prop
  | [], _ => True
  | i :: schedule, pool =>
      admits i pool.state (pool.advance i).state ∧ Plays admits schedule (pool.advance i)

instance decidablePlays {admits : ℕ → σ → σ → Prop} [∀ i s s', Decidable (admits i s s')] :
    ∀ (schedule : List ℕ) (pool : Pool ε σ α), Decidable (Plays admits schedule pool)
  | [], _ => .isTrue trivial
  | _ :: schedule, pool =>
      @instDecidableAnd _ _ inferInstance (decidablePlays schedule (pool.advance _))

theorem plays_of_forall {admits : ℕ → σ → σ → Prop} (hadmits : ∀ i s s', admits i s s')
    (schedule : List ℕ) (pool : Pool ε σ α) : Plays admits schedule pool := by
  induction schedule generalizing pool with
  | nil => trivial
  | cons i schedule ih => exact ⟨hadmits _ _ _, ih _⟩

/-- A schedule whose requests are admitted is a run. -/
theorem runs_play {starts : ℕ → Prog ε σ α → Prop} {env : σ → σ → Prop}
    {admits : ℕ → σ → σ → Prop} {schedule : List ℕ} {pool : Pool ε σ α}
    (hplays : Plays admits schedule pool) :
    Runs starts env admits pool (pool.play schedule) := by
  induction schedule generalizing pool with
  | nil => exact .refl
  | cons i schedule ih =>
      refine .trans ?_ (ih hplays.2)
      have hadmits := hplays.1
      unfold advance at hadmits ⊢
      split
      · next hthread =>
          rw [hthread] at hadmits
          exact .single (.advance i hthread hadmits)
      · exact .refl

end Pool

end FastTAK.Effect
