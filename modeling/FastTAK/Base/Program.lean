import FastTAK.Base.Effect

/-!
# Programs among other programs

A program of a concurrent service acts on a shared state one request at a time;
between two of its requests the other programs act.  This file gives such
programs their sequential meaning, which is a `Call`, and their interleavings,
and proves a rely-guarantee rule: what each program guarantees with every
request, as long as the others move the state only along a given relation, holds
of every step of every interleaving.
-/

namespace FastTAK.Effect

variable {ε σ τ α β : Type}

/-- A program over the shared state `σ`.  A request changes the state at once;
the rest of the program sees the state the request found. -/
inductive Prog (ε σ α : Type) : Type
  | done (result : Except ε α)
  | act (effect : σ → σ) (next : σ → Prog ε σ α)

namespace Prog

def bind : Prog ε σ α → (α → Prog ε σ β) → Prog ε σ β
  | done (.ok a), next => next a
  | done (.error e), _ => done (.error e)
  | act effect rest, next => act effect fun s => (rest s).bind next

instance : Monad (Prog ε σ) where
  pure a := done (.ok a)
  bind := bind

/-- Raise an exception. -/
def raise (e : ε) : Prog ε σ α := done (.error e)

/-- `try program except e: handler e`. -/
def tryExcept (handler : ε → Prog ε σ α) : Prog ε σ α → Prog ε σ α
  | done (.ok a) => done (.ok a)
  | done (.error e) => handler e
  | act effect rest => act effect fun s => (rest s).tryExcept handler

/-- A call as one request. -/
def atomic (call : Call ε σ α) : Prog ε σ α :=
  act (fun s => (call s).2) fun s => done (call s).1

/-- Run a program on one part of a larger state. -/
def onPart (get : τ → σ) (set : σ → τ → τ) : Prog ε σ α → Prog ε τ α
  | done result => done result
  | act effect rest =>
    act (fun t => set (effect (get t)) t) fun t => (rest (get t)).onPart get set

/-- Run `body` on every element in order. -/
def forList (body : α → Prog ε σ Unit) : List α → Prog ε σ Unit
  | [] => pure ()
  | x :: xs => body x >>= fun _ => forList body xs

/-- Run `body` on every element in order and collect what it returns. -/
def mapList (body : α → Prog ε σ β) : List α → Prog ε σ (List β)
  | [] => pure []
  | x :: xs => body x >>= fun y => mapList body xs >>= fun ys => pure (y :: ys)

/-! ## Alone -/

/-- The program without others around it. -/
def run : Prog ε σ α → Call ε σ α
  | done result => fun s => (result, s)
  | act effect rest => fun s => (rest s).run (effect s)

@[simp]
theorem run_pure (a : α) : run (pure a : Prog ε σ α) = pure a := rfl

@[simp]
theorem run_raise (e : ε) : run (raise e : Prog ε σ α) = Call.raise e := rfl

@[simp]
theorem run_atomic (call : Call ε σ α) : (atomic call).run = call := rfl

@[simp]
theorem run_bind (p : Prog ε σ α) (next : α → Prog ε σ β) :
    run (p >>= next) = p.run >>= fun a => (next a).run := by
  change (p.bind next).run = _
  funext s
  induction p generalizing s with
  | done result => cases result <;> rfl
  | act effect rest ih => exact ih s (effect s)

@[simp]
theorem run_tryExcept (p : Prog ε σ α) (handler : ε → Prog ε σ α) :
    (p.tryExcept handler).run = Call.tryExcept p.run fun e => (handler e).run := by
  funext s
  induction p generalizing s with
  | done result => cases result <;> rfl
  | act effect rest ih => exact ih s (effect s)

theorem onPart_bind {get : τ → σ} {set : σ → τ → τ} (p : Prog ε σ α)
    (next : α → Prog ε σ β) :
    (p >>= next).onPart get set = p.onPart get set >>= fun a => (next a).onPart get set := by
  change (p.bind next).onPart get set = (p.onPart get set).bind _
  induction p with
  | done result => cases result <;> rfl
  | act effect rest ih =>
      apply congrArg (act _)
      funext t
      exact ih (get t)

/-- A program on one part leaves the other parts to the others: alone, it runs as
it does on its part. -/
theorem run_onPart {get : τ → σ} {set : σ → τ → τ}
    (hget : ∀ s t, get (set s t) = s) (hset : ∀ s s' t, set s (set s' t) = set s t)
    (hself : ∀ t, set (get t) t = t) (p : Prog ε σ α) :
    (p.onPart get set).run = Call.onPart get set p.run := by
  funext t
  induction p generalizing t with
  | done result =>
      rw [Call.onPart_apply]
      exact Prod.ext rfl (hself t).symm
  | act effect rest ih =>
      have hrest := ih (get t) (set (effect (get t)) t)
      rw [Call.onPart_apply, hget, hset] at hrest
      exact hrest

/-! ## What every request of a program does -/

/-- In whatever states the requests of the program find themselves, each is a
step of `guar`, and what the program returns satisfies `P`. -/
def Respects (guar : σ → σ → Prop) (P : α → Prop) : Prog ε σ α → Prop
  | done (.ok a) => P a
  | done (.error _) => True
  | act effect rest => ∀ s, guar s (effect s) ∧ Respects guar P (rest s)

section Respects

variable {guar : σ → σ → Prop} {P : α → Prop} {Q : β → Prop}

theorem respects_pure {a : α} (ha : P a) :
    Respects guar P (pure a : Prog ε σ α) := ha

theorem respects_raise (e : ε) : Respects guar P (raise e : Prog ε σ α) := trivial

theorem respects_true (p : Prog ε σ α) :
    Respects (fun _ _ => True) (fun _ => True) p := by
  induction p with
  | done result => cases result <;> trivial
  | act effect rest ih => exact fun s => ⟨trivial, ih s⟩

theorem respects_atomic {call : Call ε σ α}
    (hcall : ∀ s, guar s (call s).2 ∧ ∀ a, (call s).1 = .ok a → P a) :
    Respects guar P (atomic call) := by
  intro s
  refine ⟨(hcall s).1, ?_⟩
  change Respects guar P (done (call s).1)
  cases hresult : (call s).1 with
  | ok a => exact (hcall s).2 a hresult
  | error e => trivial

theorem respects_bind {p : Prog ε σ α} {next : α → Prog ε σ β}
    (hp : Respects guar P p)
    (hnext : ∀ a, P a → Respects guar Q (next a)) :
    Respects guar Q (p >>= next) := by
  change Respects guar Q (p.bind next)
  induction p with
  | done result =>
      cases result with
      | ok a => exact hnext a hp
      | error e => trivial
  | act effect rest ih => exact fun s => ⟨(hp s).1, ih s (hp s).2⟩

theorem respects_tryExcept {p : Prog ε σ α} {handler : ε → Prog ε σ α}
    (hp : Respects guar P p) (hhandler : ∀ e, Respects guar P (handler e)) :
    Respects guar P (p.tryExcept handler) := by
  induction p with
  | done result =>
      cases result with
      | ok a => exact hp
      | error e => exact hhandler e
  | act effect rest ih => exact fun s => ⟨(hp s).1, ih s (hp s).2⟩

theorem respects_forList {body : α → Prog ε σ Unit} (xs : List α)
    (hbody : ∀ x ∈ xs, Respects guar (fun _ => True) (body x)) :
    Respects guar (fun _ => True) (forList body xs) := by
  induction xs with
  | nil => exact respects_pure trivial
  | cons x xs ih =>
      exact respects_bind (hbody x (by simp))
        fun _ _ => ih fun x' hx' => hbody x' (by simp [hx'])

theorem respects_mapList {body : α → Prog ε σ β} (xs : List α)
    (hbody : ∀ x ∈ xs, Respects guar Q (body x)) :
    Respects guar (fun ys => ∀ y ∈ ys, Q y) (mapList body xs) := by
  induction xs with
  | nil => exact respects_pure (by simp)
  | cons x xs ih =>
      refine respects_bind (hbody x (by simp)) fun y hy => ?_
      refine respects_bind (ih fun x' hx' => hbody x' (by simp [hx'])) fun ys hys => ?_
      exact respects_pure (List.forall_mem_cons.mpr ⟨hy, hys⟩)

theorem Respects.mono {guar' : σ → σ → Prop} {P₁ : α → Prop} {p : Prog ε σ α}
    (hp : Respects guar P p) (hguar : ∀ s s', guar s s' → guar' s s')
    (hreturns : ∀ a, P a → P₁ a) : Respects guar' P₁ p := by
  induction p with
  | done result =>
      cases result with
      | ok a => exact hreturns a hp
      | error e => trivial
  | act effect rest ih => exact fun s => ⟨hguar _ _ (hp s).1, ih s (hp s).2⟩

/-- A part on which every request is a step of `guar` makes the whole take steps
of what `guar` means for it. -/
theorem Respects.onPart {get : τ → σ} {set : σ → τ → τ} {guar' : τ → τ → Prop}
    {p : Prog ε σ α} (hp : Respects guar P p)
    (hlift : ∀ t s', guar (get t) s' → guar' t (set s' t)) :
    Respects guar' P (p.onPart get set) := by
  induction p with
  | done result =>
      cases result with
      | ok a => exact hp
      | error e => trivial
  | act effect rest ih =>
      exact fun t => ⟨hlift t _ (hp (get t)).1, ih (get t) (hp (get t)).2⟩

/-- Alone, the program leads from its first state to its last along `guar`. -/
theorem Respects.keeps [IsPreorder σ guar] {p : Prog ε σ α}
    (hp : Respects guar P p) : Call.Keeps guar p.run := by
  intro s
  induction p generalizing s with
  | done result => exact refl_of guar s
  | act effect rest ih =>
      exact trans_of guar (hp s).1 (ih s (hp s).2 (effect s))

theorem Respects.returned {p : Prog ε σ α} (hp : Respects guar P p) {s s' : σ}
    {a : α} (hrun : p.run s = (.ok a, s')) : P a := by
  induction p generalizing s with
  | done result =>
      obtain ⟨rfl, -⟩ := Prod.mk.inj hrun
      exact hp
  | act effect rest ih => exact ih s (hp s).2 hrun

end Respects

/-! ## Rely and guarantee -/

/-- From `s` on, if the others move the state along `rely` between the requests
of the program, then every request of the program is a step of `guar`, and the
program ends with `post`. -/
def Meets (rely guar : σ → σ → Prop) (post : Except ε α → σ → Prop) :
    Prog ε σ α → σ → Prop
  | done result => fun s => ∀ s', rely s s' → post result s'
  | act effect rest => fun s => ∀ s', rely s s' →
      guar s' (effect s') ∧ Meets rely guar post (rest s') (effect s')

section Meets

variable {rely guar : σ → σ → Prop} [IsPreorder σ rely]
variable {post : Except ε α → σ → Prop} {post' : Except ε β → σ → Prop}

/-- The others may act before the first request. -/
theorem Meets.of_rely {p : Prog ε σ α} {s s' : σ} (hp : Meets rely guar post p s)
    (hrely : rely s s') : Meets rely guar post p s' := by
  cases p with
  | done result => exact fun t ht => hp t (trans_of rely hrely ht)
  | act effect rest => exact fun t ht => hp t (trans_of rely hrely ht)

omit [IsPreorder σ rely] in
theorem Meets.mono {post₁ : Except ε α → σ → Prop} {p : Prog ε σ α} {s : σ}
    (hp : Meets rely guar post p s) (himp : ∀ r s, post r s → post₁ r s) :
    Meets rely guar post₁ p s := by
  induction p generalizing s with
  | done result => exact fun s' h => himp _ _ (hp s' h)
  | act effect rest ih => exact fun s' h => ⟨(hp s' h).1, ih s' (hp s' h).2⟩

omit [IsPreorder σ rely] in
theorem Meets.weaken {guar' : σ → σ → Prop} {p : Prog ε σ α} {s : σ}
    (hp : Meets rely guar post p s) (hguar : ∀ s s', guar s s' → guar' s s') :
    Meets rely guar' post p s := by
  induction p generalizing s with
  | done result => exact hp
  | act effect rest ih => exact fun s' h => ⟨hguar _ _ (hp s' h).1, ih s' (hp s' h).2⟩

omit [IsPreorder σ rely] in
theorem meets_pure {a : α} {s : σ} (hpost : ∀ s', rely s s' → post (.ok a) s') :
    Meets rely guar post (pure a) s := hpost

omit [IsPreorder σ rely] in
theorem meets_atomic {call : Call ε σ α} {s : σ}
    (hcall : ∀ s', rely s s' → guar s' (call s').2 ∧
      ∀ s'', rely (call s').2 s'' → post (call s').1 s'') :
    Meets rely guar post (atomic call) s := hcall

/-- The rest of a sequence runs from wherever its first program ended. -/
theorem meets_bind {p : Prog ε σ α} {next : α → Prog ε σ β} {s : σ}
    (hp : Meets rely guar (fun result s' =>
      match result with
      | .ok a => Meets rely guar post' (next a) s'
      | .error e => post' (.error e) s') p s) :
    Meets rely guar post' (p >>= next) s := by
  change Meets rely guar post' (p.bind next) s
  induction p generalizing s with
  | done result =>
      cases result with
      | ok a => exact hp s (refl_of rely s)
      | error e => exact hp
  | act effect rest ih => exact fun s' h => ⟨(hp s' h).1, ih s' (hp s' h).2⟩

theorem meets_tryExcept {p : Prog ε σ α} {handler : ε → Prog ε σ α} {s : σ}
    (hp : Meets rely guar (fun result s' =>
      match result with
      | .ok a => post (.ok a) s'
      | .error e => Meets rely guar post (handler e) s') p s) :
    Meets rely guar post (p.tryExcept handler) s := by
  induction p generalizing s with
  | done result =>
      cases result with
      | ok a => exact hp
      | error e => exact hp s (refl_of rely s)
  | act effect rest ih => exact fun s' h => ⟨(hp s' h).1, ih s' (hp s' h).2⟩

omit [IsPreorder σ rely] in
/-- What a program respects in all states turns into a guarantee where `keeps` holds, which
neither it nor the others disturb. -/
theorem Respects.meets_of {steps : σ → σ → Prop} {P : α → Prop} {p : Prog ε σ α}
    (hp : Respects steps P p) {keeps : σ → Prop}
    (hrely : ∀ s s', keeps s → rely s s' → keeps s')
    (hsteps : ∀ s s', keeps s → steps s s' → guar s s' ∧ keeps s') {s : σ} (hs : keeps s) :
    Meets rely guar (fun result s' => (∀ a, result = .ok a → P a) ∧ keeps s')
      p s := by
  induction p generalizing s with
  | done result =>
      refine fun s' h => ⟨?_, hrely s s' hs h⟩
      rintro a rfl
      exact hp
  | act effect rest ih =>
      intro s' h
      obtain ⟨hguar, hkeeps⟩ := hsteps s' _ (hrely s s' hs h) (hp s').1
      exact ⟨hguar, ih s' (hp s').2 hkeeps⟩

omit [IsPreorder σ rely] in
/-- A program that respects a guarantee meets it next to anything, and whatever
neither it nor the others disturb holds in the end. -/
theorem Respects.meets {P : α → Prop} {p : Prog ε σ α}
    (hp : Respects guar P p) {keeps : σ → Prop}
    (hrely : ∀ s s', keeps s → rely s s' → keeps s')
    (hguar : ∀ s s', keeps s → guar s s' → keeps s') {s : σ} (hs : keeps s) :
    Meets rely guar (fun result s' => (∀ a, result = .ok a → P a) ∧ keeps s')
      p s :=
  hp.meets_of hrely (fun s s' hkeeps h => ⟨h, hguar s s' hkeeps h⟩) hs

omit [IsPreorder σ rely] in
/-- A program that keeps something, and another after it. -/
theorem Respects.meets_bind {steps : σ → σ → Prop} {P : α → Prop} {p : Prog ε σ α}
    {next : α → Prog ε σ β} (hp : Respects steps P p) {keeps : σ → Prop}
    (hrely : ∀ s s', keeps s → rely s s' → keeps s')
    (hsteps : ∀ s s', keeps s → steps s s' → guar s s' ∧ keeps s') {s : σ} (hs : keeps s)
    (hnext : ∀ a s', P a → keeps s' → Meets rely guar post' (next a) s')
    (herror : ∀ e s', keeps s' → post' (.error e) s') :
    Meets rely guar post' (p >>= next) s := by
  change Meets rely guar post' (p.bind next) s
  induction p generalizing s with
  | done result =>
      cases result with
      | ok a => exact hnext a s hp hs
      | error e => exact fun s' h => herror e s' (hrely s s' hs h)
  | act effect rest ih =>
      intro s' h
      obtain ⟨hguar, hkeeps⟩ := hsteps s' _ (hrely s s' hs h) (hp s').1
      exact ⟨hguar, ih s' (hp s').2 hkeeps⟩

/-- A loop keeps what every round keeps. -/
theorem meets_forList {body : α → Prog ε σ Unit} {xs : List α} {keeps : σ → Prop}
    (hrely : ∀ s s', keeps s → rely s s' → keeps s')
    (hbody : ∀ x ∈ xs, ∀ s, keeps s →
      Meets rely guar (fun _ s' => keeps s') (body x) s) {s : σ} (hs : keeps s) :
    Meets rely guar (fun _ s' => keeps s') (forList body xs) s := by
  induction xs generalizing s with
  | nil => exact fun s' h => hrely s s' hs h
  | cons x xs ih =>
      refine meets_bind ((hbody x (by simp) s hs).mono fun result s' hs' => ?_)
      cases result with
      | ok _ => exact ih (fun y hy => hbody y (by simp [hy])) hs'
      | error e => exact hs'

end Meets

/-! ## Step by step without others -/

/-- From `s` on, with nothing else acting, every request of the program is a step of
`guar` and the program ends with `post`. -/
def Alone (guar : σ → σ → Prop) (post : Except ε α → σ → Prop) : Prog ε σ α → σ → Prop
  | done result => post result
  | act effect rest => fun s =>
      guar s (effect s) ∧ Alone guar post (rest s) (effect s)

/-- The states in which the requests of the program leave it, in order. -/
def visited : Prog ε σ α → σ → List σ
  | done _, _ => []
  | act effect rest, s => effect s :: (rest s).visited (effect s)

section Alone

variable {guar : σ → σ → Prop} {post : Except ε α → σ → Prop}
  {post' : Except ε β → σ → Prop}

theorem alone_pure {a : α} {s : σ} (hpost : post (.ok a) s) :
    Alone guar post (pure a) s := hpost

theorem alone_raise {e : ε} {s : σ} (hpost : post (.error e) s) :
    Alone guar post (raise e) s := hpost

theorem alone_atomic {call : Call ε σ α} {s : σ} (hguar : guar s (call s).2)
    (hpost : post (call s).1 (call s).2) : Alone guar post (atomic call) s :=
  ⟨hguar, hpost⟩

theorem alone_bind {p : Prog ε σ α} {next : α → Prog ε σ β} {s : σ}
    (hp : Alone guar (fun result s' =>
      match result with
      | .ok a => Alone guar post' (next a) s'
      | .error e => post' (.error e) s') p s) :
    Alone guar post' (p >>= next) s := by
  change Alone guar post' (p.bind next) s
  induction p generalizing s with
  | done result =>
      cases result with
      | ok a => exact hp
      | error e => exact hp
  | act effect rest ih => exact ⟨hp.1, ih s hp.2⟩

theorem alone_tryExcept {p : Prog ε σ α} {handler : ε → Prog ε σ α} {s : σ}
    (hp : Alone guar (fun result s' =>
      match result with
      | .ok a => post (.ok a) s'
      | .error e => Alone guar post (handler e) s') p s) :
    Alone guar post (p.tryExcept handler) s := by
  induction p generalizing s with
  | done result =>
      cases result with
      | ok a => exact hp
      | error e => exact hp
  | act effect rest ih => exact ⟨hp.1, ih s hp.2⟩

theorem Alone.mono {guar' : σ → σ → Prop} {post₁ : Except ε α → σ → Prop}
    {p : Prog ε σ α} {s : σ} (hp : Alone guar post p s)
    (hguar : ∀ s s', guar s s' → guar' s s') (hpost : ∀ r s, post r s → post₁ r s) :
    Alone guar' post₁ p s := by
  induction p generalizing s with
  | done result => exact hpost _ _ hp
  | act effect rest ih => exact ⟨hguar _ _ hp.1, ih s hp.2⟩

/-- Two things that are said of one run. -/
theorem Alone.and {guar' : σ → σ → Prop} {post₁ : Except ε α → σ → Prop} {p : Prog ε σ α}
    {s : σ} (hp : Alone guar post p s) (hp₁ : Alone guar' post₁ p s) :
    Alone guar (fun r s' => post r s' ∧ post₁ r s') p s := by
  induction p generalizing s with
  | done result => exact ⟨hp, hp₁⟩
  | act effect rest ih => exact ⟨hp.1, ih s hp.2 hp₁.2⟩

/-- In the end the state has moved along the guarantee. -/
theorem Alone.since [IsPreorder σ guar] {p : Prog ε σ α} {s : σ} (hp : Alone guar post p s) :
    Alone guar (fun r s' => post r s' ∧ guar s s') p s := by
  induction p generalizing s with
  | done result => exact ⟨hp, refl_of guar s⟩
  | act effect rest ih =>
      exact ⟨hp.1, (ih s hp.2).mono (fun _ _ h => h)
        fun _ _ h => ⟨h.1, trans_of guar hp.1 h.2⟩⟩

/-- A loop keeps what every round keeps. -/
theorem alone_forList {body : α → Prog ε σ Unit} {xs : List α} {keeps : σ → Prop}
    (hbody : ∀ x ∈ xs, ∀ s, keeps s → Alone guar (fun _ s' => keeps s') (body x) s)
    {s : σ} (hs : keeps s) :
    Alone guar (fun _ s' => keeps s') (forList body xs) s := by
  induction xs generalizing s with
  | nil => exact hs
  | cons x xs ih =>
      refine alone_bind ((hbody x (by simp) s hs).mono (fun _ _ h => h) ?_)
      intro result s' hs'
      cases result with
      | ok _ => exact ih (fun y hy => hbody y (by simp [hy])) hs'
      | error e => exact hs'

/-- What a round that returns has done stays done where every round moves along `moves`. -/
theorem alone_forList_each {moves : σ → σ → Prop} [IsPreorder σ moves] {done : α → σ → Prop}
    {body : α → Prog ε σ Unit} {xs : List α} {s₀ : σ}
    (hbody : ∀ x ∈ xs, ∀ s, moves s₀ s → Alone guar (fun result s' => moves s s' ∧
      (result = .ok () → done x s')) (body x) s)
    (hkeeps : ∀ x s s', moves s s' → done x s → done x s') {s : σ} (hs : moves s₀ s) :
    Alone guar (fun result s' => moves s s' ∧ (result = .ok () → ∀ x ∈ xs, done x s'))
      (forList body xs) s := by
  induction xs generalizing s with
  | nil => exact ⟨refl_of moves s, fun _ x hx => absurd hx List.not_mem_nil⟩
  | cons x xs ih =>
      refine alone_bind ((hbody x List.mem_cons_self s hs).mono (fun _ _ h => h) ?_)
      intro result s' hround
      obtain ⟨hmoved, hdone⟩ := hround
      cases result with
      | error e => exact ⟨hmoved, fun h => absurd h (by simp)⟩
      | ok _ =>
          have hrest := ih (fun y hy => hbody y (List.mem_cons_of_mem _ hy))
            (trans_of moves hs hmoved)
          refine hrest.mono (fun _ _ h => h) fun result s'' h => ?_
          use trans_of moves hmoved h.1
          intro hok y hy
          rcases List.mem_cons.mp hy with rfl | hy
          · exact hkeeps y s' s'' h.1 (hdone rfl)
          · exact h.2 hok y hy

/-- A loop of which every round returns. -/
theorem alone_forList_ok {body : α → Prog ε σ Unit} {xs : List α} {keeps : σ → Prop}
    (hbody : ∀ x ∈ xs, ∀ s, keeps s →
      Alone guar (fun result s' => result = .ok () ∧ keeps s') (body x) s)
    {s : σ} (hs : keeps s) :
    Alone guar (fun result s' => result = .ok () ∧ keeps s') (forList body xs) s := by
  induction xs generalizing s with
  | nil => exact ⟨rfl, hs⟩
  | cons x xs ih =>
      refine alone_bind ((hbody x (by simp) s hs).mono (fun _ _ h => h) ?_)
      rintro result s' ⟨rfl, hs'⟩
      exact ih (fun y hy => hbody y (by simp [hy])) hs'

/-- On one part of a state the program does what it does there, and leaves the rest. -/
theorem alone_onPart {get : τ → σ} {set : σ → τ → τ} {guar' : τ → τ → Prop}
    (hget : ∀ s t, get (set s t) = s) (hset : ∀ s s' t, set s (set s' t) = set s t)
    (hself : ∀ t, set (get t) t = t)
    (hlift : ∀ t s', guar (get t) s' → guar' t (set s' t)) {p : Prog ε σ α} {t : τ}
    (hp : Alone guar post p (get t)) :
    Alone guar' (fun result t' => post result (get t') ∧ t' = set (get t') t)
      (p.onPart get set) t := by
  induction p generalizing t with
  | done result => exact ⟨hp, (hself t).symm⟩
  | act effect rest ih =>
      refine ⟨hlift t _ hp.1, ?_⟩
      have hrest := ih (get t) (t := set (effect (get t)) t)
        (by rw [hget]; exact hp.2)
      refine hrest.mono (fun _ _ h => h) fun r t' h => ⟨h.1, ?_⟩
      rw [hset] at h
      exact h.2

/-- How the program ends. -/
theorem Alone.ends {p : Prog ε σ α} {s : σ} (hp : Alone guar post p s) :
    post (p.run s).1 (p.run s).2 := by
  induction p generalizing s with
  | done result => exact hp
  | act effect rest ih => exact ih s hp.2

/-- A run in which the steps do not matter. -/
theorem alone_of_run {p : Prog ε σ α} {s : σ} (hpost : post (p.run s).1 (p.run s).2) :
    Alone (fun _ _ => True) post p s := by
  induction p generalizing s with
  | done result => exact hpost
  | act effect rest ih => exact ⟨trivial, ih s hpost⟩

/-- The program as a whole is a step of `guar`. -/
theorem Alone.whole [IsPreorder σ guar] {p : Prog ε σ α} {s : σ}
    (hp : Alone guar post p s) : guar s (p.run s).2 := by
  induction p generalizing s with
  | done result => exact refl_of guar s
  | act effect rest ih => exact trans_of guar hp.1 (ih s hp.2)

/-- Every state on the way is reached along `guar`. -/
theorem Alone.reaches [IsPreorder σ guar] {p : Prog ε σ α} {s : σ}
    (hp : Alone guar post p s) : ∀ t ∈ p.visited s, guar s t := by
  induction p generalizing s with
  | done result => simp [visited]
  | act effect rest ih =>
      intro t ht
      rcases List.mem_cons.mp ht with rfl | ht
      · exact hp.1
      · exact trans_of guar hp.1 (ih s hp.2 t ht)

/-- What a program guarantees in all states it guarantees alone, and what its requests
do not disturb holds in the end. -/
theorem Respects.alone {P : α → Prop} {p : Prog ε σ α} (hp : Respects guar P p)
    {keeps : σ → Prop} (hguar : ∀ s s', keeps s → guar s s' → keeps s') {s : σ}
    (hs : keeps s) :
    Alone guar (fun result s' => (∀ a, result = .ok a → P a) ∧ keeps s') p s := by
  induction p generalizing s with
  | done result =>
      refine ⟨?_, hs⟩
      rintro a rfl
      exact hp
  | act effect rest ih =>
      exact ⟨(hp s).1, ih s (hp s).2 (hguar s _ hs (hp s).1)⟩

theorem visited_bind (p : Prog ε σ α) (next : α → Prog ε σ β) (s : σ) :
    (p >>= next).visited s = p.visited s ++
      match p.run s with
      | (.ok a, s') => (next a).visited s'
      | (.error _, _) => [] := by
  change (p.bind next).visited s = _
  induction p generalizing s with
  | done result => cases result <;> rfl
  | act effect rest ih => exact congrArg (effect s :: ·) (ih s (effect s))

/-- A state that the first part visits. -/
theorem mem_visited_bind_left {p : Prog ε σ α} (next : α → Prog ε σ β) {s t : σ}
    (ht : t ∈ p.visited s) : t ∈ (p >>= next).visited s := by
  rw [visited_bind]
  exact List.mem_append_left _ ht

/-- A state that the second part visits. -/
theorem mem_visited_bind_right {p : Prog ε σ α} {next : α → Prog ε σ β} {s s' t : σ} {a : α}
    (hrun : p.run s = (.ok a, s')) (ht : t ∈ (next a).visited s') :
    t ∈ (p >>= next).visited s := by
  rw [visited_bind, hrun]
  exact List.mem_append_right _ ht

theorem visited_onPart {get : τ → σ} {set : σ → τ → τ}
    (hget : ∀ s t, get (set s t) = s) (hset : ∀ s s' t, set s (set s' t) = set s t)
    (p : Prog ε σ α) (t : τ) :
    (p.onPart get set).visited t = (p.visited (get t)).map fun s => set s t := by
  induction p generalizing t with
  | done result => rfl
  | act effect rest ih =>
      have hrest := ih (get t) (set (effect (get t)) t)
      rw [hget] at hrest
      simp only [hset] at hrest
      exact congrArg (set (effect (get t)) t :: ·) hrest

end Alone

/-! ## The last request -/

/-- What the last request of the program finds and leaves, and what the program then returns,
satisfy `ends`. -/
def Concludes (ends : σ → σ → α → Prop) : Prog ε σ α → Prop
  | done _ => True
  | act effect rest => ∀ s,
      (∀ a, rest s = done (.ok a) → ends s (effect s) a) ∧ Concludes ends (rest s)

theorem bind_eq_done {p : Prog ε σ α} {next : α → Prog ε σ β} {b : β}
    (h : p >>= next = done (.ok b)) :
    ∃ a, p = done (.ok a) ∧ next a = done (.ok b) := by
  cases p with
  | done result =>
      cases result with
      | ok a => exact ⟨a, rfl, h⟩
      | error e => cases h
  | act effect rest => cases h

theorem onPart_eq_done {get : τ → σ} {set : σ → τ → τ} {p : Prog ε σ α}
    {result : Except ε α} (h : p.onPart get set = done result) : p = done result := by
  cases p with
  | done result' => exact congrArg done (Prog.done.inj h)
  | act effect rest => cases h

section Concludes

variable {ends : σ → σ → α → Prop} {ends' : σ → σ → β → Prop}

theorem concludes_atomic {call : Call ε σ α}
    (hcall : ∀ s a, (call s).1 = .ok a → ends s (call s).2 a) :
    Concludes ends (atomic call) := by
  intro s
  refine ⟨fun a hdone => hcall s a ?_, trivial⟩
  injection hdone

theorem concludes_of_forall (hall : ∀ s s' a, ends s s' a) (p : Prog ε σ α) :
    Concludes ends p := by
  induction p with
  | done result => trivial
  | act effect rest ih => exact fun s => ⟨fun a _ => hall _ _ a, ih s⟩

theorem Concludes.mono {ends₁ : σ → σ → α → Prop} {p : Prog ε σ α} (hp : Concludes ends p)
    (himp : ∀ s s' a, ends s s' a → ends₁ s s' a) : Concludes ends₁ p := by
  induction p with
  | done result => trivial
  | act effect rest ih =>
      exact fun s => ⟨fun a hdone => himp _ _ _ ((hp s).1 a hdone), ih s (hp s).2⟩

/-- The last request of a sequence is that of its second program, or of its first one if the
second has none. -/
theorem concludes_bind {P : α → Prop} {p : Prog ε σ α} {next : α → Prog ε σ β}
    (hp : Concludes (fun s s' a => ∀ b, next a = done (.ok b) → ends' s s' b) p)
    (hreturns : Respects (fun _ _ => True) P p)
    (hnext : ∀ a, P a → Concludes ends' (next a)) : Concludes ends' (p >>= next) := by
  change Concludes ends' (p.bind next)
  induction p with
  | done result =>
      cases result with
      | ok a => exact hnext a hreturns
      | error e => trivial
  | act effect rest ih =>
      intro s
      refine ⟨fun b hdone => ?_, ih s (hp s).2 (hreturns s).2⟩
      obtain ⟨a, hrest, hlast⟩ := bind_eq_done hdone
      exact (hp s).1 a hrest b hlast

theorem Concludes.onPart {get : τ → σ} {set : σ → τ → τ} {endsPart : τ → τ → α → Prop}
    {p : Prog ε σ α} (hp : Concludes ends p)
    (hlift : ∀ t s' a, ends (get t) s' a → endsPart t (set s' t) a) :
    Concludes endsPart (p.onPart get set) := by
  induction p with
  | done result => trivial
  | act effect rest ih =>
      intro t
      exact ⟨fun a hdone => hlift t _ a ((hp (get t)).1 a (onPart_eq_done hdone)),
        ih (get t) (hp (get t)).2⟩

end Concludes

end Prog

end FastTAK.Effect
