import FastTAK.Base.SnapshotStore
import FastTAK.Proxy.Tokens

/-!
# Concurrent callers of the token store

Any number of calls of `Create`, `Verify`, `DeleteByUsername` and `GetActive`
run against one database, one statement at a time and in any order, while the
clock moves.  `Verify` cleans up expired rows outside its transaction, selects a
row on the snapshot of its transaction and deletes a one-time row inside it; the
commit fails if somebody else wrote to that row.  Any statement may fail.
-/

namespace FastTAK.Proxy

open FastTAK.SnapshotStore

/-! ## Calls in progress -/

/-- The arguments of a `Verify`, the clock reading it took, and the moment it
began. -/
structure Verification where
  username : String
  password : String
  now : ℤ
  began : ℕ
  deriving DecidableEq, Repr

abbrev TokenTable := Table TokenRow ℤ

/-- How far a call has come. -/
inductive TokenCall where
  | createBegun (username tokenPlain : String) (expiresAt : Option ℤ)
      (oneTime : Bool) (createdAt : ℤ)
  | deleteBegun (username : String)
  | deleteDone
  | verifyBegun (v : Verification)
  | verifyCleaned (v : Verification)
  | verifyOpen (v : Verification)
  | verifySelected (v : Verification) (snapshot : TokenTable) (row : TokenRow)
  | verifyConsumed (v : Verification) (snapshot : TokenTable) (row : TokenRow)
  | finished

/-- What happened, as far as it can be observed from outside. -/
inductive TokenEvent where
  | created (row : TokenRow)
  | removed (call : ℕ) (row : TokenRow)
  | deleteReturned (call : ℕ)
  | verifyReturned (call : ℕ) (v : Verification) (accepted : Bool)
  deriving DecidableEq, Repr

/-- The database with its callers.  `moment` counts the steps; it stamps the
events of `history`.  `issued` are the plaintexts generated so far. -/
structure TokenWorld where
  table : TokenTable
  clock : ℤ
  calls : ℕ → Option TokenCall
  issued : List String
  moment : ℕ
  history : List (ℕ × TokenEvent)

/-- An empty database, as the store creates it. -/
def TokenWorld.start (clock : ℤ) : TokenWorld where
  table := .empty
  clock := clock
  calls := fun _ => none
  issued := []
  moment := 0
  history := []

/-! ## Steps -/

/-- The next statement of some caller, or a move of the clock. -/
inductive TokenAction where
  | setClock (now : ℤ)
  | createBegin (call : ℕ) (username : String) (ttlMinutes : ℤ) (oneTime : Bool)
      (tokenPlain : String)
  | createInsert (call : ℕ) (id : ℤ)
  | deleteBegin (call : ℕ) (username : String)
  | deleteRun (call : ℕ)
  | deleteReturn (call : ℕ)
  | getActive (call : ℕ) (username : String)
  | verifyBegin (call : ℕ) (username password : String)
  | verifyClean (call : ℕ) (executed : Bool)
  | verifyOpen (call : ℕ)
  | verifySelect (call : ℕ)
  | verifyConsume (call : ℕ)
  | verifyCommit (call : ℕ)
  | fail (call : ℕ)

section Steps

variable (hash : String → String)

namespace TokenWorld

/-- The call goes on as given. -/
def become (w : TokenWorld) (call : ℕ) (next : TokenCall) : TokenWorld :=
  { w with calls := fun other => if other = call then some next else w.calls other }

/-- Record what happened in this step. -/
def record (w : TokenWorld) (events : List TokenEvent) : TokenWorld :=
  { w with
    moment := w.moment + 1
    history := events.map (w.moment, ·) ++ w.history }

def withTable (w : TokenWorld) (table : TokenTable) : TokenWorld :=
  { w with table := table }

/-- One step.  A call number is used once, a generated token is new, and SQLite
gives a new row an id that no row has. -/
def step (w : TokenWorld) : TokenAction → Option TokenWorld
  | .setClock now => some ({ w with clock := now }.record [])
  | .createBegin call username ttlMinutes oneTime tokenPlain =>
      match w.calls call with
      | some _ => none
      | none =>
          if tokenPlain ∈ w.issued then none
          else
            some (({ w with issued := tokenPlain :: w.issued }.become call
              (.createBegun username tokenPlain (newExpiry w.clock ttlMinutes)
                oneTime w.clock)).record [])
  | .createInsert call id =>
      match w.calls call with
      | some (.createBegun username tokenPlain expiresAt oneTime createdAt) =>
          if w.table.rows.any (·.id == id) then none
          else
            let row : TokenRow :=
              { id, username, tokenHash := hash tokenPlain, tokenPlain,
                expiresAt, oneTime, createdAt }
            some (((w.withTable (w.table.insert TokenRow.id row)).become call
              .finished).record [.created row])
      | _ => none
  | .deleteBegin call username =>
      match w.calls call with
      | some _ => none
      | none => some ((w.become call (.deleteBegun username)).record [])
  | .deleteRun call =>
      match w.calls call with
      | some (.deleteBegun username) =>
          some (((w.withTable (w.table.deleteWhere TokenRow.id
            (·.username == username))).become call .deleteDone).record
              ((w.table.rows.filter (·.username == username)).map
                (.removed call)))
      | _ => none
  | .deleteReturn call =>
      match w.calls call with
      | some .deleteDone =>
          some ((w.become call .finished).record [.deleteReturned call])
      | _ => none
  | .getActive call _ =>
      match w.calls call with
      | some _ => none
      | none => some ((w.become call .finished).record [])
  | .verifyBegin call username password =>
      match w.calls call with
      | some _ => none
      | none => some ((w.become call (.verifyBegun
          ⟨username, password, w.clock, w.moment⟩)).record [])
  | .verifyClean call executed =>
      match w.calls call with
      | some (.verifyBegun v) =>
          let table :=
            if executed then w.table.deleteWhere TokenRow.id (·.isExpired v.now)
            else w.table
          some (((w.withTable table).become call (.verifyCleaned v)).record [])
      | _ => none
  | .verifyOpen call =>
      match w.calls call with
      | some (.verifyCleaned v) =>
          some ((w.become call (.verifyOpen v)).record [])
      | _ => none
  | .verifySelect call =>
      match w.calls call with
      | some (.verifyOpen v) =>
          match w.table.rows.find? (·.fits v.username (hash v.password) v.now) with
          | none => some ((w.become call .finished).record
              [.verifyReturned call v false])
          | some row => some ((w.become call
              (.verifySelected v w.table row)).record [])
      | _ => none
  | .verifyConsume call =>
      match w.calls call with
      | some (.verifySelected v snapshot row) =>
          if row.oneTime then
            some ((w.become call (.verifyConsumed v snapshot row)).record [])
          else none
      | _ => none
  | .verifyCommit call =>
      match w.calls call with
      | some (.verifySelected v _ row) =>
          if row.oneTime then none
          else some ((w.become call .finished).record
            [.verifyReturned call v true])
      | some (.verifyConsumed v snapshot row) =>
          match w.table.commitDelete TokenRow.id row.id snapshot with
          | none => some ((w.become call .finished).record
              [.verifyReturned call v false])
          | some table => some (((w.withTable table).become call
              .finished).record [.verifyReturned call v true])
      | _ => none
  | .fail call =>
      match w.calls call with
      | none | some .finished => none
      | some (.verifyBegun v) | some (.verifyCleaned v) | some (.verifyOpen v)
      | some (.verifySelected v _ _) | some (.verifyConsumed v _ _) =>
          some ((w.become call .finished).record [.verifyReturned call v false])
      | some _ => some ((w.become call .finished).record [])

end TokenWorld

/-- The states that any interleaving reaches from an empty database. -/
inductive TokenReachable : TokenWorld → Prop where
  | start (clock : ℤ) : TokenReachable (.start clock)
  | step {w w' : TokenWorld} (action : TokenAction) (hreach : TokenReachable w)
      (hstep : w.step hash action = some w') : TokenReachable w'

theorem TokenReachable.foldlM {w w' : TokenWorld} (hreach : TokenReachable hash w)
    {actions : List TokenAction}
    (hrun : actions.foldlM (TokenWorld.step hash) w = some w') :
    TokenReachable hash w' := by
  induction actions generalizing w with
  | nil =>
      obtain rfl := Option.some.inj hrun
      exact hreach
  | cons action actions ih =>
      rw [List.foldlM_cons] at hrun
      obtain ⟨next, hstep, hrest⟩ := Option.bind_eq_some_iff.mp hrun
      exact ih (.step action hreach hstep) hrest

end Steps

/-! ## What holds in every reachable state -/

namespace TokenWorld

/-- The row was inserted at some moment. -/
def Created (w : TokenWorld) (row : TokenRow) : Prop :=
  ∃ m, (m, .created row) ∈ w.history

/-- What a `Verify` knows of the row it selected. -/
structure Selected (w : TokenWorld) (v : Verification) (row : TokenRow) : Prop where
  began : v.began ≤ w.moment
  created : w.Created row
  username : row.username = v.username
  password : row.tokenPlain = v.password
  live : row.isLive v.now
  notRemoved : ∀ m d, (m, .removed d row) ∈ w.history → v.began ≤ m

/-- What a call in progress may rely on. -/
def CallOk (w : TokenWorld) : TokenCall → Prop
  | .createBegun _ tokenPlain _ _ _ =>
      tokenPlain ∈ w.issued ∧ ∀ row, w.Created row → row.tokenPlain ≠ tokenPlain
  | .verifyBegun v | .verifyCleaned v | .verifyOpen v => v.began ≤ w.moment
  | .verifySelected v snapshot row =>
      w.Selected v row ∧ row ∈ snapshot.rows ∧
        Table.Since TokenRow.id snapshot w.table
  | .verifyConsumed v snapshot row =>
      w.Selected v row ∧ row ∈ snapshot.rows ∧
        Table.Since TokenRow.id snapshot w.table ∧ row.oneTime
  | _ => True

/-- The invariant of all interleavings. -/
structure Inv (hash : String → String) (w : TokenWorld) : Prop where
  moments : ∀ e ∈ w.history, e.1 < w.moment
  rows : ∀ row ∈ w.table.rows, row.tokenHash = hash row.tokenPlain ∧ w.Created row
  issued : ∀ row, w.Created row → row.tokenPlain ∈ w.issued
  unique : ∀ row row', w.Created row → w.Created row' →
    row.tokenPlain = row'.tokenPlain → row = row'
  removed : ∀ m d row, (m, .removed d row) ∈ w.history →
    row ∉ w.table.rows ∧ w.Created row
  removedBy : ∀ m d row, (m, .removed d row) ∈ w.history →
    w.calls d = some .deleteDone ∨ w.calls d = some .finished
  returned : ∀ m d, (m, .deleteReturned d) ∈ w.history →
    w.calls d = some .finished ∧
      ∀ m' row, (m', .removed d row) ∈ w.history → m' < m
  calls : ∀ c call, w.calls c = some call → w.CallOk call
  pending : ∀ c c' u u' p e e' o o' t t', w.calls c = some (.createBegun u p e o t) →
    w.calls c' = some (.createBegun u' p e' o' t') → c = c'
  verified : ∀ m c v, (m, .verifyReturned c v true) ∈ w.history →
    ∃ row, w.Selected v row ∧ (row.oneTime → row ∉ w.table.rows)
  once : ∀ m c v m' c' v' row, (m, .verifyReturned c v true) ∈ w.history →
    (m', .verifyReturned c' v' true) ∈ w.history → w.Created row → row.oneTime →
      v.password = row.tokenPlain → v'.password = row.tokenPlain →
        m = m' ∧ c = c' ∧ v = v'

theorem inv_start (hash : String → String) (clock : ℤ) :
    Inv hash (.start clock) := by
  constructor
  all_goals simp [start, Table.empty, Created]

/-! ## Time passes -/

/-- The world went on by one step: events were added with the moment of the
step, the table changed by stamped writes. -/
structure Goes (w w' : TokenWorld) (events : List TokenEvent) : Prop where
  moment : w'.moment = w.moment + 1
  history : w'.history = events.map (w.moment, ·) ++ w.history
  table : Table.Since TokenRow.id w.table w'.table
  issued : w.issued ⊆ w'.issued

theorem Goes.mem_history_iff {w w' : TokenWorld} {events : List TokenEvent}
    (hgoes : Goes w w' events) (m : ℕ) (e : TokenEvent) :
    (m, e) ∈ w'.history ↔ (m = w.moment ∧ e ∈ events) ∨ (m, e) ∈ w.history := by
  rw [hgoes.history, List.mem_append, List.mem_map]
  constructor
  · rintro (⟨e', he', heq⟩ | h)
    · obtain ⟨rfl, rfl⟩ := Prod.mk.inj heq
      exact Or.inl ⟨rfl, he'⟩
    · exact Or.inr h
  · rintro (⟨rfl, he⟩ | h)
    · exact Or.inl ⟨e, he, rfl⟩
    · exact Or.inr h

theorem Goes.created_iff {w w' : TokenWorld} {events : List TokenEvent}
    (hgoes : Goes w w' events) (row : TokenRow) :
    w'.Created row ↔ .created row ∈ events ∨ w.Created row := by
  unfold Created
  simp only [hgoes.mem_history_iff]
  constructor
  · rintro ⟨m, ⟨-, h⟩ | h⟩
    · exact Or.inl h
    · exact Or.inr ⟨m, h⟩
  · rintro (h | ⟨m, h⟩)
    · exact ⟨w.moment, Or.inl ⟨rfl, h⟩⟩
    · exact ⟨m, Or.inr h⟩

/-- What a `Verify` knows of its row stays true: removals from now on come
after it began. -/
theorem Goes.selected {w w' : TokenWorld} {events : List TokenEvent}
    (hgoes : Goes w w' events) {v : Verification} {row : TokenRow}
    (hselected : w.Selected v row) : w'.Selected v row where
  began := by
    rw [hgoes.moment]
    exact hselected.began.trans (Nat.le_succ _)
  created := (hgoes.created_iff row).mpr (Or.inr hselected.created)
  username := hselected.username
  password := hselected.password
  live := hselected.live
  notRemoved := fun m d h => by
    rcases (hgoes.mem_history_iff m _).mp h with ⟨rfl, -⟩ | h
    · exact hselected.began
    · exact hselected.notRemoved m d h

theorem Goes.callOk {w w' : TokenWorld} {events : List TokenEvent}
    (hgoes : Goes w w' events) {call : TokenCall} (hok : w.CallOk call)
    (hnew : ∀ row u p e o t, .created row ∈ events →
      call = .createBegun u p e o t → row.tokenPlain ≠ p) : w'.CallOk call := by
  have hmoment : w.moment ≤ w'.moment := by
    rw [hgoes.moment]
    exact Nat.le_succ _
  cases call with
  | createBegun u p e o t =>
      refine ⟨hgoes.issued hok.1, fun row hrow => ?_⟩
      rcases (hgoes.created_iff row).mp hrow with h | h
      · exact hnew row u p e o t h rfl
      · exact hok.2 row h
  | deleteBegun _ => trivial
  | deleteDone => trivial
  | verifyBegun _ => exact Nat.le_trans hok hmoment
  | verifyCleaned _ => exact Nat.le_trans hok hmoment
  | verifyOpen _ => exact Nat.le_trans hok hmoment
  | verifySelected v snapshot row =>
      exact ⟨hgoes.selected hok.1, hok.2.1, hok.2.2.trans hgoes.table⟩
  | verifyConsumed v snapshot row =>
      exact ⟨hgoes.selected hok.1, hok.2.1, hok.2.2.1.trans hgoes.table, hok.2.2.2⟩
  | finished => trivial

/-- What a step of one call may do that inserts no row. -/
structure Moves (w w' : TokenWorld) (c : ℕ) (next : TokenCall)
    (events : List TokenEvent) : Prop where
  goes : Goes w w' events
  rows : ∀ row ∈ w'.table.rows, row ∈ w.table.rows
  others : ∀ c', c' ≠ c → w'.calls c' = w.calls c'
  self : w'.calls c = some next
  ok : w'.CallOk next
  fresh : ∀ c' u u' p e e' o o' t t', c' ≠ c → next = .createBegun u p e o t →
    w.calls c' ≠ some (.createBegun u' p e' o' t')
  unfinished : w.calls c ≠ some .finished ∧
    (w.calls c = some .deleteDone → next = .finished)
  created : ∀ row, .created row ∉ events
  removed : ∀ d row, .removed d row ∈ events →
    d = c ∧ next = .deleteDone ∧ row ∈ w.table.rows ∧ row ∉ w'.table.rows
  returned : ∀ d, .deleteReturned d ∈ events → d = c ∧ next = .finished
  accepted : ∀ d v, .verifyReturned d v true ∈ events →
    events = [.verifyReturned d v true] ∧ ∃ row, w.Selected v row ∧
      (row.oneTime → row ∈ w.table.rows ∧ row ∉ w'.table.rows)

theorem Moves.inv {hash : String → String} {w w' : TokenWorld} {c : ℕ}
    {next : TokenCall} {events : List TokenEvent}
    (hmoves : Moves w w' c next events) (hinv : Inv hash w) : Inv hash w' := by
  have hgoes := hmoves.goes
  have hcreated : ∀ row, w'.Created row ↔ w.Created row := fun row => by
    rw [hgoes.created_iff]
    exact or_iff_right (hmoves.created row)
  refine ⟨?_, ?_, ?_, ?_, ?_, ?_, ?_, ?_, ?_, ?_, ?_⟩
  · -- moments
    rintro ⟨m, e⟩ he
    rw [hgoes.moment]
    rcases (hgoes.mem_history_iff m e).mp he with ⟨rfl, -⟩ | h
    · exact Nat.lt_succ_self _
    · exact Nat.lt_succ_of_lt (hinv.moments _ h)
  · -- rows
    intro row hrow
    rw [hcreated]
    exact hinv.rows row (hmoves.rows row hrow)
  · -- issued
    exact fun row hrow => hgoes.issued (hinv.issued row ((hcreated row).mp hrow))
  · -- unique
    exact fun row row' hrow hrow' =>
      hinv.unique row row' ((hcreated row).mp hrow) ((hcreated row').mp hrow')
  · -- removed
    intro m d row h
    rw [hcreated]
    rcases (hgoes.mem_history_iff m _).mp h with ⟨-, h⟩ | h
    · obtain ⟨-, -, hin, hout⟩ := hmoves.removed d row h
      exact ⟨hout, (hinv.rows row hin).2⟩
    · obtain ⟨hout, hrow⟩ := hinv.removed m d row h
      exact ⟨fun hin => hout (hmoves.rows row hin), hrow⟩
  · -- removedBy
    intro m d row h
    rcases (hgoes.mem_history_iff m _).mp h with ⟨-, h⟩ | h
    · obtain ⟨rfl, rfl, -⟩ := hmoves.removed d row h
      exact Or.inl hmoves.self
    · rcases eq_or_ne d c with rfl | hne
      · rcases hinv.removedBy m d row h with hdone | hfinished
        · rw [hmoves.self, hmoves.unfinished.2 hdone]
          exact Or.inr rfl
        · exact absurd hfinished hmoves.unfinished.1
      · rw [hmoves.others d hne]
        exact hinv.removedBy m d row h
  · -- returned
    intro m d h
    rcases (hgoes.mem_history_iff m _).mp h with ⟨rfl, hnew⟩ | h
    · obtain ⟨rfl, rfl⟩ := hmoves.returned d hnew
      refine ⟨hmoves.self, fun m' row h' => ?_⟩
      rcases (hgoes.mem_history_iff m' _).mp h' with ⟨-, h'⟩ | h'
      · exact absurd (hmoves.removed d row h').2.1 (by simp)
      · exact hinv.moments _ h'
    · obtain ⟨hfinished, hbefore⟩ := hinv.returned m d h
      have hne : d ≠ c := by
        rintro rfl
        exact hmoves.unfinished.1 hfinished
      refine ⟨by rw [hmoves.others d hne, hfinished], fun m' row h' => ?_⟩
      rcases (hgoes.mem_history_iff m' _).mp h' with ⟨-, h'⟩ | h'
      · exact absurd (hmoves.removed d row h').1 hne
      · exact hbefore m' row h'
  · -- calls
    intro c' call hcall
    rcases eq_or_ne c' c with rfl | hne
    · rw [hmoves.self] at hcall
      exact Option.some.inj hcall ▸ hmoves.ok
    · rw [hmoves.others c' hne] at hcall
      exact hgoes.callOk (hinv.calls c' call hcall)
        fun row _ _ _ _ _ h => absurd h (hmoves.created row)
  · -- pending
    intro c₁ c₂ u u' p e e' o o' t t' h₁ h₂
    rcases eq_or_ne c₁ c with rfl | hne₁
    · rcases eq_or_ne c₂ c₁ with rfl | hne₂
      · rfl
      · rw [hmoves.self] at h₁
        rw [hmoves.others c₂ hne₂] at h₂
        exact absurd h₂ (hmoves.fresh _ _ _ _ _ _ _ _ _ _ hne₂ (Option.some.inj h₁))
    · rw [hmoves.others c₁ hne₁] at h₁
      rcases eq_or_ne c₂ c with rfl | hne₂
      · rw [hmoves.self] at h₂
        exact absurd h₁ (hmoves.fresh _ _ _ _ _ _ _ _ _ _ hne₁ (Option.some.inj h₂))
      · rw [hmoves.others c₂ hne₂] at h₂
        exact hinv.pending _ _ _ _ _ _ _ _ _ _ _ h₁ h₂
  · -- verified
    intro m d v h
    rcases (hgoes.mem_history_iff m _).mp h with ⟨-, h⟩ | h
    · obtain ⟨-, row, hselected, hout⟩ := hmoves.accepted d v h
      exact ⟨row, hgoes.selected hselected, fun hone => (hout hone).2⟩
    · obtain ⟨row, hselected, hout⟩ := hinv.verified m d v h
      exact ⟨row, hgoes.selected hselected,
        fun hone hin => hout hone (hmoves.rows row hin)⟩
  · -- once
    intro m d v m' d' v' row h h' hrow hone hp hp'
    rw [hcreated] at hrow
    have hconflict : ∀ m₀ d₀ v₀ d₁ v₁, (m₀, .verifyReturned d₀ v₀ true) ∈ w.history →
        .verifyReturned d₁ v₁ true ∈ events → v₀.password = row.tokenPlain →
          v₁.password = row.tokenPlain → False := by
      intro m₀ d₀ v₀ d₁ v₁ hold hnew hp₀ hp₁
      obtain ⟨-, row₁, hselected₁, hout₁⟩ := hmoves.accepted d₁ v₁ hnew
      obtain ⟨row₀, hselected₀, hout₀⟩ := hinv.verified m₀ d₀ v₀ hold
      obtain rfl := hinv.unique row₁ row hselected₁.created hrow
        (hselected₁.password.trans hp₁)
      obtain rfl := hinv.unique row₀ row₁ hselected₀.created hrow
        (hselected₀.password.trans hp₀)
      exact hout₀ hone (hout₁ hone).1
    rcases (hgoes.mem_history_iff m _).mp h with ⟨rfl, hnew⟩ | hold
    · rcases (hgoes.mem_history_iff m' _).mp h' with ⟨rfl, hnew'⟩ | hold'
      · obtain ⟨honly, -⟩ := hmoves.accepted d v hnew
        rw [honly, List.mem_singleton] at hnew'
        simp only [TokenEvent.verifyReturned.injEq, and_true] at hnew'
        exact ⟨rfl, hnew'.1.symm, hnew'.2.symm⟩
      · exact absurd (hconflict m' d' v' d v hold' hnew hp' hp) id
    · rcases (hgoes.mem_history_iff m' _).mp h' with ⟨rfl, hnew'⟩ | hold'
      · exact absurd (hconflict m d v d' v' hold hnew' hp hp') id
      · exact hinv.once m d v m' d' v' row hold hold' hrow hone hp hp'

/-! ## The steps -/

theorem goes_record {w : TokenWorld} {events : List TokenEvent} {c : ℕ}
    {next : TokenCall} {table : TokenTable}
    (htable : Table.Since TokenRow.id w.table table) :
    Goes w (((w.withTable table).become c next).record events) events :=
  ⟨rfl, rfl, htable, fun _ h => h⟩

/-- The steps that leave the table alone and at most reject a password. -/
theorem moves_of_become {w : TokenWorld} {c : ℕ} {next : TokenCall}
    {events : List TokenEvent}
    (hunfinished : w.calls c ≠ some .finished ∧
      (w.calls c = some .deleteDone → next = .finished))
    (hok : w.CallOk next) (hnext : ∀ u p e o t, next ≠ .createBegun u p e o t)
    (hevents : ∀ event ∈ events, ∃ d v, event = .verifyReturned d v false) :
    Moves w ((w.become c next).record events) c next events := by
  have hgoes : Goes w ((w.become c next).record events) events :=
    ⟨rfl, rfl, Table.Since.refl _ _, fun _ h => h⟩
  exact {
    goes := hgoes
    rows := fun _ h => h
    others := fun c' hne => if_neg hne
    self := if_pos rfl
    ok := hgoes.callOk hok fun row u p e o t _ h => absurd h (hnext u p e o t)
    fresh := fun _ u _ p e _ o _ t _ _ h => absurd h (hnext u p e o t)
    unfinished := hunfinished
    created := fun row h => by
      obtain ⟨d, v, h⟩ := hevents _ h
      cases h
    removed := fun d row h => by
      obtain ⟨d, v, h⟩ := hevents _ h
      cases h
    returned := fun d h => by
      obtain ⟨d, v, h⟩ := hevents _ h
      cases h
    accepted := fun d v h => by
      obtain ⟨d, v, h⟩ := hevents _ h
      cases h }

theorem inv_setClock {hash : String → String} {w : TokenWorld} (now : ℤ)
    (hinv : Inv hash w) : Inv hash ({ w with clock := now }.record []) := by
  have hgoes : Goes w ({ w with clock := now }.record []) [] :=
    ⟨rfl, rfl, Table.Since.refl _ _, fun _ h => h⟩
  exact {
    moments := fun e h => Nat.lt_succ_of_lt (hinv.moments e h)
    rows := hinv.rows
    issued := hinv.issued
    unique := hinv.unique
    removed := hinv.removed
    removedBy := hinv.removedBy
    returned := hinv.returned
    calls := fun c call h => hgoes.callOk (hinv.calls c call h) (by simp)
    pending := hinv.pending
    verified := fun m c v h => by
      obtain ⟨row, hselected, hout⟩ := hinv.verified m c v h
      exact ⟨row, hgoes.selected hselected, hout⟩
    once := hinv.once }

theorem moves_createBegin {hash : String → String} {w : TokenWorld} {c : ℕ}
    {u p : String} {e : Option ℤ} {o : Bool} {t : ℤ} (hinv : Inv hash w)
    (hidle : w.calls c = none) (hfresh : p ∉ w.issued) :
    Moves w (({ w with issued := p :: w.issued }.become c
      (.createBegun u p e o t)).record []) c (.createBegun u p e o t) [] where
  goes := ⟨rfl, rfl, Table.Since.refl _ _, List.subset_cons_self _ _⟩
  rows := fun _ h => h
  others := fun c' hne => if_neg hne
  self := if_pos rfl
  ok := by
    refine ⟨List.mem_cons_self, fun row hrow hp => hfresh ?_⟩
    exact hp ▸ hinv.issued row hrow
  fresh := fun c' u₁ u' p₁ e₁ e' o₁ o' t₁ t' _ hnext hcall => by
    cases hnext
    exact hfresh (hinv.calls c' _ hcall).1
  unfinished := by simp [hidle]
  created := by simp
  removed := by simp
  returned := by simp
  accepted := by simp

theorem moves_deleteRun {w : TokenWorld} {c : ℕ} {username : String}
    (hcall : w.calls c = some (.deleteBegun username)) :
    Moves w (((w.withTable (w.table.deleteWhere TokenRow.id
        (·.username == username))).become c .deleteDone).record
          ((w.table.rows.filter (·.username == username)).map (.removed c)))
      c .deleteDone
      ((w.table.rows.filter (·.username == username)).map (.removed c)) where
  goes := goes_record (Table.since_deleteWhere _ _ _)
  rows := fun row h => ((Table.mem_rows_deleteWhere _ _ row _).mp h).1
  others := fun c' hne => if_neg hne
  self := if_pos rfl
  ok := trivial
  fresh := by simp
  unfinished := by simp [hcall]
  created := by simp
  removed := fun d row h => by
    obtain ⟨row', hrow', heq⟩ := List.mem_map.mp h
    obtain ⟨rfl, rfl⟩ := TokenEvent.removed.inj heq
    obtain ⟨hin, huser⟩ := List.mem_filter.mp hrow'
    refine ⟨rfl, rfl, hin, fun hout => ?_⟩
    rw [((Table.mem_rows_deleteWhere _ _ row' _).mp hout).2] at huser
    cases huser
  returned := by simp
  accepted := by simp

theorem moves_deleteReturn {w : TokenWorld} {c : ℕ}
    (hcall : w.calls c = some .deleteDone) :
    Moves w ((w.become c .finished).record [.deleteReturned c]) c .finished
      [.deleteReturned c] where
  goes := ⟨rfl, rfl, Table.Since.refl _ _, fun _ h => h⟩
  rows := fun _ h => h
  others := fun c' hne => if_neg hne
  self := if_pos rfl
  ok := trivial
  fresh := by simp
  unfinished := by simp [hcall]
  created := by simp
  removed := by simp
  returned := by simp
  accepted := by simp

theorem moves_verifyClean {hash : String → String} {w : TokenWorld} {c : ℕ}
    {v : Verification} (hinv : Inv hash w)
    (hcall : w.calls c = some (.verifyBegun v)) :
    Moves w (((w.withTable (w.table.deleteWhere TokenRow.id
      (·.isExpired v.now))).become c (.verifyCleaned v)).record []) c
      (.verifyCleaned v) [] where
  goes := goes_record (Table.since_deleteWhere _ _ _)
  rows := fun row h => ((Table.mem_rows_deleteWhere _ _ row _).mp h).1
  others := fun c' hne => if_neg hne
  self := if_pos rfl
  ok := (hinv.calls c _ hcall).trans (Nat.le_succ _)
  fresh := by simp
  unfinished := by simp [hcall]
  created := by simp
  removed := by simp
  returned := by simp
  accepted := by simp

/-- A row the query finds is the token with that plaintext: hashes of different
plaintexts differ. -/
theorem selected_of_find {hash : String → String}
    (hinjective : Function.Injective hash) {w : TokenWorld} (hinv : Inv hash w)
    {v : Verification} (hbegan : v.began ≤ w.moment) {row : TokenRow}
    (hfind : w.table.rows.find? (·.fits v.username (hash v.password) v.now) =
      some row) : w.Selected v row ∧ row ∈ w.table.rows := by
  have hrow := List.mem_of_find?_eq_some hfind
  obtain ⟨huser, hhash, hlive⟩ := TokenRow.fits_iff.mp (List.find?_some hfind)
  obtain ⟨hplain, hcreated⟩ := hinv.rows row hrow
  refine ⟨{
    began := hbegan
    created := hcreated
    username := huser
    password := hinjective (hplain.symm.trans hhash)
    live := hlive
    notRemoved := fun m d h => absurd hrow (hinv.removed m d row h).1 }, hrow⟩

theorem moves_commit_reusable {hash : String → String} {w : TokenWorld} {c : ℕ}
    {v : Verification} {snapshot : TokenTable} {row : TokenRow}
    (hinv : Inv hash w)
    (hcall : w.calls c = some (.verifySelected v snapshot row))
    (hreusable : ¬ row.oneTime) :
    Moves w ((w.become c .finished).record [.verifyReturned c v true]) c
      .finished [.verifyReturned c v true] where
  goes := ⟨rfl, rfl, Table.Since.refl _ _, fun _ h => h⟩
  rows := fun _ h => h
  others := fun c' hne => if_neg hne
  self := if_pos rfl
  ok := trivial
  fresh := by simp
  unfinished := by simp [hcall]
  created := by simp
  removed := by simp
  returned := by simp
  accepted := fun d v' h => by
    obtain ⟨rfl, rfl, -⟩ := TokenEvent.verifyReturned.inj (List.mem_singleton.mp h)
    exact ⟨rfl, row, (hinv.calls _ _ hcall).1, fun hone => absurd hone hreusable⟩

/-- The commit of a one-time token goes through only if its row is still there,
and takes it out. -/
theorem moves_commit_oneTime {hash : String → String} {w : TokenWorld} {c : ℕ}
    {v : Verification} {snapshot table : TokenTable} {row : TokenRow}
    (hinv : Inv hash w)
    (hcall : w.calls c = some (.verifyConsumed v snapshot row))
    (hcommit : w.table.commitDelete TokenRow.id row.id snapshot = some table) :
    Moves w (((w.withTable table).become c .finished).record
      [.verifyReturned c v true]) c .finished [.verifyReturned c v true] := by
  obtain ⟨hselected, hsnapshot, hsince, -⟩ := hinv.calls _ _ hcall
  obtain ⟨rfl, hkept⟩ := Table.commitDelete_eq_some hsince hcommit
  exact {
    goes := goes_record (Table.since_deleteWhere _ _ _)
    rows := fun row h => ((Table.mem_rows_deleteWhere _ _ row _).mp h).1
    others := fun c' hne => if_neg hne
    self := if_pos rfl
    ok := trivial
    fresh := by simp
    unfinished := by simp [hcall]
    created := by simp
    removed := by simp
    returned := by simp
    accepted := fun d v' h => by
      obtain ⟨rfl, rfl, -⟩ :=
        TokenEvent.verifyReturned.inj (List.mem_singleton.mp h)
      refine ⟨rfl, row, hselected, fun _ => ⟨hkept row hsnapshot rfl, fun hin => ?_⟩⟩
      have hother := ((Table.mem_rows_deleteWhere _ _ row _).mp hin).2
      simp at hother }

theorem inv_createInsert {hash : String → String} {w : TokenWorld} {c : ℕ}
    {u p : String} {e : Option ℤ} {o : Bool} {t id : ℤ} (hinv : Inv hash w)
    (hcall : w.calls c = some (.createBegun u p e o t)) :
    let row : TokenRow := ⟨id, u, hash p, p, e, o, t⟩
    Inv hash (((w.withTable (w.table.insert TokenRow.id row)).become c
      .finished).record [.created row]) := by
  intro row
  have hgoes : Goes w (((w.withTable (w.table.insert TokenRow.id row)).become c
      .finished).record [.created row]) [.created row] :=
    goes_record (Table.since_insert _ _ _)
  obtain ⟨hissued, hnew⟩ := hinv.calls c _ hcall
  have hmem : ∀ (m : ℕ) (event : TokenEvent), (∀ r, event ≠ .created r) →
      ((m, event) ∈ (((w.withTable (w.table.insert TokenRow.id row)).become c
        .finished).record [.created row]).history ↔ (m, event) ∈ w.history) := by
    intro m event hevent
    rw [hgoes.mem_history_iff]
    refine or_iff_right fun h => hevent row (List.mem_singleton.mp h.2)
  have hcreated : ∀ r, (((w.withTable (w.table.insert TokenRow.id row)).become c
      .finished).record [.created row]).Created r ↔ r = row ∨ w.Created r := by
    intro r
    rw [hgoes.created_iff, List.mem_singleton, TokenEvent.created.injEq]
  have hrows : ∀ r, r ∈ (w.table.insert TokenRow.id row).rows ↔
      r ∈ w.table.rows ∨ r = row := fun r => Table.mem_rows_insert _ _ _ _
  have hdifferent : ∀ r, w.Created r → r ≠ row := fun r hr heq =>
    hnew r hr (by rw [heq])
  refine ⟨?_, ?_, ?_, ?_, ?_, ?_, ?_, ?_, ?_, ?_, ?_⟩
  · -- moments
    rintro ⟨m, event⟩ h
    rcases (hgoes.mem_history_iff m event).mp h with ⟨rfl, -⟩ | h
    · exact Nat.lt_succ_self _
    · exact Nat.lt_succ_of_lt (hinv.moments _ h)
  · -- rows
    intro r hr
    rw [hcreated]
    rcases (hrows r).mp hr with hr | rfl
    · exact ⟨(hinv.rows r hr).1, Or.inr (hinv.rows r hr).2⟩
    · exact ⟨rfl, Or.inl rfl⟩
  · -- issued
    intro r hr
    rcases (hcreated r).mp hr with rfl | hr
    · exact hissued
    · exact hinv.issued r hr
  · -- unique
    intro r r' hr hr' hplain
    rcases (hcreated r).mp hr with rfl | hr
    · rcases (hcreated r').mp hr' with rfl | hr'
      · rfl
      · exact absurd hplain.symm (hnew r' hr')
    · rcases (hcreated r').mp hr' with rfl | hr'
      · exact absurd hplain (hnew r hr)
      · exact hinv.unique r r' hr hr' hplain
  · -- removed
    intro m d r h
    rw [hmem m _ (by simp)] at h
    obtain ⟨hout, hr⟩ := hinv.removed m d r h
    refine ⟨fun hin => ?_, (hcreated r).mpr (Or.inr hr)⟩
    exact ((hrows r).mp hin).elim hout (hdifferent r hr)
  · -- removedBy
    intro m d r h
    rw [hmem m _ (by simp)] at h
    rcases eq_or_ne d c with rfl | hne
    · exact Or.inr (if_pos rfl)
    · rcases hinv.removedBy m d r h with h | h
      · exact Or.inl ((if_neg hne).trans h)
      · exact Or.inr ((if_neg hne).trans h)
  · -- returned
    intro m d h
    rw [hmem m _ (by simp)] at h
    obtain ⟨hfinished, hbefore⟩ := hinv.returned m d h
    have hne : d ≠ c := by
      rintro rfl
      rw [hcall] at hfinished
      cases hfinished
    refine ⟨(if_neg hne).trans hfinished, fun m' r h' => ?_⟩
    rw [hmem m' _ (by simp)] at h'
    exact hbefore m' r h'
  · -- calls
    intro c' call hcall'
    rcases eq_or_ne c' c with rfl | hne
    · obtain rfl : TokenCall.finished = call := Option.some.inj
        ((if_pos rfl).symm.trans hcall')
      trivial
    · have hold : w.calls c' = some call := (if_neg hne).symm.trans hcall'
      refine hgoes.callOk (hinv.calls c' call hold) ?_
      rintro r u' p' e' o' t' hr rfl rfl
      obtain rfl := TokenEvent.created.inj (List.mem_singleton.mp hr)
      exact hne (hinv.pending _ _ _ _ _ _ _ _ _ _ _ hold hcall)
  · -- pending
    intro c₁ c₂ u₁ u₂ p' e₁ e₂ o₁ o₂ t₁ t₂ h₁ h₂
    have hne : ∀ c' u' e' o' t', (((w.withTable (w.table.insert TokenRow.id
        row)).become c .finished).record [.created row]).calls c' =
          some (.createBegun u' p' e' o' t') → w.calls c' =
            some (.createBegun u' p' e' o' t') := by
      intro c' u' e' o' t' h
      rcases eq_or_ne c' c with rfl | hne
      · exact absurd ((if_pos rfl).symm.trans h) (by simp)
      · exact (if_neg hne).symm.trans h
    exact hinv.pending _ _ _ _ _ _ _ _ _ _ _ (hne _ _ _ _ _ h₁) (hne _ _ _ _ _ h₂)
  · -- verified
    intro m d v h
    rw [hmem m _ (by simp)] at h
    obtain ⟨r, hselected, hout⟩ := hinv.verified m d v h
    refine ⟨r, hgoes.selected hselected, fun hone hin => ?_⟩
    exact ((hrows r).mp hin).elim (hout hone) (hdifferent r hselected.created)
  · -- once
    intro m d v m' d' v' r h h' hr hone hp hp'
    rw [hmem m _ (by simp)] at h
    rw [hmem m' _ (by simp)] at h'
    rcases (hcreated r).mp hr with rfl | hr
    · obtain ⟨r₀, hselected, -⟩ := hinv.verified m d v h
      exact absurd (hselected.password.trans hp) (hnew r₀ hselected.created)
    · exact hinv.once m d v m' d' v' r h h' hr hone hp hp'

theorem step_inv {hash : String → String} (hinjective : Function.Injective hash)
    {w w' : TokenWorld} {action : TokenAction} (hinv : Inv hash w)
    (hstep : w.step hash action = some w') : Inv hash w' := by
  have hfinished : w.CallOk .finished := trivial
  cases action with
  | setClock now =>
      obtain rfl := Option.some.inj hstep
      exact inv_setClock now hinv
  | createBegin c u ttl o p =>
      simp only [step] at hstep
      split at hstep
      · cases hstep
      · next hidle =>
          split_ifs at hstep with hfresh
          obtain rfl := Option.some.inj hstep
          exact (moves_createBegin hinv hidle hfresh).inv hinv
  | createInsert c id =>
      simp only [step] at hstep
      split at hstep
      · next hcall =>
          split_ifs at hstep
          obtain rfl := Option.some.inj hstep
          exact inv_createInsert hinv hcall
      · cases hstep
  | deleteBegin c u =>
      simp only [step] at hstep
      split at hstep
      · cases hstep
      · next hidle =>
          obtain rfl := Option.some.inj hstep
          have hok : w.CallOk (.deleteBegun u) := trivial
          exact (moves_of_become (by simp [hidle]) hok (by simp) (by simp)).inv hinv
  | deleteRun c =>
      simp only [step] at hstep
      split at hstep
      · next hcall =>
          obtain rfl := Option.some.inj hstep
          exact (moves_deleteRun hcall).inv hinv
      · cases hstep
  | deleteReturn c =>
      simp only [step] at hstep
      split at hstep
      · next hcall =>
          obtain rfl := Option.some.inj hstep
          exact (moves_deleteReturn hcall).inv hinv
      · cases hstep
  | getActive c u =>
      simp only [step] at hstep
      split at hstep
      · cases hstep
      · next hidle =>
          obtain rfl := Option.some.inj hstep
          exact (moves_of_become (by simp [hidle]) hfinished (by simp)
            (by simp)).inv hinv
  | verifyBegin c u p =>
      simp only [step] at hstep
      split at hstep
      · cases hstep
      · next hidle =>
          obtain rfl := Option.some.inj hstep
          have hok : w.CallOk (.verifyBegun ⟨u, p, w.clock, w.moment⟩) :=
            le_refl w.moment
          exact (moves_of_become (by simp [hidle]) hok (by simp) (by simp)).inv hinv
  | verifyClean c executed =>
      simp only [step] at hstep
      split at hstep
      · next v hcall =>
          obtain rfl := Option.some.inj hstep
          cases executed with
          | true => exact (moves_verifyClean hinv hcall).inv hinv
          | false =>
              have hok : w.CallOk (.verifyCleaned v) :=
                hinv.calls c (.verifyBegun v) hcall
              exact (moves_of_become (by simp [hcall]) hok (by simp)
                (by simp)).inv hinv
      · cases hstep
  | verifyOpen c =>
      simp only [step] at hstep
      split at hstep
      · next v hcall =>
          obtain rfl := Option.some.inj hstep
          have hok : w.CallOk (.verifyOpen v) :=
            hinv.calls c (.verifyCleaned v) hcall
          exact (moves_of_become (by simp [hcall]) hok (by simp) (by simp)).inv hinv
      · cases hstep
  | verifySelect c =>
      simp only [step] at hstep
      split at hstep
      · next v hcall =>
          split at hstep
          · obtain rfl := Option.some.inj hstep
            exact (moves_of_become (by simp [hcall]) hfinished (by simp)
              (by simp)).inv hinv
          · next row hfind =>
              obtain rfl := Option.some.inj hstep
              obtain ⟨hselected, hrow⟩ := selected_of_find hinjective hinv
                (hinv.calls c _ hcall) hfind
              have hok : w.CallOk (.verifySelected v w.table row) :=
                ⟨hselected, hrow, Table.Since.refl _ _⟩
              exact (moves_of_become (by simp [hcall]) hok (by simp)
                (by simp)).inv hinv
      · cases hstep
  | verifyConsume c =>
      simp only [step] at hstep
      split at hstep
      · next v snapshot row hcall =>
          split_ifs at hstep with hone
          obtain rfl := Option.some.inj hstep
          obtain ⟨hselected, hrow, hsince⟩ := hinv.calls c _ hcall
          have hok : w.CallOk (.verifyConsumed v snapshot row) :=
            ⟨hselected, hrow, hsince, hone⟩
          exact (moves_of_become (by simp [hcall]) hok (by simp) (by simp)).inv hinv
      · cases hstep
  | verifyCommit c =>
      simp only [step] at hstep
      split at hstep
      · next hcall =>
          split_ifs at hstep with hone
          obtain rfl := Option.some.inj hstep
          exact (moves_commit_reusable hinv hcall hone).inv hinv
      · next hcall =>
          split at hstep
          · obtain rfl := Option.some.inj hstep
            exact (moves_of_become (by simp [hcall]) hfinished (by simp)
              (by simp)).inv hinv
          · next hcommit =>
              obtain rfl := Option.some.inj hstep
              exact (moves_commit_oneTime hinv hcall hcommit).inv hinv
      · cases hstep
  | fail c =>
      have hrun : ∀ events : List TokenEvent, w.calls c ≠ some .finished →
          (∀ event ∈ events, ∃ d v, event = .verifyReturned d v false) →
          Inv hash ((w.become c .finished).record events) :=
        fun events hcall hevents =>
          (moves_of_become ⟨hcall, fun _ => rfl⟩ hfinished (by simp) hevents).inv hinv
      simp only [step] at hstep
      split at hstep
      all_goals first
        | cases hstep
          done
        | obtain rfl := Option.some.inj hstep
          exact hrun _ (by simp_all) (by simp)

theorem reachable_inv {hash : String → String}
    (hinjective : Function.Injective hash) {w : TokenWorld}
    (hreach : TokenReachable hash w) : Inv hash w := by
  induction hreach with
  | start clock => exact inv_start hash clock
  | step action _ hstep ih => exact step_inv hinjective ih hstep

end TokenWorld

/-! ## Token lifecycle -/

/-- Over every interleaving: a `Verify` that returned true was given the
plaintext of a token created before for exactly its username, not expired at the
clock reading it took, and not removed by a `DeleteByUsername` that had returned
when it began; and of a one-time token at most one `Verify` returned true. -/
theorem token_lifecycle {hash : String → String}
    (hinjective : Function.Injective hash) {w : TokenWorld}
    (hreach : TokenReachable hash w) :
    (∀ m c v, (m, .verifyReturned c v true) ∈ w.history → ∃ row,
      (∃ m', (m', .created row) ∈ w.history) ∧ row.username = v.username ∧
        row.tokenPlain = v.password ∧ row.isLive v.now ∧
        ∀ m₁ m₂ d, (m₁, .removed d row) ∈ w.history →
          (m₂, .deleteReturned d) ∈ w.history → ¬ m₂ < v.began) ∧
    (∀ m c v m' c' v' row, (m, .verifyReturned c v true) ∈ w.history →
      (m', .verifyReturned c' v' true) ∈ w.history → w.Created row →
        row.oneTime → v.password = row.tokenPlain →
          v'.password = row.tokenPlain → m = m' ∧ c = c' ∧ v = v') := by
  have hinv := TokenWorld.reachable_inv hinjective hreach
  refine ⟨fun m c v h => ?_, hinv.once⟩
  obtain ⟨row, hselected, -⟩ := hinv.verified m c v h
  refine ⟨row, hselected.created, hselected.username, hselected.password,
    hselected.live, fun m₁ m₂ d hremoved hreturned hbefore => ?_⟩
  have hbegan := hselected.notRemoved m₁ d hremoved
  have horder := (hinv.returned m₂ d hreturned).2 m₁ row hremoved
  omega

/-- The rule at a run in which a one-time token is verified while the tokens of
somebody else are removed. -/
theorem token_lifecycle_one_time : ∃ (w : TokenWorld) (row : TokenRow),
    TokenReachable id w ∧
    (11, .verifyReturned 2 ⟨"alice", "t", 60, 4⟩ true) ∈ w.history ∧
    row.username = "alice" ∧ row.tokenPlain = "t" ∧ row.isLive 60 := by
  let actions : List TokenAction :=
    [.createBegin 0 "alice" 15 true "t", .createInsert 0 1, .deleteBegin 1 "bob",
      .setClock 60, .verifyBegin 2 "alice" "t", .verifyClean 2 true,
      .verifyOpen 2, .verifySelect 2, .deleteRun 1, .verifyConsume 2,
      .deleteReturn 1, .verifyCommit 2]
  have hevent : (actions.foldlM (TokenWorld.step id) (.start 0)).any fun w =>
      decide ((11, .verifyReturned 2 ⟨"alice", "t", 60, 4⟩ true) ∈ w.history) := by
    decide +kernel
  obtain ⟨w, hrun, haccepted⟩ := (Option.any_eq_true _ _).mp hevent
  rw [decide_eq_true_iff] at haccepted
  have hreach : TokenReachable id w := (TokenReachable.start 0).foldlM id hrun
  obtain ⟨row, -, husername, hplain, hlive, -⟩ :=
    (token_lifecycle Function.injective_id hreach).1 _ _ _ haccepted
  exact ⟨w, row, hreach, haccepted, husername, hplain, hlive⟩

end FastTAK.Proxy
