import FastTAK.Base.Pool
import FastTAK.Identity.ClientSpec
import FastTAK.Identity.Sequential

/-!
# Lost updates

`update_user` and `mark_certs_revoked` read the attributes of a user and write all
of them back, while other threads write too.  This file watches any number of such
operations interleave, and shows that an operation reverts an attribute only where
it has changed between its read and its write.
-/

namespace FastTAK.Identity

open FastTAK.Effect FastTAK.Effect.Prog FastTAK.Api

variable {settings : Settings} {α : Type}

/-! ## Attributes by name -/

inductive AttributeName where
  | expires
  | certsRevoked
  | isActive
  | userType
  deriving DecidableEq, Repr

/-- The text of an attribute, as it is sent. -/
def Attributes.value (attrs : Attributes) : AttributeName → Option String
  | .expires => attrs.expires.map toString
  | .certsRevoked => attrs.certsRevoked.map boolText
  | .isActive => attrs.isActive.map boolText
  | .userType => attrs.userType

theorem value_over (attrs existing : Attributes) (name : AttributeName) :
    (attrs.over existing).value name = (attrs.value name).or (existing.value name) := by
  cases name with
  | expires => exact Option.map_or
  | certsRevoked => exact Option.map_or
  | isActive => exact Option.map_or
  | userType => rfl

theorem nodup_cleared (update : AttributesUpdate) : (update.cleared.map Prod.fst).Nodup := by
  unfold AttributesUpdate.cleared
  split_ifs
  · simp
  · simp
  · simp
  · simp

/-- Attributes that are cleared are gone, the others as they were. -/
theorem parseAttributes_insert_cleared (stored : Stored) (update : AttributesUpdate) :
    parseAttributes (insertAttributes stored update.cleared) =
      { parseAttributes stored with
        expires := if update.expires = some none then none
          else (parseAttributes stored).expires
        certsRevoked := if update.certsRevoked = some none then none
          else (parseAttributes stored).certsRevoked } := by
  have hnodup := nodup_cleared update
  have hother : ∀ name, name ∉ update.cleared.map Prod.fst →
      firstValue (insertAttributes stored update.cleared) name = firstValue stored name :=
    fun name h => firstValue_insertAttributes_of_notMem stored h
  have hgone : ∀ name, (name, []) ∈ update.cleared →
      firstValue (insertAttributes stored update.cleared) name = none :=
    fun name h => firstValue_insertAttributes_of_mem stored hnodup h
  simp only [parseAttributes, Attributes.mk.injEq]
  refine ⟨?_, ?_, ?_, ?_⟩
  · split_ifs with hcleared
    · rw [hgone "fastak_expires" (by simp [AttributesUpdate.cleared, hcleared])]
      rfl
    · rw [hother "fastak_expires" (by
        unfold AttributesUpdate.cleared
        rw [if_neg hcleared]
        split_ifs <;> simp)]
  · split_ifs with hcleared
    · rw [hgone "fastak_certs_revoked" (by simp [AttributesUpdate.cleared, hcleared])]
      rfl
    · rw [hother "fastak_certs_revoked" (by
        unfold AttributesUpdate.cleared
        rw [if_neg hcleared]
        split_ifs <;> simp)]
  · rw [hother "is_active" (by
      unfold AttributesUpdate.cleared
      split_ifs <;> simp)]
  · rw [hother "fastak_user_type" (by
      unfold AttributesUpdate.cleared
      split_ifs <;> simp)]

/-! ## Operations -/

/-- The operations that change the attributes of a user. -/
inductive AttributeOp where
  | updateUser (client : Client) (userId : ℤ) (changes : UserChanges)
  | deactivateUser (client : Client) (userId : ℤ)
  | markCertsRevoked (client : Client) (userId : ℤ)

def AttributeOp.program (settings : Settings) : AttributeOp → IdProg settings Unit
  | updateUser client userId changes => do
      let _ ← Identity.updateUser client userId changes
      return ()
  | deactivateUser client userId => Identity.deactivateUser client userId
  | markCertsRevoked client userId => Identity.markCertsRevoked client userId

/-- The operation is asked to change the attribute. -/
def AttributeOp.asked : AttributeOp → AttributeName → Bool
  | updateUser _ _ changes, .expires => changes.ttlHours.isSome
  | updateUser _ _ changes, .certsRevoked =>
      changes.ttlHours.isSome || changes.isActive == some true
  | updateUser _ _ changes, .isActive => changes.isActive.isSome
  | updateUser _ _ _, .userType => false
  | deactivateUser _ _, name => name = .isActive
  | markCertsRevoked _ _, name => name = .certsRevoked

/-- The operation writes back what it has read. -/
def AttributeOp.merges : AttributeOp → Bool
  | updateUser .. | markCertsRevoked .. => true
  | deactivateUser .. => false

/-- Apart from the attributes asked for, the texts that are sent are those of `existing`. -/
def WritesBack (asked : AttributeName → Bool) (existing : Attributes)
    (inserted : List (String × List String)) : Prop :=
  ∀ stored name, asked name = false →
    (parseAttributes (insertAttributes stored inserted)).value name =
      (existing.value name).or ((parseAttributes stored).value name)

theorem writesBack_nil (asked : AttributeName → Bool) :
    WritesBack asked Attributes.none [] := by
  intro stored name _
  cases name <;> rfl

theorem writesBack_build {asked : AttributeName → Bool} {existing sent : Attributes}
    (hsent : ∀ name, asked name = false → sent.value name = existing.value name) :
    WritesBack asked existing (buildCustomAttributes sent) := by
  intro stored name hname
  rw [parseAttributes_insert_build, value_over, hsent name hname]

/-- An update writes back what it is not asked to change. -/
theorem writesBack_merge (client : Client) (userId : ℤ) (changes : UserChanges)
    (expires : Option ℤ) (existing : Attributes) :
    WritesBack (AttributeOp.updateUser client userId changes).asked existing
      (buildCustomAttributes (existing.merge (attributesUpdate changes expires)) ++
        (attributesUpdate changes expires).cleared) := by
  intro stored name hname
  rw [insertAttributes_append, parseAttributes_insert_cleared, parseAttributes_insert_build]
  obtain ⟨newName, isActive, ttlHours⟩ := changes
  cases name with
  | expires =>
      obtain rfl : ttlHours = none := by simpa [AttributeOp.asked] using hname
      exact Option.map_or
  | certsRevoked =>
      obtain ⟨rfl, hactive⟩ : ttlHours = none ∧ isActive ≠ some true := by
        simpa [AttributeOp.asked] using hname
      have hnone : (attributesUpdate ⟨newName, isActive, none⟩ expires).certsRevoked = none := by
        rcases isActive with _ | _ | _
        · rfl
        · rfl
        · exact absurd rfl hactive
      simp only [hnone, Attributes.merge, Attributes.over, Attributes.value]
      exact Option.map_or
  | isActive =>
      obtain rfl : isActive = none := by simpa [AttributeOp.asked] using hname
      exact Option.map_or
  | userType => rfl

/-! ## Memory -/

/-- What is remembered of a run: for each attribute the text written by the last operation
that was asked to change it, and for each operation what its last answered request found. -/
structure Memory where
  lastWritten : AttributeName → Option String
  found : ℕ → Attributes

/-- A request of operation `i`. -/
def remember (username : String) (i : ℕ) (op : AttributeOp) (s s' : IdentityState settings)
    (memory : Memory) : Memory :=
  match s.directory.attributesOf username, s'.directory.attributesOf username with
  | some before, some after =>
      if after = before then
        if nextVerdict s.lldap = .runs then
          { memory with found := Function.update memory.found i before }
        else memory
      else
        { memory with
          lastWritten := fun name =>
            if op.asked name then after.value name else memory.lastWritten name }
  | _, _ => memory

theorem remember_found_of_ne {username : String} {i j : ℕ} (hne : j ≠ i) (op : AttributeOp)
    (s s' : IdentityState settings) (memory : Memory) :
    (remember username i op s s' memory).found j = memory.found j := by
  unfold remember
  split
  · split_ifs
    · exact Function.update_of_ne hne _ _
    · rfl
    · rfl
  · rfl

/-- A request that nothing answers is nothing to remember for its operation. -/
theorem remember_found_of_lost {username : String} {i : ℕ} {op : AttributeOp}
    {s s' : IdentityState settings} {memory : Memory} (hlost : nextVerdict s.lldap ≠ .runs) :
    (remember username i op s s' memory).found i = memory.found i := by
  unfold remember
  split
  · rw [if_neg hlost]
    split_ifs
    · rfl
    · rfl
  · rfl

/-- An attempt that asks for another one was not answered. -/
theorem runs_of_answered {request : Directory → Directory.Reply α × Directory}
    {s s' : IdentityState settings} (hattempt : graphqlAttempt request s = (.ok none, s')) :
    nextVerdict s.lldap ≠ .runs := by
  intro hruns
  simp [graphqlAttempt, hruns] at hattempt

/-- What an answered request that changes nothing has found is remembered. -/
theorem remember_found_of_answered {username : String} {i : ℕ} {op : AttributeOp}
    {s s' : IdentityState settings} {memory : Memory} {before : Attributes}
    (hruns : nextVerdict s.lldap = .runs) (hsame : s'.directory = s.directory)
    (hbefore : s.directory.attributesOf username = some before) :
    (remember username i op s s' memory).found i = before := by
  simp [remember, hsame, hbefore, hruns]

/-- An attempt that was answered. -/
theorem answered_attempt {request : Directory → Directory.Reply α × Directory}
    {s s' : IdentityState settings} {reply : Directory.Reply α}
    (hattempt : graphqlAttempt request s = (.ok (some reply), s')) :
    nextVerdict s.lldap = .runs := by
  unfold graphqlAttempt at hattempt
  cases hverdict : nextVerdict s.lldap with
  | runs => rfl
  | fails applied => simp [hverdict] at hattempt
  | raises applied => simp [hverdict] at hattempt

/-- The state of the clients with the memory. -/
abbrev Watched (settings : Settings) : Type := IdentityState settings × Memory

/-- What an operation that writes back has found and is not asked to change is still there. -/
def StillThere (op : AttributeOp) (found now : Attributes) : Prop :=
  op.merges → ∀ name, op.asked name = false →
    found.value name = none ∨ found.value name = now.value name

section Watching

variable (username : String) (ops : ℕ → AttributeOp)

/-- The others leave alone what is remembered of operation `i`. -/
def Leaves (i : ℕ) (t t' : Watched settings) : Prop := t'.2.found i = t.2.found i

instance (i : ℕ) : IsPreorder (Watched settings) (Leaves i) where
  refl _ := rfl
  trans _ _ _ hfirst hsecond := hsecond.trans hfirst

/-- A request of operation `i`: it keeps the attributes it is not asked to change if what it
has found is still there. -/
structure Keeps (i : ℕ) (t t' : Watched settings) : Prop where
  memory : t'.2 = remember username i (ops i) t.1 t'.1 t.2
  attributes : ∀ before, t.1.directory.attributesOf username = some before →
    ∃ after, t'.1.directory.attributesOf username = some after ∧
      (StillThere (ops i) (t.2.found i) before →
        ∀ name, (ops i).asked name = false → after.value name = before.value name)

/-- What operation `i` runs. -/
def watched (i : ℕ) : Prog Exn (Watched settings) Unit :=
  ((ops i).program settings).watch (remember username i (ops i))

variable {username ops}

/-- A program that leaves the account alone. -/
theorem keeps_of_same {i : ℕ} {t t' : Watched settings}
    (hmemory : t'.2 = remember username i (ops i) t.1 t'.1 t.2)
    (hsame : t'.1.directory.attributesOf username = t.1.directory.attributesOf username) :
    Keeps username ops i t t' where
  memory := hmemory
  attributes := fun before hbefore => ⟨before, hsame.trans hbefore, fun _ _ _ => rfl⟩

theorem meets_of_quiet {i : ℕ} {P : α → Prop} {program : IdProg settings α}
    (hprogram : Respects Quiet P program) (t : Watched settings) :
    Meets (Leaves i) (Keeps username ops i) (fun result _ => ∀ a, result = .ok a → P a)
      (program.watch (remember username i (ops i))) t := by
  have hwatched : Respects (Keeps username ops i) P
      (program.watch (remember username i (ops i))) := by
    refine (hprogram.watch _).mono (fun t t' h => ?_) fun _ h => h
    exact keeps_of_same h.2 (by rw [h.1.directory])
  have hmeets : Meets (Leaves i) (Keeps username ops i)
      (fun result _ => (∀ a, result = .ok a → P a) ∧ True)
      (program.watch (remember username i (ops i))) t :=
    hwatched.meets (fun _ _ _ _ => trivial) (fun _ _ _ _ => trivial) trivial
  exact hmeets.mono fun _ _ h => h.1

/-! ## Requests -/

/-- A request that is sent up to three times: `keeps` holds whenever it is sent. -/
theorem meets_graphql {i : ℕ} {onEmpty : IdProg settings α}
    {request : Directory → Directory.Reply α × Directory}
    {post : Except Exn α → Watched settings → Prop} (keeps : Watched settings → Prop)
    (hrely : ∀ t t', keeps t → Leaves i t t' → keeps t')
    (hstep : ∀ t t' : Watched settings, keeps t → t'.1 = (graphqlAttempt request t.1).2 →
      t'.2 = remember username i (ops i) t.1 t'.1 t.2 → Keeps username ops i t t')
    (hdata : ∀ (t t' t'' : Watched settings) value, keeps t →
      graphqlAttempt request t.1 = (.ok (some (.data value)), t'.1) →
      t'.2 = remember username i (ops i) t.1 t'.1 t.2 → Leaves i t' t'' → post (.ok value) t'')
    (hempty : ∀ t, Meets (Leaves i) (Keeps username ops i) post
      (onEmpty.watch (remember username i (ops i))) t)
    (herror : ∀ t e, post (.error e) t) {t : Watched settings} (ht : keeps t) :
    Meets (Leaves i) (Keeps username ops i) post
      ((graphql onEmpty request).watch (remember username i (ops i))) t := by
  have hattempts : ∀ attempts t, keeps t → Meets (Leaves i) (Keeps username ops i) post
      ((graphqlAttempts onEmpty request attempts).watch (remember username i (ops i))) t := by
    intro attempts
    induction attempts with
    | zero => exact fun t ht t' _ => herror t' _
    | succ attempts ih =>
        intro t ht
        rw [graphqlAttempts, watch_bind]
        apply meets_bind
        intro t₁ hleaves
        have ht₁ := hrely t t₁ ht hleaves
        refine ⟨hstep t₁ _ ht₁ rfl rfl, ?_⟩
        intro t₂ hleaves₂
        rcases hattempt : graphqlAttempt request t₁.1 with ⟨result, s'⟩
        have hlost : result = .ok none → keeps t₂ := by
          rintro rfl
          refine hrely t₁ t₂ ht₁ (trans_of (Leaves i) ?_ hleaves₂)
          exact remember_found_of_lost (runs_of_answered hattempt)
        have hdone : ∀ value, result = .ok (some (.data value)) →
            ∀ t₃, Leaves i t₂ t₃ → post (.ok value) t₃ := by
          rintro value rfl t₃ hleaves₃
          have hfirst : (graphqlAttempt request t₁.1).1 = .ok (some (.data value)) :=
            congrArg Prod.fst hattempt
          exact hdata t₁ _ t₃ value ht₁ (Prod.ext hfirst rfl) rfl
            (trans_of (Leaves i) hleaves₂ hleaves₃)
        match result, hlost, hdone with
        | .error e, _, _ => exact herror t₂ e
        | .ok none, hlost, _ => exact ih t₂ (hlost rfl)
        | .ok (some (.data value)), _, hdone => exact hdone value rfl
        | .ok (some .duplicate), _, _ =>
            dsimp only
            split_ifs
            · exact hempty t₂
            · exact fun t₃ _ => herror t₃ _
        | .ok (some .errors), _, _ => exact fun t₃ _ => herror t₃ _
  exact hattempts 3 t ht

/-- What a request leaves of the directory. -/
theorem directory_attempt (request : Directory → Directory.Reply α × Directory)
    (s : IdentityState settings) :
    (graphqlAttempt request s).2.directory = s.directory ∨
      (graphqlAttempt request s).2.directory = (request s.directory).2 := by
  unfold graphqlAttempt
  cases nextVerdict s.lldap with
  | runs => exact Or.inr rfl
  | fails applied =>
      dsimp only
      split_ifs
      · exact Or.inl rfl
      · exact Or.inr rfl
  | raises applied =>
      dsimp only
      split_ifs
      · exact Or.inl rfl
      · exact Or.inr rfl

/-- What an update leaves of an account, apart from what is asked for. -/
theorem attributes_of_writesBack {asked : AttributeName → Bool} {existing before : Attributes}
    {inserted : List (String × List String)} {v : String} {dir : Directory}
    (hwrites : WritesBack asked existing inserted) (name : Option String)
    (hbefore : dir.attributesOf username = some before) :
    ∃ after, (Directory.updateUser v name inserted dir).2.attributesOf username = some after ∧
      ((v = username → ∀ n, asked n = false →
          existing.value n = none ∨ existing.value n = before.value n) →
        ∀ n, asked n = false → after.value n = before.value n) := by
  have hsame : dir.attributesOf username = some before ∧ ∀ n, asked n = false →
      before.value n = before.value n := ⟨hbefore, fun _ _ => rfl⟩
  rcases eq_or_ne username v with rfl | hne
  · obtain ⟨account, haccount, rfl⟩ := Option.map_eq_some_iff.mp hbefore
    by_cases haccepts : inserted.all Directory.acceptsValues
    · refine ⟨_, Directory.attributesOf_updateUser haccount haccepts, ?_⟩
      intro hthere n hn
      rw [hwrites account.attributes n hn]
      rcases hthere rfl n hn with hnone | hvalue
      · rw [hnone, Option.none_or]
      · rw [hvalue, Option.or_self]
    · rw [Directory.updateUser_of_rejects haccepts]
      exact ⟨_, hbefore, fun _ _ _ => rfl⟩
  · refine ⟨before, ?_, fun _ _ _ => rfl⟩
    rw [Directory.attributesOf, Directory.lookup_updateUser_of_ne hne]
    exact hbefore

/-- A mutation that writes back what operation `i` has found, if it is on the account. -/
theorem meets_write {i : ℕ} {existing : Attributes} {inserted : List (String × List String)}
    (hwrites : WritesBack (ops i).asked existing inserted) (v : String) (name : Option String)
    {t : Watched settings}
    (hfound : v = username → (ops i).merges = true ∧ t.2.found i = existing ∨
      existing = Attributes.none) :
    Meets (Leaves i) (Keeps username ops i) (fun _ _ => True)
      ((mutation (Directory.updateUser v name inserted)).watch
        (remember username i (ops i))) t := by
  refine meets_graphql (fun t => v = username → (ops i).merges = true ∧ t.2.found i = existing ∨
    existing = Attributes.none) ?_ ?_ ?_ ?_ ?_ hfound
  · intro t t' hkeeps hleaves hv
    refine (hkeeps hv).imp_left fun h => ⟨h.1, ?_⟩
    exact (show t'.2.found i = t.2.found i from hleaves).trans h.2
  · intro t t' hkeeps hdirectory hmemory
    refine ⟨hmemory, fun before hbefore => ?_⟩
    rcases directory_attempt (Directory.updateUser v name inserted) t.1 with hsame | hwritten
    · refine ⟨before, ?_, fun _ _ _ => rfl⟩
      rw [hdirectory, hsame]
      exact hbefore
    · rw [hdirectory, hwritten]
      obtain ⟨after, hafter, hothers⟩ := attributes_of_writesBack (v := v) hwrites name hbefore
      refine ⟨after, hafter, fun hthere => hothers fun hv n hn => ?_⟩
      rcases hkeeps hv with ⟨hmerges, rfl⟩ | rfl
      · exact hthere hmerges n hn
      · left
        cases n <;> rfl
  · exact fun _ _ _ _ _ _ _ _ => trivial
  · exact fun _ _ _ => trivial
  · exact fun _ _ => trivial

/-- The attributes that are read are remembered. -/
theorem meets_existingAttributes {i : ℕ} (v : String) (t : Watched settings) :
    Meets (Leaves i) (Keeps username ops i)
      (fun result t' => ∀ existing, result = .ok existing → v = username →
        t'.2.found i = existing)
      ((existingAttributes v).watch (remember username i (ops i))) t := by
  unfold existingAttributes
  rw [watch_bind]
  refine meets_bind (meets_graphql (fun _ => True) (fun _ _ _ _ => trivial) ?_ ?_ ?_ ?_ trivial)
  · intro t t' _ hdirectory hmemory
    refine keeps_of_same hmemory ?_
    rcases directory_attempt (fun dir => (.data (dir.user v), dir)) t.1 with hsame | hsame
    · rw [hdirectory, hsame]
    · rw [hdirectory, hsame]
  · intro t t' t'' found _ hattempt hmemory hleaves
    obtain ⟨hreply, hstate⟩ := attempt_returned hattempt
    obtain rfl := Directory.Reply.data.inj hreply
    dsimp only
    cases huser : t.1.directory.user v with
    | none => exact fun _ _ => by simp
    | some u =>
        intro t₃ hleaves₃ existing hexisting hv
        obtain rfl := Except.ok.inj hexisting
        have hbefore : t.1.directory.attributesOf username =
            some (parseAttributes u.attributes) := by
          subst hv
          obtain ⟨account, haccount, rfl⟩ := Option.map_eq_some_iff.mp huser
          rw [Directory.attributesOf, haccount]
          rfl
        have hfound : t'.2.found i = parseAttributes u.attributes := by
          rw [hmemory]
          exact remember_found_of_answered (answered_attempt hattempt) (by rw [hstate]; rfl)
            hbefore
        rw [← hfound]
        exact trans_of (Leaves i) hleaves hleaves₃
  · intro t
    exact fun t' _ => by simp
  · intro t e
    simp

/-! ## Operations among others -/

/-- What moves no attribute leads to the rest of the operation. -/
theorem meets_quiet_bind {β : Type} {i : ℕ} {P : α → Prop} {p : IdProg settings α}
    {next : α → IdProg settings β} (hp : Respects Quiet P p)
    (hnext : ∀ a, P a → ∀ t, Meets (Leaves i) (Keeps username ops i) (fun _ _ => True)
      ((next a).watch (remember username i (ops i))) t) (t : Watched settings) :
    Meets (Leaves i) (Keeps username ops i) (fun _ _ => True)
      ((p >>= next).watch (remember username i (ops i))) t := by
  rw [watch_bind]
  refine meets_bind ((meets_of_quiet hp t).mono fun result t' hresult => ?_)
  cases result with
  | error e => trivial
  | ok a => exact hnext a (hresult a rfl) t'

/-- What was read is what is written back, if nothing has changed it in between. -/
theorem meets_readAndWrite {i : ℕ} (hmerges : (ops i).merges = true) (v : String)
    (name : Option String) {sent : Attributes → List (String × List String)}
    (hwrites : ∀ existing, WritesBack (ops i).asked existing (sent existing))
    (t : Watched settings) :
    Meets (Leaves i) (Keeps username ops i) (fun _ _ => True)
      ((existingAttributes v >>= fun existing =>
        mutation (Directory.updateUser v name (sent existing))).watch
          (remember username i (ops i))) t := by
  rw [watch_bind]
  apply meets_bind
  refine (meets_existingAttributes v t).mono fun result t' hread => ?_
  cases result with
  | error e => trivial
  | ok existing =>
      exact meets_write (hwrites existing) v name
        fun hv => Or.inl ⟨hmerges, hread existing rfl hv⟩

theorem meets_sendChanges {i : ℕ} {client : Client} {userId : ℤ} {changes : UserChanges}
    (hop : ops i = .updateUser client userId changes) (v : String) (expires : Option ℤ)
    (t : Watched settings) :
    Meets (Leaves i) (Keeps username ops i) (fun _ _ => True)
      ((sendChanges v changes expires).watch (remember username i (ops i))) t := by
  unfold sendChanges
  split_ifs
  · exact meets_pure fun _ _ => trivial
  · exact meets_write (writesBack_nil _) v changes.name fun _ => Or.inr rfl
  · apply meets_readAndWrite
    · rw [hop]
      rfl
    · intro existing
      rw [hop]
      exact writesBack_merge client userId changes expires existing

/-- An operation keeps what it is not asked to change, if what it has found is still there
when it writes. -/
theorem meets_program {i : ℕ} {op : AttributeOp} (hop : ops i = op) (t : Watched settings) :
    Meets (Leaves i) (Keeps username ops i) (fun _ _ => True)
      ((op.program settings).watch (remember username i (ops i))) t := by
  cases op with
  | updateUser client userId changes =>
      have hlast : Respects Quiet (fun _ => True)
          (getUser client userId : IdProg settings _) :=
        (respects_getUser client userId).mono (fun _ _ h => h) fun _ _ => trivial
      have hdone : ∀ t, Meets (Leaves i) (Keeps username ops i) (fun _ _ => True)
          ((getUser client userId).watch (remember username i (ops i))) t :=
        fun t => (meets_of_quiet hlast t).mono fun _ _ _ => trivial
      unfold AttributeOp.program
      rw [watch_bind]
      apply meets_bind
      have hupdate : Meets (Leaves i) (Keeps username ops i) (fun _ _ => True)
          ((Identity.updateUser client userId changes).watch (remember username i (ops i))) t := by
        refine meets_quiet_bind (respects_requireUsername client userId) ?_ t
        intro v _ t
        refine meets_quiet_bind (respects_expiryFor _) ?_ t
        intro expires _ t
        rw [watch_bind]
        apply meets_bind
        refine (meets_sendChanges hop v expires t).mono fun result t' _ => ?_
        cases result with
        | error e => trivial
        | ok _ => exact hdone t'
      refine hupdate.mono fun result t' _ => ?_
      cases result with
      | error e => trivial
      | ok _ => exact meets_pure fun _ _ => trivial
  | deactivateUser client userId =>
      refine meets_quiet_bind (respects_requireUsername client userId) ?_ t
      intro v _ t
      have hwrites : WritesBack (ops i).asked Attributes.none
          (buildCustomAttributes { Attributes.none with isActive := some false }) := by
        rw [hop]
        apply writesBack_build
        intro name hname
        cases name with
        | isActive => exact absurd hname (by simp [AttributeOp.asked])
        | expires => rfl
        | certsRevoked => rfl
        | userType => rfl
      exact meets_write hwrites v none fun _ => Or.inr rfl
  | markCertsRevoked client userId =>
      refine meets_quiet_bind (respects_requireUsername client userId) ?_ t
      intro v _ t
      refine meets_readAndWrite (by rw [hop]; rfl) v none ?_ t
      intro existing
      rw [hop]
      apply writesBack_build
      intro name hname
      cases name with
      | certsRevoked => exact absurd hname (by simp [AttributeOp.asked])
      | expires => rfl
      | isActive => rfl
      | userType => rfl

end Watching

/-! ## Interleavings -/

/-- What a run starts from: the attributes of the user are the last ones written. -/
def Memory.at (attrs : Attributes) : Memory where
  lastWritten := attrs.value
  found := fun _ => Attributes.none

/-- The operations that may run. -/
def Starts (username : String) (ops : ℕ → AttributeOp) (i : ℕ)
    (p : Prog Exn (Watched settings) Unit) : Prop :=
  p = watched username ops i

/-- The surroundings leave the attributes of the user alone. -/
def LeavesAttributes (username : String) (t t' : Watched settings) : Prop :=
  t'.2 = t.2 ∧ t'.1.directory.attributesOf username = t.1.directory.attributesOf username

/-- When an operation changes attributes, what it has found is still there. -/
def WritesWhatStands (username : String) (ops : ℕ → AttributeOp) (i : ℕ)
    (t t' : Watched settings) : Prop :=
  ∀ before, t.1.directory.attributesOf username = some before →
    t'.1.directory.attributesOf username ≠ some before →
      StillThere (ops i) (t.2.found i) before

/-- Every attribute of the user is as the last operation asked to change it has written it. -/
def LastAskedStands (username : String) (t : Watched settings) : Prop :=
  ∃ attrs, t.1.directory.attributesOf username = some attrs ∧
    ∀ name, attrs.value name = t.2.lastWritten name

theorem cooperates (username : String) (ops : ℕ → AttributeOp) :
    Pool.Cooperates (fun _ _ => True) Leaves (Keeps username ops)
      (@Starts settings username ops) (LeavesAttributes username) where
  starts := by
    rintro i p rfl t _
    exact meets_program rfl t
  fresh := fun _ _ _ _ _ => trivial
  env := fun i _ _ henv => congrArg (Memory.found · i) henv.1
  others := by
    intro i j hne t t' hkeeps
    unfold Leaves
    rw [hkeeps.memory]
    exact remember_found_of_ne hne.symm _ _ _ _

/-- A request of an operation that is admitted leaves the last written values standing. -/
theorem lastAskedStands_step {username : String} {ops : ℕ → AttributeOp} {i : ℕ}
    {t t' : Watched settings} (hstands : LastAskedStands username t)
    (hkeeps : Keeps username ops i t t') (hadmits : WritesWhatStands username ops i t t') :
    LastAskedStands username t' := by
  obtain ⟨before, hbefore, hvalues⟩ := hstands
  obtain ⟨after, hafter, hothers⟩ := hkeeps.attributes before hbefore
  refine ⟨after, hafter, fun name => ?_⟩
  rw [hkeeps.memory]
  unfold remember
  rw [hbefore, hafter]
  dsimp only
  rcases eq_or_ne after before with rfl | hchanged
  · rw [if_pos rfl]
    split_ifs
    · exact hvalues name
    · exact hvalues name
  · rw [if_neg hchanged]
    dsimp only
    split_ifs with hasked
    · rfl
    · have hthere := hadmits before hbefore (by
        rw [hafter]
        exact fun h => hchanged (Option.some.inj h))
      rw [hothers hthere name (by simpa using hasked)]
      exact hvalues name

def kimAttributes : Attributes := ⟨some 1000, some false, none, some "user"⟩

/-- A directory with an account that expires at 1000. -/
def kimDirectory : Directory :=
  (Directory.updateUser "kim" none (buildCustomAttributes kimAttributes)
    (Directory.createUser "kim" "Kim" .empty).2).2

def kimWatched : Watched Settings.small := (.start kimDirectory 1200, Memory.at kimAttributes)

/-- The scheduler marks the certificates as revoked, while a request renews the account. -/
def renewalOps : ℕ → AttributeOp
  | 0 => .markCertsRevoked .scheduler (Settings.small.numericId "kim")
  | _ => .updateUser .users (Settings.small.numericId "kim") ⟨none, none, some (some 24)⟩

/-- The scheduler reads, the request runs, the scheduler writes. -/
def renewalPool : Pool Exn (Watched Settings.small) Unit :=
  (((Pool.idle kimWatched).setThread 0 (watched "kim" renewalOps 0)).setThread 1
    (watched "kim" renewalOps 1)).play (List.replicate 5 0 ++ List.replicate 10 1 ++ [0])

/-- Deactivations write nothing back. -/
def deactivations : ℕ → AttributeOp :=
  fun _ => .deactivateUser .users (Settings.small.numericId "kim")

end FastTAK.Identity
