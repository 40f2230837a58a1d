import FastTAK.Identity.LostResponse
import FastTAK.Identity.Sequential

/-!
# Fates of a mutation

However the attempts of a mutation of an account fare, in the end LLDAP has answered it, or the
call has raised, before LLDAP did what was asked for or after it.
-/

namespace FastTAK.Identity

open FastTAK.Effect FastTAK.Effect.Prog FastTAK.Api

variable {settings : Settings}

/-- LLDAP answers a call of the identity client, or the call raises, before LLDAP did what was
asked for or after it. -/
inductive CallFate where
  | answered
  | lost (arrived : Bool)
  deriving DecidableEq, Repr

/-- How a call ended, and whether LLDAP did what was asked for. -/
structure CallEnd where
  raised : Bool
  applied : Bool
  deriving DecidableEq, Repr

/-- A call under its fate.  An answer that is an error raises. -/
def send (fate : CallFate) (request : Directory → Directory.Reply Unit × Directory)
    (dir : Directory) : CallEnd × Directory :=
  match fate, request dir with
  | .answered, (.data _, dir') => (⟨false, true⟩, dir')
  | .answered, (_, dir') => (⟨true, false⟩, dir')
  | .lost true, (.data _, dir') => (⟨true, true⟩, dir')
  | .lost true, (_, dir') => (⟨true, false⟩, dir')
  | .lost false, _ => (⟨true, false⟩, dir)

/-! ## One account -/

section Account

variable {username : String} {name : Option String} {inserted : List (String × List String)}
  {dir dir' : Directory}

theorem attributesOf_congr (hsame : dir.accounts.lookup username = dir'.accounts.lookup username) :
    dir.attributesOf username = dir'.attributesOf username := by
  rw [Directory.attributesOf, Directory.attributesOf, hsame]

/-- A mutation of an account answers and leaves what the account alone decides. -/
theorem updateUser_own (hsame : dir.accounts.lookup username = dir'.accounts.lookup username) :
    (Directory.updateUser username name inserted dir).1 =
        (Directory.updateUser username name inserted dir').1 ∧
      (Directory.updateUser username name inserted dir).2.accounts.lookup username =
        (Directory.updateUser username name inserted dir').2.accounts.lookup username := by
  unfold Directory.updateUser
  rw [hsame]
  cases haccount : dir'.accounts.lookup username with
  | none => exact ⟨rfl, hsame.trans rfl⟩
  | some account =>
      dsimp only
      split_ifs
      · refine ⟨rfl, ?_⟩
        rw [AList.lookup_insert, AList.lookup_insert]
      · exact ⟨rfl, hsame⟩

theorem send_own (fate : CallFate)
    (hsame : dir.accounts.lookup username = dir'.accounts.lookup username) :
    (send fate (Directory.updateUser username name inserted) dir).1 =
        (send fate (Directory.updateUser username name inserted) dir').1 ∧
      (send fate (Directory.updateUser username name inserted) dir).2.accounts.lookup username =
        (send fate (Directory.updateUser username name inserted) dir').2.accounts.lookup
          username := by
  have hown : (Directory.updateUser username name inserted dir).1 = _ ∧ _ := updateUser_own hsame
  obtain ⟨hreply, hlookup⟩ := hown
  unfold send
  rcases hdir : Directory.updateUser username name inserted dir with ⟨reply, after⟩
  rcases hdir' : Directory.updateUser username name inserted dir' with ⟨reply', after'⟩
  rw [hdir, hdir'] at hreply hlookup
  obtain rfl : reply = reply' := hreply
  cases fate with
  | answered =>
      cases reply with
      | data value => exact ⟨rfl, hlookup⟩
      | duplicate => exact ⟨rfl, hlookup⟩
      | errors => exact ⟨rfl, hlookup⟩
  | lost arrived =>
      cases arrived with
      | false => exact ⟨rfl, hsame⟩
      | true =>
          cases reply with
          | data value => exact ⟨rfl, hlookup⟩
          | duplicate => exact ⟨rfl, hlookup⟩
          | errors => exact ⟨rfl, hlookup⟩

theorem send_frame (fate : CallFate) {other : String} (hne : other ≠ username) :
    (send fate (Directory.updateUser username name inserted) dir).2.accounts.lookup other =
      dir.accounts.lookup other := by
  have hlookup := Directory.lookup_updateUser_of_ne hne name inserted dir
  unfold send
  rcases hdir : Directory.updateUser username name inserted dir with ⟨reply, after⟩
  rw [hdir] at hlookup
  cases fate with
  | answered => cases reply <;> exact hlookup
  | lost arrived =>
      cases arrived with
      | false => rfl
      | true => cases reply <;> exact hlookup

/-- A mutation of an account is applied, or refused and nothing changes. -/
theorem updateUser_cases (username : String) (name : Option String)
    (inserted : List (String × List String)) (dir : Directory) :
    (Directory.updateUser username name inserted dir).1 = .data () ∨
      Directory.updateUser username name inserted dir = (.errors, dir) := by
  unfold Directory.updateUser
  cases dir.accounts.lookup username with
  | none => exact Or.inr rfl
  | some account =>
      dsimp only
      split_ifs
      · exact Or.inl rfl
      · exact Or.inr rfl

/-- A call has done what it was asked for, or it raised and has done nothing. -/
theorem send_cases (fate : CallFate) (username : String) (name : Option String)
    (inserted : List (String × List String)) (dir : Directory) :
    (send fate (Directory.updateUser username name inserted) dir).1.applied = true ∧
        (Directory.updateUser username name inserted dir).1 = .data () ∧
        (send fate (Directory.updateUser username name inserted) dir).2 =
          (Directory.updateUser username name inserted dir).2 ∨
      send fate (Directory.updateUser username name inserted) dir = (⟨true, false⟩, dir) := by
  have hcases := updateUser_cases username name inserted dir
  unfold send
  rcases hrequest : Directory.updateUser username name inserted dir with ⟨reply, after⟩
  rw [hrequest] at hcases
  rcases hcases with hdata | hrefused
  · obtain rfl : reply = .data () := hdata
    cases fate with
    | answered => exact Or.inl ⟨rfl, rfl, rfl⟩
    | lost arrived =>
        cases arrived with
        | true => exact Or.inl ⟨rfl, rfl, rfl⟩
        | false => exact Or.inr rfl
  · obtain ⟨rfl, rfl⟩ := Prod.mk.inj hrefused
    cases fate with
    | answered => exact Or.inr rfl
    | lost arrived =>
        cases arrived with
        | true => exact Or.inr rfl
        | false => exact Or.inr rfl

/-- The attributes after a call: those it was to set, if LLDAP did that, over those before. -/
theorem attributesOf_send (fate : CallFate) {attrs before : Attributes}
    (hbefore : dir.attributesOf username = some before) :
    (send fate (Directory.updateUser username none (buildCustomAttributes attrs))
        dir).2.attributesOf username =
      if (send fate (Directory.updateUser username none (buildCustomAttributes attrs))
        dir).1.applied then some (attrs.over before) else some before := by
  rcases send_cases fate username none (buildCustomAttributes attrs) dir with
    ⟨happlied, hdata, hafter⟩ | hnothing
  · obtain ⟨account, haccount, rfl⟩ := Option.map_eq_some_iff.mp hbefore
    have haccepts : (buildCustomAttributes attrs).all Directory.acceptsValues := by
      by_contra hrejects
      rw [Directory.updateUser_of_rejects hrejects] at hdata
      cases hdata
    rw [if_pos happlied, hafter, Directory.attributesOf_updateUser haccount haccepts,
      parseAttributes_insert_build]
  · rw [hnothing]
    exact hbefore

end Account

/-! ## However it fares -/

/-- A call that changes the directory of the state has ended like this. -/
structure Ended (s : IdentityState settings) (ended : CallEnd × Directory)
    (result : Except Exn Unit) (s' : IdentityState settings) : Prop where
  raised : ended.1.raised = !result.isOk
  directory : s'.directory = ended.2
  ids : s'.ids = s.ids

/-- However the attempts of a mutation fare, it ends as under some fate. -/
theorem alone_sent {request : Directory → Directory.Reply Unit × Directory}
    (hcases : ∀ dir, (request dir).1 = .data () ∨ request dir = (.errors, dir))
    (hagain : ∀ dir, (request (request dir).2).2 = (request dir).2)
    (s : IdentityState settings) :
    Alone (fun _ _ => True) (fun result s' => ∃ fate,
      Ended s (send fate request s.directory) result s') (mutation request) s := by
  apply alone_graphql (fun s' : IdentityState settings => s'.ids = s.ids ∧
    (s'.directory = s.directory ∨ s'.directory = (request s.directory).2))
  · exact fun _ _ hs => hs
  · rintro s' ⟨hids, hdirectory | hdirectory⟩
    · refine ⟨trivial, hids, Or.inr ?_⟩
      change (request s'.directory).2 = _
      rw [hdirectory]
    · refine ⟨trivial, hids, Or.inr ?_⟩
      change (request s'.directory).2 = _
      rw [hdirectory, hagain]
  · rintro s' value ⟨hids, hdirectory⟩ hdata
    have hafter : (request s'.directory).2 = (request s.directory).2 := by
      rcases hdirectory with hdirectory | hdirectory
      · rw [hdirectory]
      · rw [hdirectory, hagain]
    have hfirst : request s.directory = (.data (), (request s.directory).2) := by
      rcases hcases s.directory with hfirst | hrefused
      · exact Prod.ext hfirst rfl
      · have hsame : s'.directory = s.directory := by
          rcases hdirectory with hdirectory | hdirectory
          · exact hdirectory
          · exact hdirectory.trans (congrArg Prod.snd hrefused)
        rw [hsame, congrArg Prod.fst hrefused] at hdata
        cases hdata
    refine ⟨.answered, ?_⟩
    unfold send
    rw [hfirst]
    exact ⟨rfl, hafter, hids⟩
  · rintro s' - hduplicate
    rcases hcases s'.directory with hdata | hrefused
    · rw [hdata] at hduplicate
      cases hduplicate
    · rw [hrefused] at hduplicate
      cases hduplicate
  · rintro s' e ⟨hids, hdirectory⟩
    rcases hdirectory with hdirectory | hdirectory
    · exact ⟨.lost false, rfl, hdirectory, hids⟩
    · refine ⟨.lost true, ?_⟩
      unfold send
      rcases hrequest : request s.directory with ⟨reply, after⟩
      rw [hrequest] at hdirectory
      cases reply with
      | data value => exact ⟨rfl, hdirectory, hids⟩
      | duplicate => exact ⟨rfl, hdirectory, hids⟩
      | errors => exact ⟨rfl, hdirectory, hids⟩
  · exact ⟨rfl, Or.inl rfl⟩

theorem alone_sentUpdate (username : String) (name : Option String)
    {inserted : List (String × List String)} (hnodup : (inserted.map Prod.fst).Nodup)
    (s : IdentityState settings) :
    Alone (fun _ _ => True) (fun result s' => ∃ fate, Ended s (send fate
      (Directory.updateUser username name inserted) s.directory) result s')
      (mutation (Directory.updateUser username name inserted)) s := by
  apply alone_sent (updateUser_cases username name inserted)
  intro dir
  have hrepeatable : Repeatable (pure () : IdProg settings Unit)
      (Directory.updateUser username name inserted) dir :=
    repeatable_updateUser username name hnodup dir
  exact hrepeatable.directory

end FastTAK.Identity
