import FastTAK.Api.Sequential
import FastTAK.Base.Lowering
import FastTAK.Identity.Searches

/-!
# The list of the service accounts

The list is a search for "svc_" that ignores case and looks at display names too.  The
operations by id ask for the prefix of the username.
-/

namespace FastTAK.Api

open FastTAK.Effect FastTAK.Effect.Prog FastTAK.Certs FastTAK.Identity FastTAK.Naming FastTAK.Text

variable {settings : Settings}

/-- The check that `get_service_account`, `update_service_account` and `delete_service_account`
start with, while LLDAP answers. -/
def Accepts (w : World settings) (accountId : ℤ) : Prop :=
  ∃ user, ((requireAccount accountId).run (w.withFaults [])).1 = .ok user

theorem accepts_iff_of_known {accountId : ℤ} {u : Directory.UserView} {w : World settings}
    (hknown : Known .serviceAccounts accountId u.id w.identity)
    (huser : w.identity.directory.user u.id = some u) :
    Accepts w accountId ↔ "svc_".toList <+: u.id.toList := by
  have hvisible : ¬ isHidden settings .serviceAccounts u.id := by
    simp [isHidden, Client.hiddenPrefixes]
  have hget := run_identity_of (run_getUser_of_known hknown hvisible huser)
  rw [Accepts, requireAccount, run_bind, Call.bind_of_ok hget]
  change (∃ user, ((if "svc_".toList <+: u.id.toList then pure (toRecord settings u)
    else raise _ : Handler settings UserRecord).run _).1 = _) ↔ _
  split_ifs with hservice
  · exact iff_of_true ⟨_, rfl⟩ hservice
  · refine iff_of_false ?_ hservice
    rintro ⟨user, h⟩
    cases h

/-! ## The list -/

/-- The search for "svc_" finds the user. -/
def Mentions (settings : Settings) (u : Directory.UserView) : Prop :=
  (settings.lower "svc_").toList <:+: (settings.lower u.id).toList ∨
    (settings.lower "svc_").toList <:+: (settings.lower u.displayName).toList

instance (u : Directory.UserView) : Decidable (Mentions settings u) :=
  inferInstanceAs (Decidable (_ ∨ _))

theorem mem_foundUsers_iff {u : Directory.UserView} {dir : Directory} :
    u ∈ foundUsers settings .serviceAccounts "svc_" dir ↔
      u ∈ dir.users ∧ Mentions settings u := by
  have hvisible : ¬ isHidden settings .serviceAccounts u.id := by
    simp [isHidden, Client.hiddenPrefixes]
  simp [foundUsers, Mentions, hvisible]

/-- An account is in the list if its name says so, once, and the operations by id take it. -/
structure ExactListing (w w' : World settings) (page : List UserRecord) : Prop where
  members : ∀ username, username ∈ page.map UserRecord.username ↔
    username ∈ w.identity.directory.accounts ∧ "svc_".toList <+: username.toList
  once : (page.map UserRecord.username).Nodup
  accepted : ∀ user ∈ page, Accepts w' user.id

theorem mentions_of_prefix {lowering : Lowering}
    (hlower : ∀ name, (settings.lower name).toList = lowering.lower name.toList)
    {u : Directory.UserView} (hservice : "svc_".toList <+: u.id.toList) :
    Mentions settings u := by
  have hascii : ∀ c ∈ "svc_".toList, c.toNat < 128 := by simp
  obtain ⟨rest, hrest⟩ := hservice
  left
  rw [hlower, hlower, lowering.plain _ hascii, ← hrest]
  exact (lowering.ascii "svc_".toList rest hascii).isInfix

/-- How the request ends if it returns. -/
theorem ends_listServiceAccounts {w w' : World settings} {response : Response}
    (hrun : listServiceAccounts.run w = (.ok response, w')) :
    ∃ page queue, response = .users (page.map fun user => (user, [])) page.length ∧
      page = (foundUsers settings .serviceAccounts "svc_" w.identity.directory).map
        (toRecord settings) ∧
      w' = w.withIdentity (noteAll .serviceAccounts
        (foundUsers settings .serviceAccounts "svc_" w.identity.directory)
        (withQueue queue w.identity)) := by
  have hlist : Alone (fun _ _ => True) (fun result w' => ∀ records, result = .ok records →
      records = (foundUsers settings .serviceAccounts "svc_" w.identity.directory).map
        (toRecord settings) ∧
      ∃ queue, w' = w.withIdentity (noteAll .serviceAccounts
        (foundUsers settings .serviceAccounts "svc_" w.identity.directory)
        (withQueue queue w.identity)))
      (identity (Identity.listUsers .serviceAccounts (some "svc_"))) w := by
    apply alone_identity (fun _ _ _ => trivial)
    refine (alone_listUsers .serviceAccounts "svc_" w.identity).mono (fun _ _ h => h) ?_
    intro result s h records hrecords
    obtain ⟨hpage, queue, rfl⟩ := h records hrecords
    exact ⟨hpage, queue, rfl⟩
  rw [listServiceAccounts, run_bind] at hrun
  obtain ⟨page, w₁, hfirst, hlast⟩ := Call.bind_eq_ok hrun
  obtain ⟨rfl, rfl⟩ := Call.pure_eq_ok.mp hlast
  have hends := hlist.ends
  rw [hfirst] at hends
  obtain ⟨hpage, queue, hstate⟩ := hends page rfl
  exact ⟨page, queue, rfl, hpage, hstate⟩

/-- While LLDAP answers, the request returns. -/
theorem run_listServiceAccounts (w : World settings) :
    listServiceAccounts.run (w.withFaults []) =
      (.ok (.users (((foundUsers settings .serviceAccounts "svc_" w.identity.directory).map
          (toRecord settings)).map fun user => (user, []))
        ((foundUsers settings .serviceAccounts "svc_" w.identity.directory).map
          (toRecord settings)).length),
      w.withIdentity (noteAll .serviceAccounts
        (foundUsers settings .serviceAccounts "svc_" w.identity.directory)
        (withQueue [] w.identity))) := by
  have hlist := run_identity_of (run_listUsers .serviceAccounts "svc_" w.identity)
  rw [listServiceAccounts, run_bind, Call.bind_of_ok hlist]
  rfl

/-- The list of the service accounts is exact just if the search finds no other user. -/
theorem listServiceAccounts_exact_iff {settings : Settings} {lowering : Lowering}
    (hlower : ∀ name, (settings.lower name).toList = lowering.lower name.toList)
    {w w' : World settings} {response : Response}
    (hrun : listServiceAccounts.run w = (.ok response, w')) :
    ∃ page, response = .users (page.map fun user => (user, [])) page.length ∧
      (ExactListing w w' page ↔ ∀ u ∈ w.identity.directory.users, Mentions settings u →
        "svc_".toList <+: u.id.toList) := by
  obtain ⟨page, queue, hresponse, rfl, rfl⟩ := ends_listServiceAccounts hrun
  refine ⟨_, hresponse, ?_⟩
  have hnames : ∀ username,
      username ∈ ((foundUsers settings .serviceAccounts "svc_" w.identity.directory).map
        (toRecord settings)).map UserRecord.username ↔
      ∃ u ∈ w.identity.directory.users, Mentions settings u ∧ u.id = username := by
    intro username
    simp only [List.map_map, List.mem_map, mem_foundUsers_iff, and_assoc]
    rfl
  constructor
  · intro hexact u hu hmentions
    exact ((hexact.members u.id).mp ((hnames u.id).mpr ⟨u, hu, hmentions, rfl⟩)).2
  · intro honly
    constructor
    · intro username
      rw [hnames]
      constructor
      · rintro ⟨u, hu, hmentions, rfl⟩
        exact ⟨Directory.mem_accounts_of_mem_users hu, honly u hu hmentions⟩
      · rintro ⟨haccount, hservice⟩
        obtain ⟨u, hu, rfl⟩ := Directory.exists_user_of_mem_accounts haccount
        exact ⟨u, hu, mentions_of_prefix hlower hservice, rfl⟩
    · rw [List.map_map]
      exact (List.filter_sublist.map _).nodup (Directory.nodup_ids _)
    · intro user huser
      obtain ⟨u, hu, rfl⟩ := List.mem_map.mp huser
      obtain ⟨v, hv, hknown⟩ := known_noteAll (withQueue queue w.identity) hu
      obtain ⟨hlisted, hmentions⟩ := mem_foundUsers_iff.mp hv
      apply (accepts_iff_of_known hknown ?_).mpr (honly v hlisted hmentions)
      change (noteAll _ _ _).directory.user v.id = some v
      rw [noteAll_directory]
      exact (Directory.mem_users_iff _ _).mp hlisted

/-! ## A user whose display name mentions an account -/

/-- The account of a feed, with the user "kim". -/
def feedDirectory (kimsName : String) : Directory :=
  { Directory.empty with
    accounts := (∅ : AList fun _ : String => Account).insert "svc_adsb" ⟨"ADS-B", ∅⟩
      |>.insert "kim" ⟨kimsName, ∅⟩ }

/-- A monitor in front of the two. -/
def feedMonitor (kimsName : String) : World Settings.small where
  identity := .start (feedDirectory kimsName) 0
  pki := .empty
  revocations := []

/-- The usernames of a page, and which of the ids the operations take. -/
def listedNames (kimsName : String) : Option (List (String × Bool)) :=
  match listServiceAccounts.run (feedMonitor kimsName) with
  | (.ok (.users page _), w') => some (page.map fun entry =>
      (entry.1.username,
        match ((requireAccount entry.1.id).run (w'.withFaults [])).1 with
        | .ok _ => true
        | .error _ => false))
  | _ => none

/-- The owner of an account is listed with it and is not an account. -/
theorem listServiceAccounts_lists_owner :
    listedNames "Owner of SVC_adsb" = some [("kim", false), ("svc_adsb", true)] := by
  decide +kernel

/-- The account of a feed is all there is to list beside a user called "Kim". -/
theorem listServiceAccounts_exact_for_kim :
    ∃ page w', listServiceAccounts.run (feedMonitor "Kim") =
        (.ok (.users (page.map fun user => (user, [])) page.length), w') ∧
      ExactListing (feedMonitor "Kim") w' page := by
  have hrun := run_listServiceAccounts (feedMonitor "Kim")
  obtain ⟨page, hresponse, hexact⟩ := listServiceAccounts_exact_iff toList_toLower hrun
  refine ⟨page, _, ?_, hexact.mpr ?_⟩
  · rw [← hresponse]
    exact hrun
  · decide +kernel

end FastTAK.Api
