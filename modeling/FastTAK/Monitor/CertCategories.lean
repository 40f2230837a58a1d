import FastTAK.Certs.Naming

/-!
# Categories of certificates

The health monitor guesses from the name of a file whom a certificate belongs to.  The guess
meets the names that users, service accounts and servers can have.
-/

namespace FastTAK.Categories

open FastTAK.Naming FastTAK.Text

/-! ## The guess -/

inductive Category where
  | infrastructure
  | service
  | user
  deriving DecidableEq, Repr

/-- `_INFRA_NAMES`. -/
def infraNames : List String := ["ca", "root-ca", "ca-trusted", "root-ca-trusted", "takserver"]

/-- `_categorize_cert(filename)`. -/
def categorizeCert (filename : String) : Category :=
  let stem := removeSuffix filename ".pem"
  if stem ∈ infraNames then .infrastructure
  else if "svc_".toList <+: stem.toList then .service
  else if '.' ∈ stem.toList ∧ stem ∉ infraNames then .infrastructure
  else .user

/-- The names that `get_cert_status` reports on, in order. -/
def monitored (filenames : List String) : List (String × Category) :=
  (filenames.map fun filename => (filename, categorizeCert filename)).filter
    fun item => item.2 ≠ .user

/-! ## Where certificates come from -/

/-- A certificate that the system writes: of `generate_user_cert`, of `create_service_account`,
of `init-config` for `SERVER_ADDRESS`, or of the authority. -/
inductive Source where
  | user (username name : String)
  | serviceAccount (name : String)
  | server (address : String)
  | authority (stem : String)
  deriving DecidableEq, Repr

namespace Source

/-- The certificates of the authority. -/
def authorityStems : List String := ["ca", "root-ca", "ca-trusted", "root-ca-trusted"]

/-- `init-config` takes the address and makes a certificate for it. -/
def acceptsAddress (address : String) : Bool :=
  address ≠ "" && address.toList.all isNameChar && address ≠ "localhost"

/-- The names are accepted. -/
def accepted : Source → Bool
  | user username name => acceptsUsername username && acceptsCertName name
  | serviceAccount name => acceptsServiceName name
  | server address => acceptsAddress address
  | authority stem => stem ∈ authorityStems

def stem : Source → String
  | user username name => userStem username name
  | serviceAccount name => serviceUsername name
  | server address => address
  | authority stem => stem

/-- The file of the certificate. -/
def filename (source : Source) : String := source.stem ++ ".pem"

/-- The category by origin. -/
def category : Source → Category
  | user .. => .user
  | serviceAccount _ => .service
  | server _ | authority _ => .infrastructure

/-- The name of the file gives the origin away. -/
def Telling : Source → Prop
  | user username name => ¬ "svc_".toList <+: username.toList ∧ '.' ∉ username.toList ∧
      '.' ∉ name.toList ∧ userStem username name ∉ ["ca-trusted", "root-ca", "root-ca-trusted"]
  | server address => address ∈ infraNames ∨
      '.' ∈ address.toList ∧ ¬ "svc_".toList <+: address.toList
  | serviceAccount _ | authority _ => True

end Source

/-! ## Whether the guess is right -/

theorem categorizeCert_pem (stem : String) :
    categorizeCert (stem ++ ".pem") =
      if stem ∈ infraNames then .infrastructure
      else if "svc_".toList <+: stem.toList then .service
      else if '.' ∈ stem.toList then .infrastructure
      else .user := by
  rw [categorizeCert, removeSuffix_append]
  split_ifs with hinfra hsvc hboth hdot hdot
  · rfl
  · rfl
  · rfl
  · exact absurd hboth.1 hdot
  · exact absurd ⟨hdot, hinfra⟩ hboth
  · rfl

/-- A text without a hyphen that a stem starts with lies within the user name. -/
theorem prefix_userStem_iff {text : List Char} (hhyphen : '-' ∉ text) (username name : String) :
    text <+: (userStem username name).toList ↔ text <+: username.toList := by
  have hstem : (userStem username name).toList = username.toList ++ '-' :: name.toList := by
    simp [userStem]
  rw [hstem]
  constructor
  · intro htext
    rcases List.prefix_or_prefix_of_prefix htext (List.prefix_append _ _) with h | h
    · exact h
    · obtain ⟨rest, rfl⟩ := h
      rw [List.prefix_append_right_inj] at htext
      cases rest with
      | nil => simp
      | cons c rest =>
          obtain rfl : c = '-' := (List.cons_prefix_cons.mp htext).1
          exact absurd (by simp) hhyphen
  · exact fun h => h.trans (List.prefix_append _ _)

theorem hyphen_mem_userStem (username name : String) : '-' ∈ (userStem username name).toList := by
  simp [userStem]

theorem infraNames_of_userStem (username name : String) :
    userStem username name ∈ infraNames ↔
      userStem username name ∈ ["ca-trusted", "root-ca", "root-ca-trusted"] := by
  have hhyphen := hyphen_mem_userStem username name
  have hne : ∀ text : String, '-' ∉ text.toList → userStem username name ≠ text := by
    rintro text htext rfl
    exact htext hhyphen
  have hca := hne "ca" (by decide)
  have htakserver := hne "takserver" (by decide)
  simp only [infraNames, List.mem_cons, List.not_mem_nil, or_false, hca, htakserver, false_or]
  tauto

theorem dot_mem_userStem_iff (username name : String) :
    '.' ∈ (userStem username name).toList ↔ '.' ∈ username.toList ∨ '.' ∈ name.toList := by
  simp [userStem]

theorem categorize_user_iff (username name : String) :
    categorizeCert (Source.user username name).filename = .user ↔
      (Source.user username name).Telling := by
  have hsvc : "svc_".toList <+: (userStem username name).toList ↔
      "svc_".toList <+: username.toList := prefix_userStem_iff (by decide) username name
  have htelling : (Source.user username name).Telling ↔
      ¬ "svc_".toList <+: (userStem username name).toList ∧
        '.' ∉ (userStem username name).toList ∧ userStem username name ∉ infraNames := by
    rw [Source.Telling, hsvc, dot_mem_userStem_iff, infraNames_of_userStem]
    tauto
  change categorizeCert (userStem username name ++ ".pem") = .user ↔ _
  rw [categorizeCert_pem, htelling]
  split_ifs with hinfra hstarts hdot
  · exact iff_of_false (by decide) fun h => h.2.2 hinfra
  · exact iff_of_false (by decide) fun h => h.1 hstarts
  · exact iff_of_false (by decide) fun h => h.2.1 hdot
  · exact iff_of_true rfl ⟨hstarts, hdot, hinfra⟩

theorem categorize_service (name : String) :
    categorizeCert (Source.serviceAccount name).filename = .service := by
  have hsvc := svc_prefix_serviceUsername name
  have hinfra : serviceUsername name ∉ infraNames := by
    intro hmem
    have hnone : ∀ text ∈ infraNames, ¬ "svc_".toList <+: text.toList := by decide
    exact hnone _ hmem hsvc
  change categorizeCert (serviceUsername name ++ ".pem") = .service
  rw [categorizeCert_pem, if_neg hinfra, if_pos hsvc]

theorem categorize_server_iff (address : String) :
    categorizeCert (Source.server address).filename = .infrastructure ↔
      (Source.server address).Telling := by
  change categorizeCert (address ++ ".pem") = .infrastructure ↔ _
  rw [categorizeCert_pem, Source.Telling]
  split_ifs with hinfra hsvc hdot
  · exact iff_of_true rfl (Or.inl hinfra)
  · exact iff_of_false (by decide) fun h => h.elim hinfra fun h => h.2 hsvc
  · exact iff_of_true rfl (Or.inr ⟨hdot, hsvc⟩)
  · exact iff_of_false (by decide) fun h => h.elim hinfra fun h => hdot h.1

/-- The category of a certificate matches its origin exactly if its name gives the origin
away. -/
theorem categorizeCert_iff {source : Source} (haccepted : source.accepted = true) :
    categorizeCert source.filename = source.category ↔ source.Telling := by
  cases source with
  | user username name => exact categorize_user_iff username name
  | serviceAccount name => exact iff_of_true (categorize_service name) trivial
  | server address => exact categorize_server_iff address
  | authority stem =>
      have hinfra : stem ∈ infraNames := by
        have hstem : stem ∈ Source.authorityStems := by simpa [Source.accepted] using haccepted
        revert hstem
        simp only [Source.authorityStems, infraNames, List.mem_cons, List.not_mem_nil, or_false]
        tauto
      refine iff_of_true ?_ trivial
      change categorizeCert (stem ++ ".pem") = .infrastructure
      rw [categorizeCert_pem, if_pos hinfra]

/-- Where the names give the origins away, the monitor reports on all certificates but those of
users. -/
theorem monitored_of_telling {sources : List Source}
    (haccepted : ∀ source ∈ sources, source.accepted = true)
    (htelling : ∀ source ∈ sources, source.Telling) :
    monitored (sources.map Source.filename) =
      (sources.filter fun source => source.category ≠ .user).map
        fun source => (source.filename, source.category) := by
  have hitems : (sources.map Source.filename).map
      (fun filename => (filename, categorizeCert filename)) =
        sources.map fun source => (source.filename, source.category) := by
    rw [List.map_map]
    apply List.map_congr_left
    intro source hsource
    exact congrArg (Prod.mk source.filename)
      ((categorizeCert_iff (haccepted source hsource)).mpr (htelling source hsource))
  rw [monitored, hitems, List.filter_map]
  rfl

/-- A user whose name has a dot is taken for a server, and a server without one for a user. -/
theorem categorizeCert_misled :
    (Source.user "kim.lee" "tablet").accepted = true ∧
      categorizeCert (Source.user "kim.lee" "tablet").filename = .infrastructure ∧
      (Source.server "takbox").accepted = true ∧
      categorizeCert (Source.server "takbox").filename = .user := by
  decide +kernel

theorem categorizeCert_kim :
    categorizeCert (Source.user "kim" "tablet").filename = .user := by
  have htelling : (Source.user "kim" "tablet").Telling := by
    refine ⟨?_, ?_, ?_, ?_⟩ <;> decide +kernel
  have haccepted : (Source.user "kim" "tablet").accepted = true := by decide +kernel
  exact (categorizeCert_iff haccepted).mpr htelling

end FastTAK.Categories
