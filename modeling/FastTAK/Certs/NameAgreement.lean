import FastTAK.Certs.Naming

/-!
# Names that pass one validator after the other

A name is checked where an account or a certificate is asked for, and again under the stem of its
files by every operation that works on them.  The first checks leave two gaps: a final line feed,
and the length of the stem.
-/

namespace FastTAK.Naming

/-! ## What is asked for -/

/-- An account of `CreateUserRequest`, a certificate of such an account by `GenerateCertRequest`,
or an account of `CreateServiceAccountRequest`. -/
inductive NameRequest where
  | user (username : String)
  | cert (username name : String)
  | service (name : String)
  deriving DecidableEq, Repr

namespace NameRequest

/-- The validators of the requests accept. -/
def accepted : NameRequest → Bool
  | user username => acceptsUsername username
  | cert username name => acceptsUsername username && acceptsCertName name
  | service name => acceptsServiceName name

/-- The names that were given. -/
def names : NameRequest → List String
  | user username => [username]
  | cert username name => [username, name]
  | service name => [name]

/-- The account, as LLDAP knows it. -/
def account : NameRequest → String
  | user username | cert username _ => username
  | service name => serviceUsername name

/-- What the files are called, up to their suffix; a user alone has none. -/
def stem : NameRequest → Option String
  | user _ => none
  | cert username name => some (userStem username name)
  | service name => some (serviceUsername name)

/-- The value that `cn_override` is validated with. -/
def cnOverride : NameRequest → Option String
  | cert username _ => some username
  | user _ | service _ => none

end NameRequest

/-- The operations on an account or a certificate that validate names. -/
inductive Operation where
  | generateClientCert
  | writeNoderedPems
  | removeNoderedPems
  | revokeCertsOnDiskForUser
  | revokeCertByName
  | downloadUserCert
  deriving DecidableEq, Repr

/-- The operation validates what it is given for the request and goes on. -/
def Operation.accepts : Operation → NameRequest → Bool
  | generateClientCert, r =>
      r.stem.all (validateName · = none) && r.cnOverride.all (validateName · = none)
  | writeNoderedPems, .service name | removeNoderedPems, .service name =>
      validateName (serviceUsername name) = none
  | writeNoderedPems, _ | removeNoderedPems, _ => true
  | revokeCertsOnDiskForUser, r => validateName r.account = none
  | revokeCertByName, .cert username name => validateName (userStem username name) = none
  | revokeCertByName, _ => true
  | downloadUserCert, .cert _ name => matchesName name
  | downloadUserCert, _ => true

/-- The text consists only of `[A-Za-z0-9._-]`. -/
def Plain (text : String) : Prop := ∀ c ∈ text.toList, isNameChar c = true

/-- The names are plain, and nothing that comes later rejects them. -/
structure Agrees (r : NameRequest) : Prop where
  plain : ∀ name ∈ r.names, Plain name
  stem : ∀ stem ∈ r.stem, validateName stem = none
  operations : ∀ operation : Operation, operation.accepts r = true

/-! ## Final line feeds -/

def endsInFeed (text : String) : Bool := text.toList.getLast? == some '\n'

theorem not_isNameChar_feed : isNameChar '\n' = false := by decide

/-- A name that matches is plain unless it ends in a line feed. -/
theorem plain_iff_of_matchesName {name : String} (hmatches : matchesName name = true) :
    Plain name ↔ endsInFeed name = false := by
  obtain ⟨core, -, hcore, hname⟩ := (matchesName_iff name).mp hmatches
  rw [Plain, endsInFeed]
  rcases hname with hname | hname
  · rw [hname]
    refine iff_of_true hcore ?_
    rw [beq_eq_false_iff_ne]
    intro hlast
    have hfeed := hcore _ (List.mem_of_getLast? hlast)
    rw [not_isNameChar_feed] at hfeed
    cases hfeed
  · rw [hname]
    apply iff_of_false
    · intro hplain
      have hfeed := hplain '\n' (by simp)
      rw [not_isNameChar_feed] at hfeed
      cases hfeed
    · simp

theorem matchesName_of_plain {name : String} (hne : name ≠ "") (hplain : Plain name) :
    matchesName name = true := by
  rw [matchesName_iff]
  refine ⟨name.toList, ?_, hplain, Or.inl rfl⟩
  simpa using hne

theorem Plain.append {left right : String} (hleft : Plain left) (hright : Plain right) :
    Plain (left ++ right) := by
  intro c hc
  rw [String.toList_append] at hc
  exact (List.mem_append.mp hc).elim (hleft c) (hright c)

theorem plain_hyphen : Plain "-" := by
  intro c hc
  obtain rfl : c = '-' := by simpa using hc
  decide

theorem plain_svc : Plain "svc_" := by
  intro c hc
  have hall : "svc_".toList.all isNameChar = true := by decide
  exact List.all_eq_true.mp hall c hc

/-- A name that passes the pattern is not empty. -/
theorem ne_empty_of_matchesName {name : String} (hmatches : matchesName name = true) :
    name ≠ "" := by
  rintro rfl
  revert hmatches
  decide

theorem length_userStem (username name : String) :
    (userStem username name).length = username.length + 1 + name.length := by
  rw [userStem, String.length_append, String.length_append]
  rfl

/-! ## Requests one by one -/

/-- A plain text that is short enough passes `_validate_name`. -/
theorem validateName_of_plain {text : String} (hne : text ≠ "") (hplain : Plain text)
    (hlength : text.length ≤ 64) : validateName text = none :=
  (validateName_eq_none_iff text).mpr ⟨matchesName_of_plain hne hplain, hlength⟩

theorem length_of_validateName {text : String} (hvalid : validateName text = none) :
    text.length ≤ 64 := ((validateName_eq_none_iff text).mp hvalid).2

theorem validateName_of_acceptsUsername {username : String}
    (haccepted : acceptsUsername username = true) : validateName username = none := by
  rw [validateName_eq_none_iff]
  simpa [acceptsUsername] using haccepted

theorem ne_empty_userStem (username name : String) : userStem username name ≠ "" := by
  intro h
  have hlength := congrArg String.length h
  rw [length_userStem] at hlength
  simp at hlength

theorem agrees_user_iff {username : String} (haccepted : acceptsUsername username = true) :
    Agrees (.user username) ↔ endsInFeed username = false := by
  have hvalid := validateName_of_acceptsUsername haccepted
  have hmatches := ((validateName_eq_none_iff username).mp hvalid).1
  rw [← plain_iff_of_matchesName hmatches]
  constructor
  · exact fun h => h.plain username List.mem_cons_self
  · intro hplain
    refine ⟨?_, by simp [NameRequest.stem], ?_⟩
    · intro name hname
      rwa [List.mem_singleton.mp hname]
    · intro operation
      cases operation <;>
        simp [Operation.accepts, NameRequest.stem, NameRequest.cnOverride, NameRequest.account,
          hvalid]

theorem agrees_cert_iff {username name : String} (husername : acceptsUsername username = true)
    (hname : acceptsCertName name = true) :
    Agrees (.cert username name) ↔ endsInFeed username = false ∧ endsInFeed name = false ∧
      (userStem username name).length ≤ 64 := by
  have hvalid := validateName_of_acceptsUsername husername
  have huser := ((validateName_eq_none_iff username).mp hvalid).1
  have hmatches : matchesName name = true := by
    rw [acceptsCertName, Bool.and_eq_true] at hname
    exact hname.2
  rw [← plain_iff_of_matchesName huser, ← plain_iff_of_matchesName hmatches]
  constructor
  · intro h
    refine ⟨h.plain username (by simp [NameRequest.names]),
      h.plain name (by simp [NameRequest.names]), ?_⟩
    exact length_of_validateName (h.stem _ rfl)
  · intro h
    obtain ⟨hplain, hplainName, hlength⟩ := h
    have hstem : validateName (userStem username name) = none :=
      validateName_of_plain (ne_empty_userStem username name)
        ((hplain.append plain_hyphen).append hplainName) hlength
    refine ⟨?_, ?_, ?_⟩
    · intro other hother
      simp only [NameRequest.names, List.mem_cons, List.not_mem_nil, or_false] at hother
      exact hother.elim (fun h => h ▸ hplain) fun h => h ▸ hplainName
    · intro stem hsome
      rw [← Option.some.inj hsome]
      exact hstem
    · intro operation
      cases operation <;>
        simp [Operation.accepts, NameRequest.stem, NameRequest.cnOverride, NameRequest.account,
          hvalid, hstem, hmatches]

/-- Whether the prefix was given or not, the account is called `svc_` and a name that matches. -/
theorem exists_raw {name : String} (haccepted : acceptsServiceName name = true) :
    ∃ raw, matchesName raw = true ∧ serviceUsername name = "svc_" ++ raw ∧
      (name = raw ∨ name = "svc_" ++ raw) := by
  rw [acceptsServiceName, Bool.and_eq_true] at haccepted
  have hmatches := haccepted.1
  rw [serviceUsername]
  split_ifs at hmatches ⊢ with hsvc
  · obtain ⟨rest, hrest⟩ := hsvc
    have hname : name = "svc_" ++ String.ofList rest := by
      rw [← String.toList_inj, String.toList_append, ← hrest]
      exact congrArg ("svc_".toList ++ ·) String.toList_ofList.symm
    have hdrop : name.toList.drop 4 = rest := by
      rw [← hrest]
      rfl
    rw [hdrop] at hmatches
    exact ⟨String.ofList rest, hmatches, hname, Or.inr hname⟩
  · exact ⟨name, hmatches, rfl, Or.inl rfl⟩

theorem endsInFeed_append {left right : String} (hne : right ≠ "") :
    endsInFeed (left ++ right) = endsInFeed right := by
  have hnil : right.toList ≠ [] := by simpa using hne
  rw [endsInFeed, endsInFeed, String.toList_append, List.getLast?_append_of_ne_nil _ hnil]

theorem agrees_service_iff {name : String} (haccepted : acceptsServiceName name = true) :
    Agrees (.service name) ↔
      endsInFeed name = false ∧ (serviceUsername name).length ≤ 64 := by
  obtain ⟨raw, hmatches, haccount, hname⟩ := exists_raw haccepted
  have hne := ne_empty_of_matchesName hmatches
  have hfeed : endsInFeed name = endsInFeed raw := by
    rcases hname with rfl | rfl
    · rfl
    · exact endsInFeed_append hne
  rw [hfeed, ← plain_iff_of_matchesName hmatches]
  constructor
  · intro h
    refine ⟨?_, length_of_validateName (h.stem _ rfl)⟩
    have hplain := h.plain name List.mem_cons_self
    rcases hname with rfl | rfl
    · exact hplain
    · intro c hc
      exact hplain c (by simp [hc])
  · intro h
    obtain ⟨hplain, hlength⟩ := h
    have hstem : validateName (serviceUsername name) = none := by
      apply validateName_of_plain _ _ hlength
      · rw [haccount]
        intro hempty
        have hnil := congrArg String.toList hempty
        simp at hnil
      · rw [haccount]
        exact plain_svc.append hplain
    refine ⟨?_, ?_, ?_⟩
    · intro other hother
      rw [List.mem_singleton.mp hother]
      rcases hname with rfl | rfl
      · exact hplain
      · exact plain_svc.append hplain
    · intro stem hsome
      rw [← Option.some.inj hsome]
      exact hstem
    · intro operation
      cases operation <;>
        simp [Operation.accepts, NameRequest.stem, NameRequest.cnOverride, NameRequest.account,
          hstem]

/-- Names that the requests accept are plain and accepted by everything that comes later exactly
if none ends in a line feed and the stem has at most 64 characters. -/
theorem agrees_iff {r : NameRequest} (haccepted : r.accepted = true) :
    Agrees r ↔ (∀ name ∈ r.names, endsInFeed name = false) ∧ ∀ stem ∈ r.stem, stem.length ≤ 64 := by
  cases r with
  | user username =>
      rw [agrees_user_iff haccepted]
      simp [NameRequest.names, NameRequest.stem]
  | cert username name =>
      rw [NameRequest.accepted, Bool.and_eq_true] at haccepted
      rw [agrees_cert_iff haccepted.1 haccepted.2]
      simp [NameRequest.names, NameRequest.stem, and_assoc]
  | service name =>
      rw [agrees_service_iff haccepted]
      simp [NameRequest.names, NameRequest.stem]

/-- A name of 64 letters is accepted, but its account cannot get a certificate. -/
theorem not_agrees_long :
    (NameRequest.service (String.ofList (List.replicate 64 'a'))).accepted = true ∧
      ¬ Agrees (.service (String.ofList (List.replicate 64 'a'))) := by
  refine ⟨by decide +kernel, ?_⟩
  intro h
  have hstem := h.stem _ rfl
  revert hstem
  decide +kernel

theorem agrees_tablet : Agrees (.cert "kim" "tablet") :=
  (agrees_iff (by decide +kernel)).mpr (by decide +kernel)

end FastTAK.Naming
