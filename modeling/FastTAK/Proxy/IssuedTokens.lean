import FastTAK.Certs.Naming
import FastTAK.Proxy.TokenApi

/-!
# Tokens and the names they are issued to

`POST /tokens` stores a user name as it is given, and a bind reads it out of a lower-cased DN.
A token works for its user where the two names meet.
-/

namespace FastTAK.Proxy

open FastTAK.Bind FastTAK.Naming

/-- The DN that a client of the user binds with: `'uid=' + u + ',ou=people,' + baseDN`. -/
def userDN (username : String) (baseDN : GoString) : GoString :=
  lit "uid=" ++ lit username ++ Rune.char ',' :: (lit "ou=people" ++ Rune.char ',' :: baseDN)

/-- Validated user names hold no comma. -/
theorem comma_not_mem_of_acceptsUsername {username : String}
    (haccepts : acceptsUsername username = true) : ',' ∉ username.toList := by
  rw [acceptsUsername, Bool.and_eq_true] at haccepts
  obtain ⟨core, -, hcore, hname⟩ := (matchesName_iff username).mp haccepts.1
  have hcomma : ',' ∉ core := by
    intro hmem
    have hchar := hcore ',' hmem
    revert hchar
    decide
  rcases hname with hname | hname
  · rw [hname]
    exact hcomma
  · rw [hname]
    simpa using hcomma

/-- The user name that a bind with the DN looks the token up under. -/
theorem extractUsername_userDN {unicode : Unicode} {username : String} (baseDN : GoString)
    (hcomma : ',' ∉ username.toList) :
    extractUsername unicode (userDN username baseDN) baseDN = toLower unicode (lit username) := by
  have hrunes : ∀ rune ∈ lit username, (!(rune == Rune.char ',')) = true := by
    intro rune hrune
    obtain ⟨c, hc, rfl⟩ := List.mem_map.mp hrune
    have hne : c ≠ ',' := fun h => hcomma (h ▸ hc)
    simpa using hne
  rw [userDN, extractUsername_append, List.takeWhile_eq_self_iff.mpr hrunes]

/-- A bind succeeds by the token store or by LLDAP. -/
theorem handleBind_succeeds_iff {unicode : Unicode} {baseDN bindDN password : GoString}
    {backend : Backend} :
    (∃ checked, handleBind unicode baseDN backend bindDN password = .ok (some checked)) ↔
      (extractUsername unicode bindDN baseDN ≠ [] ∧ password ≠ [] ∧
          backend.verify (extractUsername unicode bindDN baseDN) password) ∨
        (backend.dials ∧ backend.accepts bindDN password) := by
  rw [handleBind]
  split_ifs with htoken hdials haccepts
  · exact iff_of_true ⟨_, rfl⟩ (Or.inl htoken)
  · exact iff_of_true ⟨_, rfl⟩ (Or.inr ⟨hdials, haccepts⟩)
  · apply iff_of_false (by simp)
    exact fun h => h.elim htoken fun h => haccepts h.2
  · apply iff_of_false (by simp)
    exact fun h => h.elim htoken fun h => hdials h.1

/-- A token that is not expired or consumed lets its user bind exactly if the user name does not
change in lower case, or LLDAP takes the token for the password. -/
theorem issued_token_binds_iff {unicode : Unicode} {hash : GoString → String} {api : TokensApi}
    {req : CreateTokenRequest} {creation : Creation} {answered : ℤ} {rows rest : List TokenRow}
    {response : CreateTokenResponse} {row : TokenRow}
    (hcreate : api.handleCreate unicode hash (some req) creation answered rows =
      (.ok response, row :: rest))
    (hname : acceptsUsername req.username ∨ ',' ∉ req.username.toList) (baseDN : GoString)
    {table : List TokenRow} (hkept : row ∈ table)
    (hothers : ∀ other ∈ table, other.tokenHash = hash (lit response.token) → other = row)
    {now : ℤ} (hlive : row.isLive now) (dials : Bool) (accepts : GoString → GoString → Bool) :
    (∃ checked, handleBind unicode baseDN
        ⟨fun username password => (TokenStore.verify hash username password now table).1,
          dials, accepts⟩ (userDN req.username baseDN) (lit response.token) =
      .ok (some checked)) ↔
      toLower unicode (lit req.username) = lit req.username ∨
        (dials ∧ accepts (userDN req.username baseDN) (lit response.token)) := by
  obtain ⟨husername, hhash, -, -, hlength⟩ := handleCreate_eq_ok hcreate
  have hcomma : ',' ∉ req.username.toList :=
    hname.elim comma_not_mem_of_acceptsUsername id
  have htoken : lit response.token ≠ [] := by
    intro hnil
    rw [hnil] at hlength
    cases hlength
  have hsome : toLower unicode (lit req.username) ≠ [] := by
    have hne : lit req.username ≠ [] := username_ne_nil hcreate
    simpa [toLower] using hne
  have hverify : (TokenStore.verify hash (toLower unicode (lit req.username))
      (lit response.token) now table).1 = true ↔
        toLower unicode (lit req.username) = lit req.username := by
    rw [verify_iff hkept hhash hothers, husername, eq_comm]
    exact and_iff_left hlive
  rw [handleBind_succeeds_iff, extractUsername_userDN baseDN hcomma]
  dsimp only
  rw [hverify]
  simp [hsome, htoken]

/-! ## Upper case -/

def kimsUpper : Except HttpError CreateTokenResponse × List TokenRow :=
  TokensApi.handleCreate asciiTable zeroTokenHash ⟨15, true⟩
    (some ⟨"Kim", none, none⟩) (zeroCreation 1000) 1000 []

/-- Of a user whose name has a capital letter the token is refused. -/
theorem kimsUpper_refused :
    acceptsUsername "Kim" = true ∧ handleBind asciiTable (lit "dc=takldap")
      ⟨fun username password =>
          (TokenStore.verify zeroTokenHash username password 1000 kimsUpper.2).1,
        true, fun _ _ => false⟩ (userDN "Kim" (lit "dc=takldap")) (lit zeroToken) = .ok none := by
  constructor
  · decide +kernel
  · decide +kernel

theorem kimsToken_binds :
    ∃ checked, handleBind asciiTable (lit "DC=takldap")
      ⟨fun username password =>
          (TokenStore.verify zeroTokenHash username password 1000 [kimsRow]).1,
        true, fun _ _ => false⟩ (userDN "kim" (lit "DC=takldap")) (lit kimsResponse.token) =
        .ok (some checked) := by
  have hcreate : TokensApi.handleCreate asciiTable zeroTokenHash ⟨15, true⟩
      (some ⟨"kim", some 15, some false⟩) (zeroCreation 1000) 1000 [] =
        (.ok kimsResponse, [kimsRow]) := rfl
  have hothers : ∀ other ∈ [kimsRow],
      other.tokenHash = zeroTokenHash (lit kimsResponse.token) → other = kimsRow := by
    intro other hmem _
    exact List.mem_singleton.mp hmem
  exact (issued_token_binds_iff hcreate (Or.inl (by decide +kernel)) (lit "DC=takldap")
    List.mem_cons_self hothers (by decide) true fun _ _ => false).mpr
      (Or.inl (by decide +kernel))

end FastTAK.Proxy
