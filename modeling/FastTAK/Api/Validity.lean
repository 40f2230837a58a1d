import FastTAK.Api.Users
import FastTAK.Base.Endings
import Mathlib.Tactic.Linarith

/-!
# How long a generated certificate is valid

The seconds that a user has left become whole days, at least one and at most a year.  With
less than a day left the certificate outlives its user.
-/

namespace FastTAK.Api

open FastTAK.Effect FastTAK.Effect.Prog FastTAK.Certs FastTAK.Identity FastTAK.Naming

variable {settings : Settings}

/-! ## Days -/

theorem validityDaysUntil_bounds {expires : Option ℤ} {now : ℚ} {days : ℕ}
    (h : validityDaysUntil expires now = .ok days) : 1 ≤ days ∧ days ≤ 365 := by
  unfold validityDaysUntil at h
  cases expires with
  | none =>
      cases h
      exact ⟨by decide, le_rfl⟩
  | some e =>
      dsimp only at h
      split_ifs at h with hover
      cases h
      omega

/-- The days do not reach past the expiry exactly if a whole day is left. -/
theorem validityDaysUntil_le_iff {e : ℤ} {now : ℚ} {days : ℕ}
    (h : validityDaysUntil (some e) now = .ok days) :
    now + days * 86400 ≤ e ↔ now + 86400 ≤ e := by
  have hbounds := validityDaysUntil_bounds h
  unfold validityDaysUntil at h
  dsimp only at h
  split_ifs at h with hover
  have hleft : (0 : ℚ) ≤ (e - now) / 86400 := by
    apply div_nonneg _ (by norm_num)
    linarith
  rw [pyTrunc, if_pos hleft] at h
  have hfloor : ((⌊((e : ℚ) - now) / 86400⌋ : ℤ) : ℚ) ≤ (e - now) / 86400 := Int.floor_le _
  have hwhole : ((⌊((e : ℚ) - now) / 86400⌋ : ℤ) : ℚ) * 86400 ≤ e - now := by
    rwa [le_div_iff₀ (by norm_num)] at hfloor
  constructor
  · intro hwithin
    have hone : (1 : ℚ) ≤ days := by exact_mod_cast hbounds.1
    linarith
  · intro hday
    -- a whole day is left, so the lower bound of one day does not matter
    have hpositive : 1 ≤ ⌊((e : ℚ) - now) / 86400⌋ := by
      apply Int.le_floor.mpr
      rw [Int.cast_one, le_div_iff₀ (by norm_num)]
      linarith
    have hdays : (days : ℤ) ≤ ⌊((e : ℚ) - now) / 86400⌋ := by
      have hvalue := Except.ok.inj h
      omega
    have hcast : (days : ℚ) ≤ ((⌊((e : ℚ) - now) / 86400⌋ : ℤ) : ℚ) := by exact_mod_cast hdays
    linarith

/-! ## The request -/

section Request

variable {userId : ℤ} {name : String} {w w' : World settings} {response : Response}

/-- A request that succeeded has read the user and the clock, and answers with the days it
made of them. -/
theorem generateUserCert_eq_ok
    (h : (generateUserCert userId name).run w = (.ok response, w')) :
    ∃ user w₁ days, (requireUser userId).run w = (.ok user, w₁) ∧
      validityDaysUntil user.expires w₁.identity.now = .ok days ∧
      response = .generated name (userStem user.username name ++ ".p12") days := by
  unfold generateUserCert at h
  split_ifs at h with haccepts
  · obtain ⟨user, w₁, huser, h⟩ := run_bind_eq_ok h
    split_ifs at h with hactive
    · obtain ⟨taken, w₂, htaken, h⟩ := run_bind_eq_ok h
      have hread : w₁ = w₂ := congrArg Prod.snd htaken
      split_ifs at h with hexists
      · cases h
      · obtain ⟨now, w₃, hnow, h⟩ := run_bind_eq_ok h
        cases hnow
        subst hread
        refine ⟨user, w₁, ?_⟩
        cases hdays : validityDaysUntil user.expires w₁.identity.now with
        | error e =>
            rw [hdays] at h
            cases h
        | ok days =>
            rw [hdays] at h
            dsimp only at h
            obtain ⟨result, w₄, _, h⟩ := run_bind_eq_ok h
            split_ifs at h with hresult
            · cases h
              exact ⟨days, huser, rfl, rfl⟩
            · cases h
    · cases h
  · cases h

/-- The certificate of a request that succeeded is valid for a day to a year, and within the
lifetime of the user exactly if a whole day of it was left. -/
theorem generated_within_lifetime_iff
    (h : (generateUserCert userId name).run w = (.ok response, w')) :
    ∃ user w₁ days, (requireUser userId).run w = (.ok user, w₁) ∧
      response = .generated name (userStem user.username name ++ ".p12") days ∧
      1 ≤ days ∧ days ≤ 365 ∧
      ∀ e ∈ user.expires,
        w₁.identity.now + days * 86400 ≤ e ↔ w₁.identity.now + 86400 ≤ e := by
  obtain ⟨user, w₁, days, huser, hdays, hresponse⟩ := generateUserCert_eq_ok h
  obtain ⟨hleast, hmost⟩ := validityDaysUntil_bounds hdays
  refine ⟨user, w₁, days, huser, hresponse, hleast, hmost, ?_⟩
  intro e he
  rw [Option.mem_def.mp he] at hdays
  exact validityDaysUntil_le_iff hdays

end Request

/-- A service at time 1000 with a certificate authority and a user whose lifetime is over at
`expires`. -/
def lifetimeWorld (expires : ℤ) : World Settings.small where
  identity := .start (Directory.updateUser "lee" none
    (buildCustomAttributes ⟨some expires, some false, none, some "user"⟩)
    (Directory.createUser "lee" "Lee" .empty).2).2 1000
  pki := { (Pki.empty.writeFile "ca.pem" (.certificate ⟨1, "ca", 3650⟩) .system).writeFile
    "ca-do-not-share.key" (.key 1) .system with entropy := [7, 9] }
  revocations := []

/-- The request for a certificate of this user. -/
def generateForLee : Handler Settings.small Response :=
  generateUserCert (Settings.small.numericId "lee") "phone"

/-- The days of a certificate in an answer. -/
def Response.days : Response → Option ℕ
  | .generated _ _ days => some days
  | _ => none

/-- With two days and a bit left, the certificate ends before the user does. -/
theorem generated_within_lifetime_twoDays :
    ∃ response user w₁ days, (generateForLee.run (lifetimeWorld 200000)).1 = .ok response ∧
      (requireUser (Settings.small.numericId "lee")).run (lifetimeWorld 200000) =
        (.ok user, w₁) ∧
      response = .generated "phone" (userStem user.username "phone" ++ ".p12") days ∧
      1 ≤ days ∧ days ≤ 365 ∧
      ∀ e ∈ user.expires,
        w₁.identity.now + days * 86400 ≤ e ↔ w₁.identity.now + 86400 ≤ e := by
  have hdays : (generateForLee.run (lifetimeWorld 200000)).1.toOption.bind Response.days =
      some 2 := by decide +kernel
  cases hrun : generateForLee.run (lifetimeWorld 200000) with
  | mk result w' =>
      cases result with
      | error e =>
          rw [hrun] at hdays
          cases hdays
      | ok response =>
          obtain ⟨user, w₁, days, hall⟩ := generated_within_lifetime_iff hrun
          exact ⟨response, user, w₁, days, rfl, hall⟩

/-- With less than ten minutes left, the certificate is valid for a day. -/
theorem certificate_outlives_user :
    (generateForLee.run (lifetimeWorld 1500)).1.toOption.bind Response.days = some 1 ∧
      ((requireUser (Settings.small.numericId "lee")).run (lifetimeWorld 1500)).1.toOption.map
        UserRecord.expires = some (some 1500) ∧
      (lifetimeWorld 1500).identity.now = 1000 ∧
      ¬ ((1000 : ℚ) + (1 : ℕ) * 86400 ≤ (1500 : ℤ)) := by
  refine ⟨by decide +kernel, by decide +kernel, rfl, by norm_num⟩

end FastTAK.Api
