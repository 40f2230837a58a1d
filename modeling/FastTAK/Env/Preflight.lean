import FastTAK.Env.Rewriters
import FastTAK.Env.Secrets

/-!
# Preflight

`start.sh` provisions the secrets and has `check-env.sh` look at the file before it starts
anything; `start.sh doctor` only looks.
-/

namespace FastTAK.Env

/-! ## The rules -/

def webadminPassword : Key :=
  ⟨"TAK_WEBADMIN_PASSWORD".toList, by decide, List.all_eq_true.mp (by decide)⟩

def defaultWebadminPassword : List Char := "FastTAK-Admin-1!".toList

/-- The rules of `check-env.sh`, in the order in which it tries them. -/
inductive Rule
  | serverAddress
  | deployMode
  | webadminPassword
  | tokensApiSecret
  | takVersionSet
  | takVersionForm
  | takVersionFloor
deriving DecidableEq

def rules : List Rule :=
  [.serverAddress, .deployMode, .webadminPassword, .tokensApiSecret, .takVersionSet,
    .takVersionForm, .takVersionFloor]

/-- The key that the rule is about. -/
def Rule.key : Rule → Key
  | serverAddress => Env.serverAddress
  | deployMode => Env.deployMode
  | webadminPassword => Env.webadminPassword
  | tokensApiSecret => Env.tokensApiSecret
  | takVersionSet | takVersionForm | takVersionFloor => takVersion

/-- A value that the rule does not let pass. -/
def Rule.rejects (value : List Char) : Rule → Bool
  | serverAddress => value = [] || value = "tak.example.com".toList
  | deployMode => value ≠ [] && value ≠ "direct".toList && value ≠ "subdomain".toList
  | webadminPassword => value = defaultWebadminPassword
  | tokensApiSecret => value = []
  | takVersionSet => value = []
  | takVersionForm => (majorMinor value).isNone
  | takVersionFloor => !meetsFloor value

def Rule.violated (file : List Char) (rule : Rule) : Bool := rule.rejects (envGet file rule.key)

/-- What is wrong, after the key. -/
def Rule.complaint (value path : List Char) : Rule → List Char
  | serverAddress => " is unset or still the placeholder in ".toList ++ path ++ ['.']
  | deployMode => '=' :: value ++ " in ".toList ++ path ++ " is not a known deployment mode.".toList
  | webadminPassword => " is set to the documented default in ".toList ++ path ++ ['.']
  | tokensApiSecret => " is unset or empty in ".toList ++ path ++ ['.']
  | takVersionSet => " is unset or empty in ".toList ++ path ++ ['.']
  | takVersionForm => '=' :: value ++ " in ".toList ++ path ++ " could not be parsed.".toList
  | takVersionFloor =>
      '=' :: value ++ " in ".toList ++ path ++ " is below the supported floor of 5.8.".toList

/-- The first line of the error. -/
def Rule.headline (path file : List Char) (rule : Rule) : List Char :=
  "ERROR: ".toList ++ rule.key.chars ++ rule.complaint (envGet file rule.key) path

/-- `check-env.sh`: the first rule that is violated. -/
def checkEnv (file : List Char) : Option Rule := rules.find? (Rule.violated file)

/-! ## The launch -/

inductive Launch
  | unprovisioned (file : List Char)
  | refused (headline file : List Char)
  | passed (file : List Char)
deriving DecidableEq

def judged (path file : List Char) : Launch :=
  match checkEnv file with
  | some rule => .refused (rule.headline path file) file
  | none => .passed file

/-- `start.sh` up to its preflight, with `doctor` or without. -/
def preflight (tools : Tools) (doctor : Bool) (path file : List Char) : Launch :=
  if doctor then judged path file
  else
    let outcome := ensureSecrets tools file
    if outcome.ok then judged path outcome.file else .unprovisioned outcome.file

/-! ## What passes -/

/-- The number that digits stand for. -/
def numeral (digits : List Char) : ℕ :=
  digits.foldl (fun n c => 10 * n + (c.toNat - '0'.toNat)) 0

/-- A file with which the stack can be started. -/
structure Startable (file : List Char) : Prop where
  address : envGet file serverAddress ≠ [] ∧ envGet file serverAddress ≠ "tak.example.com".toList
  mode : envGet file deployMode ∈ [[], "direct".toList, "subdomain".toList]
  password : envGet file webadminPassword ≠ defaultWebadminPassword
  secrets : ∀ secret ∈ secretKeys, envGet file secret.1 ≠ []
  version : ∃ major minor, majorMinor (envGet file takVersion) = some (major, minor) ∧
    (5 < numeral major ∨ numeral major = 5 ∧ 8 ≤ numeral minor)

/-- Rows that are the same where they count. -/
theorem filter_eq_of_rows {α : Type} {p : α → Bool} {xs ys : List α}
    (hlength : ys.length = xs.length)
    (h : ∀ (i : ℕ) x y, xs[i]? = some x → ys[i]? = some y → p y = p x ∧ (p x = true → y = x)) :
    ys.filter p = xs.filter p := by
  induction xs generalizing ys with
  | nil => rw [List.eq_nil_of_length_eq_zero hlength]
  | cons x xs ih =>
      cases ys with
      | nil => cases hlength
      | cons y ys =>
          obtain ⟨hp, hsame⟩ := h 0 x y rfl rfl
          have hrest := ih (Nat.succ.inj hlength) fun i => h (i + 1)
          cases hx : p x with
          | true =>
              rw [List.filter_cons_of_pos (hp.trans hx), List.filter_cons_of_pos hx, hrest,
                hsame hx]
          | false =>
              have hy := hp.trans hx
              rw [List.filter_cons_of_neg (by simp [hy]), List.filter_cons_of_neg (by simp [hx]),
                hrest]

section Preflight

variable {tools : Tools} {file file' path version digits : List Char} {key : Key} {rule : Rule}

theorem operand_eq (digits : List Char) :
    operand digits = if numeral digits < 2 ^ 63 then some (numeral digits) else none := rfl

/-- A number that `[` does not take is large. -/
theorem operand_cases (digits : List Char) :
    operand digits = some (numeral digits) ∨ operand digits = none ∧ 5 < numeral digits := by
  rw [operand_eq]
  split_ifs with hsmall
  · exact Or.inl rfl
  · right
    have hlarge := not_lt.mp hsmall
    exact ⟨rfl, lt_of_lt_of_le (by norm_num) hlarge⟩

/-- A version that meets the floor is at least 5.8. -/
theorem meetsFloor_version (h : meetsFloor version = true) :
    ∃ major minor, majorMinor version = some (major, minor) ∧
      (5 < numeral major ∨ numeral major = 5 ∧ 8 ≤ numeral minor) := by
  rw [meetsFloor] at h
  cases hparsed : majorMinor version with
  | none =>
      rw [hparsed] at h
      cases h
  | some pair =>
      rw [hparsed] at h
      dsimp only at h
      refine ⟨pair.1, pair.2, rfl, ?_⟩
      rcases operand_cases pair.1 with hmajor | ⟨-, hlarge⟩
      · rw [hmajor, Option.any_some, Option.any_some] at h
        split_ifs at h with habove hbelow
        · exact Or.inl (of_decide_eq_true habove)
        · have hfive : numeral pair.1 = 5 := by
            rw [decide_eq_true_iff] at habove hbelow
            omega
          right
          refine ⟨hfive, ?_⟩
          rcases operand_cases pair.2 with hminor | ⟨hminor, -⟩
          · rw [hminor, Option.any_some] at h
            exact of_decide_eq_true h
          · rw [hminor] at h
            cases h
      · exact Or.inl hlarge

/-- A version with numbers that `[` takes meets the floor from 5.8 on. -/
theorem meetsFloor_of_version {major minor : List Char}
    (hparsed : majorMinor version = some (major, minor)) (hmajor : numeral major < 2 ^ 63)
    (hminor : numeral minor < 2 ^ 63)
    (hfloor : 5 < numeral major ∨ numeral major = 5 ∧ 8 ≤ numeral minor) :
    meetsFloor version = true := by
  rw [meetsFloor, hparsed]
  dsimp only
  rw [operand_eq, if_pos hmajor, operand_eq, if_pos hminor]
  rcases hfloor with habove | ⟨hfive, height⟩
  · exact if_pos (decide_eq_true habove)
  · rw [hfive]
    exact decide_eq_true height

/-- Provisioning leaves what other keys read as, whether they have a value or not. -/
theorem Kept.other (h : Kept file file') (hkey : ∀ secret ∈ secretKeys, key ≠ secret.1) :
    envGet file' key = envGet file key := by
  have hlength : (records file).length ≤ (records file').length := by
    by_contra hshort
    have hlast := List.getElem?_eq_getElem (not_le.mp hshort)
    obtain ⟨row', hrow', -⟩ := h.rows _ _ hlast
    rw [List.getElem?_eq_none le_rfl] at hrow'
    cases hrow'
  have hrows : ((records file').take (records file).length).filter (assigns key) =
      (records file).filter (assigns key) := by
    apply filter_eq_of_rows
    · rw [List.length_take, min_eq_left hlength]
    · intro i row row' hrow hrow'
      obtain ⟨other, hother, hkeys, hsame⟩ := h.rows i row hrow
      have hi := (List.getElem?_eq_some_iff.mp hrow).1
      rw [List.getElem?_take_of_lt hi, hother] at hrow'
      obtain rfl := Option.some.inj hrow'
      refine ⟨Bool.eq_iff_iff.mpr (hkeys key), fun hassigns => hsame ?_⟩
      rintro ⟨secret, hsecret, -, ⟨found, hfound, hassigned⟩, -⟩
      obtain rfl := Option.some.inj (hrow.symm.trans hfound)
      exact hkey secret hsecret (assigns_unique hassigns hassigned)
  have hadded : ((records file').drop (records file).length).filter (assigns key) = [] := by
    rw [List.filter_eq_nil_iff]
    intro row hrow hassigns
    obtain ⟨i, hi⟩ := List.mem_iff_getElem?.mp hrow
    rw [List.getElem?_drop] at hi
    obtain ⟨⟨bytes, hsecret⟩, -⟩ := h.added _ row (Nat.le_add_right _ i) hi key hassigns
    exact hkey (key, bytes) hsecret rfl
  rw [envGet_eq_rowGet, envGet_eq_rowGet, rowGet, rowGet,
    ← List.take_append_drop (records file).length (records file'), List.filter_append, hrows,
    hadded, List.append_nil]

theorem violated_of_kept (h : Kept file file') (hrule : rule ≠ .tokensApiSecret) :
    rule.violated file' = rule.violated file := by
  have hother : ∀ secret ∈ secretKeys, rule.key.chars ≠ secret.1.chars := by
    cases rule with
    | tokensApiSecret => exact absurd rfl hrule
    | serverAddress => decide
    | deployMode => decide
    | webadminPassword => decide
    | takVersionSet => decide
    | takVersionForm => decide
    | takVersionFloor => decide
  rw [Rule.violated, Rule.violated, h.other]
  exact fun secret hsecret heq => hother secret hsecret (congrArg Key.chars heq)

theorem checkEnv_eq_none : checkEnv file = none ↔ ∀ rule : Rule, rule.violated file = false := by
  rw [checkEnv, List.find?_eq_none]
  constructor
  · intro h rule
    have hmem : rule ∈ rules := by cases rule <;> decide
    exact Bool.eq_false_iff.mpr (h rule hmem)
  · intro h rule _
    exact Bool.eq_false_iff.mp (h rule)

/-- What `check-env.sh` complains of after the secrets have been provisioned is what it complained
of before, except for a secret. -/
theorem checkEnv_ensureSecrets (hhex : tools.PrintsHex) (hok : (ensureSecrets tools file).ok) :
    checkEnv (ensureSecrets tools file).file =
      (rules.filter (· ≠ .tokensApiSecret)).find? (Rule.violated file) := by
  have hkept : Kept file (ensureSecrets tools file).file :=
    kept_provisionAll hhex (List.Subset.refl _)
  have hfilled : envGet (ensureSecrets tools file).file tokensApiSecret ≠ [] :=
    provisionAll_filled hhex (List.Subset.refl _) hok (tokensApiSecret, 32)
      (List.mem_of_getLast? rfl)
  rw [checkEnv, List.find?_filter]
  apply congrArg (rules.find? ·)
  funext rule
  by_cases hrule : rule = .tokensApiSecret
  · rw [hrule, Rule.violated, Rule.rejects, Rule.key, decide_eq_false hfilled]
    rfl
  · rw [violated_of_kept hkept hrule, decide_eq_true hrule]
    simp

theorem judged_passed (h : judged path file = .passed file') :
    file' = file ∧ checkEnv file = none := by
  rw [judged] at h
  cases hcheck : checkEnv file with
  | none =>
      rw [hcheck] at h
      exact ⟨(Launch.passed.inj h).symm, rfl⟩
  | some rule =>
      rw [hcheck] at h
      cases h

theorem judged_of_none (h : checkEnv file = none) : judged path file = .passed file := by
  rw [judged, h]

theorem startable_of_none (hfilled : ∀ secret ∈ secretKeys, envGet file secret.1 ≠ [])
    (h : checkEnv file = none) : Startable file := by
  have hpass := checkEnv_eq_none.mp h
  constructor
  · have haddress := hpass .serverAddress
    rw [Rule.violated, Rule.rejects, Rule.key, Bool.or_eq_false_iff] at haddress
    exact haddress.imp of_decide_eq_false of_decide_eq_false
  · have hmode := hpass .deployMode
    rw [Rule.violated, Rule.rejects, Rule.key, Bool.and_eq_false_iff, Bool.and_eq_false_iff]
      at hmode
    rw [List.mem_cons, List.mem_cons, List.mem_singleton, ← or_assoc]
    apply hmode.imp (fun h => h.imp ?_ ?_)
    · exact fun h => not_not.mp (of_decide_eq_false h)
    · exact fun h => not_not.mp (of_decide_eq_false h)
    · exact fun h => not_not.mp (of_decide_eq_false h)
  · exact of_decide_eq_false (hpass .webadminPassword)
  · exact hfilled
  · apply meetsFloor_version
    exact Bool.not_eq_eq_eq_not.mp (hpass .takVersionFloor)

/-- A startable file passes, unless its version has a number that `[` does not take. -/
theorem checkEnv_of_startable (h : Startable file)
    (hsmall : ∀ major minor, majorMinor (envGet file takVersion) = some (major, minor) →
      numeral major < 2 ^ 63 ∧ numeral minor < 2 ^ 63) : checkEnv file = none := by
  obtain ⟨major, minor, hparsed, hfloor⟩ := h.version
  obtain ⟨hmajor, hminor⟩ := hsmall major minor hparsed
  have hmeets := meetsFloor_of_version hparsed hmajor hminor hfloor
  have hset : envGet file takVersion ≠ [] := by
    intro hnil
    rw [hnil] at hmeets
    exact absurd hmeets (by decide)
  rw [checkEnv_eq_none]
  intro rule
  cases rule with
  | serverAddress =>
      rw [Rule.violated, Rule.rejects, Bool.or_eq_false_iff]
      exact h.address.imp decide_eq_false decide_eq_false
  | deployMode =>
      rw [Rule.violated, Rule.rejects, Rule.key]
      rcases List.mem_cons.mp h.mode with hmode | hmode
      · rw [hmode]
        rfl
      · rcases List.mem_cons.mp hmode with hmode | hmode
        · rw [hmode]
          rfl
        · rw [List.mem_singleton.mp hmode]
          rfl
  | webadminPassword => exact decide_eq_false h.password
  | tokensApiSecret =>
      exact decide_eq_false (h.secrets (tokensApiSecret, 32) (List.mem_of_getLast? rfl))
  | takVersionSet => exact decide_eq_false hset
  | takVersionForm =>
      rw [Rule.violated, Rule.rejects, Rule.key, hparsed]
      rfl
  | takVersionFloor =>
      rw [Rule.violated, Rule.rejects, Rule.key, hmeets]
      rfl

/-- A launch passes if the secrets can be provisioned and no rule but the one for a secret is
violated before.  The file it leaves is startable, has what the file had, and passes every later
launch without another change. -/
theorem preflight_passed_iff (tools : Tools) (hhex : tools.PrintsHex) (path file : List Char) :
    ((∃ file', preflight tools false path file = .passed file') ↔
      (ensureSecrets tools file).ok = true ∧
        ∀ rule : Rule, rule ≠ .tokensApiSecret → rule.violated file = false) ∧
    ∀ file', preflight tools false path file = .passed file' →
      Kept file file' ∧ Startable file' ∧
        ∀ tools' doctor, preflight tools' doctor path file' = .passed file' := by
  have hlaunch : preflight tools false path file =
      if (ensureSecrets tools file).ok then judged path (ensureSecrets tools file).file
      else .unprovisioned (ensureSecrets tools file).file := rfl
  rw [hlaunch]
  cases hok : (ensureSecrets tools file).ok with
  | false => simp
  | true =>
      have hfilled := provisionAll_filled hhex (List.Subset.refl _) hok
      simp only [if_true]
      constructor
      · have hnone : checkEnv (ensureSecrets tools file).file = none ↔
            ∀ rule : Rule, rule ≠ .tokensApiSecret → rule.violated file = false := by
          rw [checkEnv_ensureSecrets hhex hok, List.find?_eq_none]
          constructor
          · intro h rule hrule
            have hmem : rule ∈ rules := by cases rule <;> decide
            apply Bool.eq_false_iff.mpr
            exact h rule (List.mem_filter.mpr ⟨hmem, decide_eq_true hrule⟩)
          · intro h rule hrule
            have hne := of_decide_eq_true (List.mem_filter.mp hrule).2
            exact Bool.eq_false_iff.mp (h rule hne)
        rw [← hnone]
        constructor
        · exact fun ⟨file', h⟩ => ⟨trivial, (judged_passed h).2⟩
        · exact fun h => ⟨_, judged_of_none h.2⟩
      · intro file' h
        obtain ⟨rfl, hnone⟩ := judged_passed h
        refine ⟨kept_provisionAll hhex (List.Subset.refl _), startable_of_none hfilled hnone, ?_⟩
        intro tools' doctor
        have hagain : ensureSecrets tools' (ensureSecrets tools file).file =
            ⟨(ensureSecrets tools file).file, true⟩ := provisionAll_of_filled hfilled
        cases doctor with
        | true => exact judged_of_none hnone
        | false =>
            have hstep : preflight tools' false path (ensureSecrets tools file).file =
                judged path (ensureSecrets tools file).file := by
              rw [preflight, hagain]
              rfl
            rw [hstep]
            exact judged_of_none hnone

end Preflight

/-- An address and a version of the current kind, and no secret. -/
def freshFile : List Char :=
  serverAddress.chars ++ ['=', 'h', '\n'] ++ takVersion.chars ++ ['=', '5', '.', '1', '0', '\n']

theorem preflight_fresh :
    ∃ file', preflight steadyTools false [] freshFile = .passed file' := by
  have hhex : steadyTools.PrintsHex := by
    intro key bytes value hvalue
    obtain rfl : ['0', 'f'] = value := Option.some.inj hvalue
    decide
  apply (preflight_passed_iff steadyTools hhex [] freshFile).1.mpr
  refine ⟨by decide +kernel, fun rule hrule => ?_⟩
  cases rule with
  | tokensApiSecret => exact absurd rfl hrule
  | serverAddress => decide +kernel
  | deployMode => decide +kernel
  | webadminPassword => decide +kernel
  | takVersionSet => decide +kernel
  | takVersionForm => decide +kernel
  | takVersionFloor => decide +kernel

end FastTAK.Env
