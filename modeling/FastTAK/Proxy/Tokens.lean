import Mathlib

/-!
# The rows of the token store

The table of the proxy's token store and the conditions its statements select
rows by.
-/

namespace FastTAK.Proxy

/-- A row of the table `tokens`. -/
structure TokenRow where
  id : ℤ
  username : String
  tokenHash : String
  tokenPlain : String
  expiresAt : Option ℤ
  oneTime : Bool
  createdAt : ℤ
  deriving DecidableEq, Repr

/-- Arithmetic of `int64`. -/
def wrap64 (n : ℤ) : ℤ := n.bmod (2 ^ 64)

/-- The expiry `Create` stores: none unless `ttlMinutes` is positive. -/
def newExpiry (now ttlMinutes : ℤ) : Option ℤ :=
  if 0 < ttlMinutes then some (wrap64 (now + wrap64 (ttlMinutes * 60))) else none

/-- `expires_at IS NULL OR expires_at > ?`. -/
def TokenRow.isLive (now : ℤ) (row : TokenRow) : Bool :=
  match row.expiresAt with
  | none => true
  | some expiry => now < expiry

/-- `expires_at IS NOT NULL AND expires_at <= ?`. -/
def TokenRow.isExpired (now : ℤ) (row : TokenRow) : Bool :=
  match row.expiresAt with
  | none => false
  | some expiry => expiry ≤ now

/-- `username = ? AND token_hash = ? AND (expires_at IS NULL OR expires_at > ?)`. -/
def TokenRow.fits (username tokenHash : String) (now : ℤ) (row : TokenRow) : Bool :=
  row.username == username && row.tokenHash == tokenHash && row.isLive now

/-- `GetActive`: the rows of a username that have not expired. -/
def getActive (username : String) (now : ℤ) (rows : List TokenRow) :
    List TokenRow :=
  rows.filter fun row => row.username == username && row.isLive now

theorem TokenRow.isExpired_eq_not_isLive (now : ℤ) (row : TokenRow) :
    row.isExpired now = !row.isLive now := by
  unfold isExpired isLive
  cases row.expiresAt with
  | none => rfl
  | some expiry =>
      rw [Bool.eq_iff_iff]
      simp

theorem TokenRow.fits_iff {username tokenHash : String} {now : ℤ}
    {row : TokenRow} :
    row.fits username tokenHash now ↔ row.username = username ∧
      row.tokenHash = tokenHash ∧ row.isLive now := by
  simp [fits, and_assoc]

end FastTAK.Proxy
