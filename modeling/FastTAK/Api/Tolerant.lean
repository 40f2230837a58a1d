import FastTAK.Api.ServiceAccounts
import FastTAK.Identity.ClientSpec

/-!
# Handlers and what they move beside anything

A relation between the states of the service that does not speak about queues and caches holds
of every request of a handler as soon as it holds of the requests that change something.
-/

namespace FastTAK.Api

open FastTAK.Effect FastTAK.Effect.Prog FastTAK.Certs FastTAK.Identity

variable {settings : Settings} {α : Type}

/-- A relation between the states of the service that allows queues and caches of the
identity clients to move. -/
class Tolerant (guar : World settings → World settings → Prop) : Prop
    extends IsPreorder (World settings) guar where
  quiet : ∀ w s, Quiet w.identity s → guar w (w.withIdentity s)

section Handlers

variable {guar : World settings → World settings → Prop} [Tolerant guar]

theorem quiet_identity {P : α → Prop} {program : IdProg settings α}
    (hprogram : Respects Quiet P program) : Respects guar P (identity program) :=
  hprogram.onPart fun w s hquiet => Tolerant.quiet w s hquiet

/-- What looking up a user of an id moves, beside anything. -/
theorem quiet_requireUser (userId : ℤ) :
    Respects guar (fun user => settings.numericId user.username = userId)
      (requireUser userId : Handler settings UserRecord) := by
  apply respects_bind (quiet_identity (respects_getUser .users userId))
  intro found hfound
  cases found with
  | none => exact respects_raise _
  | some user => exact respects_pure (hfound user rfl).1.2

theorem quiet_requireAccount (accountId : ℤ) :
    Respects guar (fun user => settings.numericId user.username = accountId)
      (requireAccount accountId : Handler settings UserRecord) := by
  apply respects_bind (quiet_identity (respects_getUser .serviceAccounts accountId))
  intro found hfound
  cases found with
  | none => exact respects_raise _
  | some user =>
      dsimp only
      split_ifs
      · exact respects_pure (hfound user rfl).1.2
      · exact respects_raise _

/-! ## Deletions and ticks -/

section Revoking

variable (hdeactivate : ∀ client userId, Respects guar (fun _ => True)
  (identity (deactivateUser client userId) : Handler settings Unit))
variable (hmark : ∀ client userId, Respects guar (fun _ => True)
  (identity (markCertsRevoked client userId) : Handler settings Unit))
variable (hrevoke : ∀ username, Respects guar (fun _ => True)
  (revokeAll username : Handler settings Bool))

include hdeactivate hmark hrevoke

omit [Tolerant guar] in
theorem respects_deactivateAndRevoke_of (client : Client) (userId : ℤ) (username : String) :
    Respects guar (fun _ => True)
      (deactivateAndRevoke client userId username : Handler settings Unit) := by
  apply respects_bind (hdeactivate client userId)
  intro _ _
  split_ifs
  · apply respects_bind (hrevoke username)
    intro allRevoked _
    split_ifs
    · exact hmark client userId
    · exact respects_pure trivial
  · exact respects_pure trivial

theorem respects_deleteUser_of (userId : ℤ) :
    Respects guar (fun _ => True) (Api.deleteUser userId : Handler settings Response) := by
  apply respects_bind (quiet_requireUser userId)
  intro user _
  exact respects_bind (respects_deactivateAndRevoke_of hdeactivate hmark hrevoke .users userId
    user.username) fun _ _ => respects_pure trivial

omit [Tolerant guar] in
theorem respects_expireUser_of (user : UserRecord) :
    Respects guar (fun _ => True) (expireUser user : Handler settings Unit) := by
  have hrest : Respects guar (fun _ => True) (do
      let allRevoked ← revokeAll user.username
      if allRevoked then identity (markCertsRevoked .scheduler user.id) :
      Handler settings Unit) := by
    apply respects_bind (hrevoke user.username)
    intro allRevoked _
    split_ifs
    · exact hmark .scheduler user.id
    · exact respects_pure trivial
  refine respects_tryExcept ?_ fun _ => respects_pure trivial
  dsimp only
  split_ifs
  · exact respects_bind (hdeactivate .scheduler user.id) fun _ _ => hrest
  · exact respects_bind (hdeactivate .scheduler user.id) fun _ _ => respects_pure trivial
  · exact hrest
  · exact respects_pure trivial

theorem respects_checkUserExpiry_of :
    Respects guar (fun _ => True) (Api.checkUserExpiry : Handler settings Unit) := by
  have hpending : Respects guar (fun _ => True)
      (tryExcept (fun _ => pure []) (identity (getUsersPendingExpiry .scheduler)) :
        Handler settings (List UserRecord)) :=
    respects_tryExcept ((quiet_identity (respects_getUsersPendingExpiry .scheduler)).mono
      (fun _ _ h => h) fun _ _ => trivial) fun _ => respects_pure trivial
  exact respects_bind hpending fun pending _ => respects_forList pending fun user _ =>
    respects_expireUser_of hdeactivate hmark hrevoke user

end Revoking

end Handlers

end FastTAK.Api
