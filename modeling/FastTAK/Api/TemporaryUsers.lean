import FastTAK.Api.Sequential

/-!
# Temporary users while they are created

A user with a lifetime is created first and gets the expiry by a second mutation.
This file says for which requests no point of the way leaves a permanent user.
-/

namespace FastTAK.Api

open FastTAK.Effect FastTAK.Effect.Prog FastTAK.Identity FastTAK.Naming

variable {settings : Settings}

/-- The directory does not hold the user, or with this expiry, or inactive. -/
def NotPermanent (username : String) (expires : ℤ) (dir : Directory) : Prop :=
  ∀ attrs, dir.attributesOf username = some attrs →
    attrs.expires = some expires ∨ attrs.isActive = some false

/-- The creation time plus the lifetime. -/
def expiryOf (now : ℚ) (ttlHours : ℤ) : ℤ := pyTrunc (now + (ttlHours * 3600 : ℤ))

/-- Whatever fails and wherever the process dies, `POST /api/users` does not leave a
permanent user behind. -/
def NeverLeftPermanent (w : World settings) (body : CreateUserRequest) : Prop :=
  ∀ ttlHours ∈ body.ttlHours, ∀ faults, ∀ t ∈ (createUser body).visited (w.withFaults faults),
    NotPermanent body.username (expiryOf w.identity.now ttlHours) t.identity.directory

/-- The directory is as before. -/
def SameDirectory (w w' : World settings) : Prop :=
  w'.identity.directory = w.identity.directory

instance : Tolerant (@SameDirectory settings) where
  refl _ := rfl
  trans _ _ _ hfirst hsecond := hsecond.trans hfirst
  quiet _ _ h := h.directory

/-- A request for a group that is not listed stops before the creation. -/
theorem alone_createUser_of_missing {body : CreateUserRequest} {w : World settings}
    (hmissing : ∃ g ∈ body.groups, g ∉ (listedGroups w.identity.directory).map Prod.snd) :
    Alone SameDirectory (fun _ _ => True) (createUser body) w := by
  unfold createUser
  split_ifs
  · exact alone_raise trivial
  · refine alone_bind (alone_requireGroups (fun hlisted => ?_) fun _ _ => trivial)
    obtain ⟨g, hg, hnot⟩ := hmissing
    exact absurd (hlisted g hg) hnot

/-- The first mutation alone makes a permanent user. -/
theorem not_notPermanent_createUser {username : String} {dir : Directory} (expires : ℤ)
    (name : String) (hnew : username ∉ dir.accounts) :
    ¬ NotPermanent username expires (Directory.createUser username name dir).2 := by
  have hattributes : (Directory.createUser username name dir).2.attributesOf username =
      some (parseAttributes ∅) := by
    rw [Directory.createUser, if_neg hnew, Directory.attributesOf]
    dsimp only
    rw [AList.lookup_insert]
    rfl
  intro h
  rcases h _ hattributes with hexpires | hactive
  · cases hexpires
  · cases hactive

/-- The state after the first mutation is one of those the request visits. -/
theorem created_mem_visited {body : CreateUserRequest} {w : World settings}
    (haccepted : acceptsUsername body.username) (hgroups : body.groups ≠ [])
    (hlisted : ∀ g ∈ body.groups, g ∈ (listedGroups w.identity.directory).map Prod.snd) :
    ∃ t ∈ (createUser body).visited (w.withFaults []),
      t.identity.directory =
        (Directory.createUser body.username body.name w.identity.directory).2 := by
  refine ⟨w.withIdentity (withQueue [] (withDirectory w.identity
    (Directory.createUser body.username body.name w.identity.directory).2)), ?_, rfl⟩
  unfold createUser
  rw [if_neg (by simp [haccepted, hgroups])]
  refine mem_visited_bind_right (run_requireGroups hlisted) (mem_visited_bind_left _ ?_)
  rw [visited_identity, List.mem_map]
  refine ⟨_, ?_, rfl⟩
  exact mem_visited_bind_left _ (mem_visited_bind_left _ (List.mem_singleton.mpr rfl))

/-- **Temporary users.**  A request for a temporary user leaves no permanent one at any
point exactly if it is refused before anything is created. -/
theorem never_left_permanent_iff (w : World settings) (body : CreateUserRequest)
    {ttlHours : ℤ} (httl : body.ttlHours = some ttlHours)
    (hnew : body.username ∉ w.identity.directory.accounts) :
    NeverLeftPermanent w body ↔
      ¬ acceptsUsername body.username ∨ body.groups = [] ∨
        ∃ g ∈ body.groups, g ∉ (listedGroups w.identity.directory).map Prod.snd := by
  constructor
  · intro hnever
    by_contra hcreated
    push Not at hcreated
    obtain ⟨haccepted, hgroups, hlisted⟩ := hcreated
    obtain ⟨t, ht, hdirectory⟩ := created_mem_visited haccepted hgroups hlisted
    have hnot := hnever ttlHours httl [] t ht
    rw [hdirectory] at hnot
    exact not_notPermanent_createUser _ body.name hnew hnot
  · intro hrefused ttlHours' _ faults t ht
    have hsame : SameDirectory (w.withFaults faults) t := by
      rcases hrefused with haccepted | hgroups | hmissing
      · rw [createUser, if_pos (Or.inl haccepted)] at ht
        cases ht
      · rw [createUser, if_pos (Or.inr hgroups)] at ht
        cases ht
      · have halone : Alone SameDirectory (fun _ _ => True) (createUser body)
            (w.withFaults faults) := alone_createUser_of_missing hmissing
        exact halone.reaches t ht
    intro attrs hattrs
    rw [hsame] at hattrs
    change w.identity.directory.attributesOf body.username = some attrs at hattrs
    rw [Directory.attributesOf_eq_none hnew] at hattrs
    cases hattrs

/-! ## A lifetime without a float -/

/-- A service with one group. -/
def opsWorld : World Settings.small where
  identity := .start (Directory.createGroup "tak_ops" .empty).2 0
  pki := .empty
  revocations := []

/-- `ttl_hours = 10 ** 400`: the sum with `time.time()` raises an `OverflowError` when the
user exists already, and nothing takes the user away again. -/
theorem left_permanent_after_overflow :
    let body : CreateUserRequest := ⟨"bob", "Bob", some (10 ^ 400), ["ops"]⟩
    let answer := (createUser body).run opsWorld
    (match answer.1 with | .error .overflowError => true | _ => false) = true ∧
      answer.2.identity.directory.attributesOf "bob" = some Attributes.none ∧
      ¬ NotPermanent "bob" (expiryOf 0 (10 ^ 400)) answer.2.identity.directory := by
  intro body answer
  have hattributes : answer.2.identity.directory.attributesOf "bob" = some Attributes.none := by
    decide +kernel
  refine ⟨by decide +kernel, hattributes, fun h => ?_⟩
  rcases h _ hattributes with hexpires | hactive
  · cases hexpires
  · cases hactive

/-- A request for a group that does not exist leaves nothing. -/
theorem never_left_permanent_unlisted :
    NeverLeftPermanent opsWorld ⟨"bob", "Bob", some 24, ["staff"]⟩ :=
  (never_left_permanent_iff opsWorld ⟨"bob", "Bob", some 24, ["staff"]⟩ rfl
    (by decide)).mpr (Or.inr (Or.inr ⟨"staff", by decide, by decide⟩))

end FastTAK.Api
