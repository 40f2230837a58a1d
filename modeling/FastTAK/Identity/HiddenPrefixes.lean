import FastTAK.Base.Lowering
import FastTAK.Identity.Client

/-!
# Hidden accounts

`USERS_HIDDEN_PREFIXES` is split at its commas in two places.  The TAK router trims the elements
and drops the empty ones, the identity client takes them as they are.
-/

namespace FastTAK.Identity

open FastTAK.Text

/-! ## The two parsers -/

/-- `users_hidden_prefixes.split(",")`, which `users.router` and the scheduler hand on. -/
def splitPrefixes (text : String) : List String := (text.toList.splitOn ',').map String.ofList

/-- `_hidden_prefixes()` of the TAK router. -/
def hiddenPrefixes (lowering : Lowering) (text : String) : List (List Char) :=
  ((splitPrefixes text).filter fun p => strip p.toList ≠ []).map fun p =>
    lowering.lower (strip p.toList)

/-- An entry of `/Marti/api/subscriptions/all` or `/Marti/api/contacts/all`. -/
structure MartiEntry where
  username : Option String
  notes : Option String
  deriving DecidableEq, Repr

/-- `entry.get("username") or entry.get("notes") or ""`. -/
def MartiEntry.raw (entry : MartiEntry) : String :=
  ((entry.username.filter (· ≠ "")).or (entry.notes.filter (· ≠ ""))).getD ""

/-- `_is_service_account(entry)`. -/
def isServiceAccount (lowering : Lowering) (text : String) (entry : MartiEntry) : Bool :=
  let actor := lowering.lower (strip entry.raw.toList)
  if actor = [] then false
  else (hiddenPrefixes lowering text).any (· <+: actor)

/-! ## What the parsers accept -/

section Accounts

variable (lowering : Lowering)

/-- An element, as it stands, starts the name. -/
def StartsAsWritten (prefixes : List (List Char)) (name : List Char) : Prop :=
  ∃ p ∈ prefixes, lowering.lower p <+: lowering.lower name

/-- An element that is not blank, trimmed, starts the name. -/
def StartsTrimmed (prefixes : List (List Char)) (name : List Char) : Prop :=
  ∃ p ∈ prefixes, strip p ≠ [] ∧ lowering.lower (strip p) <+: lowering.lower name

/-- With an empty element among them, the trimmed elements start every text there is; without,
each element that has blanks around it starts, once they are gone, with an element as written. -/
def Consistent (prefixes : List (List Char)) : Prop :=
  if [] ∈ prefixes then ∀ c, ¬ isBlank c → StartsTrimmed lowering prefixes [c]
  else ∀ p ∈ prefixes, strip p ≠ p → strip p ≠ [] → StartsAsWritten lowering prefixes (strip p)

variable {lowering : Lowering} {prefixes : List (List Char)}

theorem startsTrimmed_nil : ¬ StartsTrimmed lowering prefixes [] := by
  rintro ⟨p, -, hne, hstarts⟩
  exact lowering.not_prefix_lower_nil hne hstarts

/-- An element that starts a name as written also does so trimmed, if the name has no blank in
front. -/
theorem startsTrimmed_of_startsAsWritten (hempty : [] ∉ prefixes) {c : Char} {name : List Char}
    (hc : ¬ isBlank c) (hstarts : StartsAsWritten lowering prefixes (c :: name)) :
    StartsTrimmed lowering prefixes (c :: name) := by
  obtain ⟨p, hp, hprefix⟩ := hstarts
  cases p with
  | nil => exact absurd hp hempty
  | cons b p =>
      have hb := lowering.not_isBlank_of_prefix hc hprefix
      obtain ⟨trail, htrail, hsplit⟩ := @exists_eq_strip_append b p hb
      refine ⟨b :: p, hp, ?_, ?_⟩
      · intro hnil
        rw [hnil, List.nil_append] at hsplit
        exact hb (htrail b (hsplit ▸ List.mem_cons_self))
      · have hlower := lowering.append_blank (strip (b :: p)) trail htrail
        rw [← hsplit] at hlower
        rw [hlower] at hprefix
        exact (List.prefix_append _ _).trans hprefix

/-- On names without blanks around them the two readings agree exactly if the elements are
consistent. -/
theorem consistent_iff :
    (∀ name, name ≠ [] → Trimmed name →
      (StartsAsWritten lowering prefixes name ↔ StartsTrimmed lowering prefixes name)) ↔
      Consistent lowering prefixes := by
  rw [Consistent]
  split_ifs with hempty
  · have hall : ∀ name, StartsAsWritten lowering prefixes name := by
      intro name
      refine ⟨[], hempty, ?_⟩
      rw [lowering.nil]
      exact List.nil_prefix
    constructor
    · intro hagree c hc
      have htrimmed : Trimmed [c] := by
        constructor <;> simpa using hc
      exact (hagree [c] (List.cons_ne_nil _ _) htrimmed).mp (hall [c])
    · intro hchars name hne htrimmed
      apply iff_of_true (hall name)
      cases name with
      | nil => exact absurd rfl hne
      | cons c name =>
          obtain ⟨p, hp, hblank, hstarts⟩ := hchars c (htrimmed.1 c rfl)
          exact ⟨p, hp, hblank, hstarts.trans (lowering.head c name)⟩
  · constructor
    · intro hagree p hp _ hne
      apply (hagree (strip p) hne (trimmed_strip p)).mpr
      exact ⟨p, hp, hne, List.prefix_rfl⟩
    · intro hcover name hne htrimmed
      constructor
      · intro hstarts
        cases name with
        | nil => exact absurd rfl hne
        | cons c name =>
            exact startsTrimmed_of_startsAsWritten hempty (htrimmed.1 c rfl) hstarts
      · rintro ⟨p, hp, hblank, hstarts⟩
        by_cases hsame : strip p = p
        · exact ⟨p, hp, hsame ▸ hstarts⟩
        · obtain ⟨q, hq, hcovered⟩ := hcover p hp hsame hblank
          exact ⟨q, hq, hcovered.trans hstarts⟩

/-! ## Names with blanks around them -/

/-- In front of enough blanks a text that is not blank starts nothing. -/
theorem not_prefix_blanks {p : List Char} (hp : strip p ≠ []) {n : ℕ} (hn : p.length < n)
    (text : List Char) :
    ¬ lowering.lower p <+: lowering.lower (List.replicate n ' ' ++ text) := by
  induction p generalizing n with
  | nil => exact absurd rfl hp
  | cons b p ih =>
      cases n with
      | zero => simp at hn
      | succ n =>
          have hspace : isBlank ' ' := by decide
          rw [List.replicate_succ, List.cons_append, lowering.lower_cons_of_blank hspace]
          by_cases hb : isBlank b
          · rw [strip_cons_of_blank hb] at hp
            rw [lowering.lower_cons_of_blank hb, List.cons_prefix_cons]
            exact fun h => ih hp (by simpa using hn) h.2
          · obtain ⟨d, rest, hlower, hd⟩ := lowering.exists_lower_cons hb p
            rw [hlower, List.cons_prefix_cons]
            rintro ⟨rfl, -⟩
            exact hd hspace

/-- There is always a name with blanks in front that only one of the readings hides. -/
theorem exists_disagreement (hne : prefixes ≠ []) :
    ∃ name, ¬ (StartsAsWritten lowering prefixes name ↔
      StartsTrimmed lowering prefixes (strip name)) := by
  by_cases hblank : ∃ p ∈ prefixes, strip p = []
  · obtain ⟨p, hp, hstrip⟩ := hblank
    use p
    rw [hstrip]
    intro hiff
    exact startsTrimmed_nil (hiff.mp ⟨p, hp, List.prefix_rfl⟩)
  · obtain ⟨p, hp⟩ := List.exists_mem_of_ne_nil prefixes hne
    set n := (prefixes.map List.length).sum + 1
    have hspaces : ∀ c ∈ List.replicate n ' ', isBlank c := by
      intro c hc
      rw [List.eq_of_mem_replicate hc]
      decide
    use List.replicate n ' ' ++ p
    rw [strip_append_of_blank hspaces]
    intro hiff
    have hpne : strip p ≠ [] := fun h => hblank ⟨p, hp, h⟩
    have htrimmed : StartsTrimmed lowering prefixes (strip p) := ⟨p, hp, hpne, List.prefix_rfl⟩
    obtain ⟨q, hq, hstarts⟩ := hiff.mpr htrimmed
    have hlength : q.length < n :=
      Nat.lt_succ_of_le (List.le_sum_of_mem (List.mem_map_of_mem hq))
    exact not_prefix_blanks (fun h => hblank ⟨q, hq, h⟩) hlength p hstarts

end Accounts

/-! ## The two views -/

section Views

variable {settings : Settings} {lowering : Lowering} {text : String} {client : Client}

/-- The elements of the setting as lists of characters. -/
def elements (text : String) : List (List Char) := text.toList.splitOn ','

theorem isHidden_iff (hprefixes : settings.usersHiddenPrefixes = splitPrefixes text)
    (hlower : ∀ name, (settings.lower name).toList = lowering.lower name.toList)
    (hclient : client ≠ .serviceAccounts) (username : String) :
    isHidden settings client username = true ↔
      StartsAsWritten lowering (elements text) username.toList := by
  have hlist : client.hiddenPrefixes settings = splitPrefixes text := by
    cases client with
    | users | scheduler => exact hprefixes
    | serviceAccounts => exact absurd rfl hclient
  rw [isHidden, hlist, List.any_eq_true, splitPrefixes]
  simp only [List.mem_map, exists_exists_and_eq_and, hlower, String.toList_ofList,
    decide_eq_true_eq]
  rfl

theorem isServiceAccount_iff (username : String) :
    isServiceAccount lowering text ⟨some username, none⟩ = true ↔
      StartsTrimmed lowering (elements text) (strip username.toList) := by
  have hraw : (MartiEntry.mk (some username) none).raw = username := by
    rw [MartiEntry.raw]
    by_cases hempty : username = ""
    · simp [Option.filter, hempty]
    · simp [Option.filter, hempty]
  have hsome : StartsTrimmed lowering (elements text) (strip username.toList) ↔
      ∃ actor ∈ hiddenPrefixes lowering text,
        actor <+: lowering.lower (strip username.toList) := by
    simp only [hiddenPrefixes, splitPrefixes, List.mem_map, List.mem_filter,
      exists_exists_and_eq_and, decide_eq_true_eq]
    constructor
    · rintro ⟨p, hp, hne, hstarts⟩
      refine ⟨_, ⟨⟨p, hp, rfl⟩, ?_⟩, ?_⟩
      · rwa [String.toList_ofList]
      · rwa [String.toList_ofList]
    · rintro ⟨_, ⟨⟨p, hp, rfl⟩, hne⟩, hstarts⟩
      rw [String.toList_ofList] at hne hstarts
      exact ⟨p, hp, hne, hstarts⟩
  rw [isServiceAccount, hraw]
  split_ifs with hactor
  · have hnil : strip username.toList = [] := by
      by_contra hne
      exact lowering.lower_ne_nil hne hactor
    rw [hnil]
    exact iff_of_false id startsTrimmed_nil
  · rw [hsome, List.any_eq_true]
    simp only [decide_eq_true_eq]

end Views

/-- `USERS_HIDDEN_PREFIXES` as two views of the users see it.  Names without blanks around them
are hidden in both or in neither exactly if the elements of the setting are consistent; with blanks
around them there are always names that only one view hides. -/
theorem isHidden_eq_isServiceAccount_iff {settings : Settings} {lowering : Lowering}
    {text : String} {client : Client}
    (hprefixes : settings.usersHiddenPrefixes = splitPrefixes text)
    (hlower : ∀ name, (settings.lower name).toList = lowering.lower name.toList)
    (hclient : client ≠ .serviceAccounts) :
    ((∀ username, username ≠ "" → strip username.toList = username.toList →
      isHidden settings client username =
        isServiceAccount lowering text ⟨some username, none⟩) ↔
      Consistent lowering (elements text)) ∧
    ∃ username, isHidden settings client username ≠
      isServiceAccount lowering text ⟨some username, none⟩ := by
  have hviews : ∀ username,
      (isHidden settings client username =
        isServiceAccount lowering text ⟨some username, none⟩) ↔
      (StartsAsWritten lowering (elements text) username.toList ↔
        StartsTrimmed lowering (elements text) (strip username.toList)) := by
    intro username
    rw [Bool.eq_iff_iff, isHidden_iff hprefixes hlower hclient, isServiceAccount_iff]
  constructor
  · rw [← consistent_iff]
    constructor
    · intro hagree name hne htrimmed
      have hstrip := (strip_eq_self_iff name).mpr htrimmed
      have hone := hagree (String.ofList name) (by simpa using hne)
        (by rwa [String.toList_ofList])
      rw [hviews, String.toList_ofList, hstrip] at hone
      exact hone
    · intro hagree username hne hstrip
      rw [hviews, hstrip]
      exact hagree username.toList (by simpa using hne) ((strip_eq_self_iff _).mp hstrip)
  · have hne : elements text ≠ [] := List.splitOn_ne_nil ',' text.toList
    obtain ⟨name, hname⟩ := @exists_disagreement lowering _ hne
    use String.ofList name
    rw [Ne, hviews, String.toList_ofList]
    exact hname

/-! ## Blanks and empty elements -/

/-- A deployment with a setting of its own. -/
def hidingSettings (text : String) : Settings :=
  { Settings.small with usersHiddenPrefixes := splitPrefixes text }

/-- A blank after a comma shows the identity client an account that the router hides, and a comma
at the end hides everybody from it. -/
theorem isHidden_blanks_and_commas :
    isHidden (hidingSettings "adm_, svc_") .users "svc_wx" = false ∧
      isServiceAccount asciiLowering "adm_, svc_" ⟨some "svc_wx", none⟩ = true ∧
      isHidden (hidingSettings "adm_,") .scheduler "kim" = true ∧
      isServiceAccount asciiLowering "adm_," ⟨some "kim", none⟩ = false := by
  decide +kernel

theorem isHidden_default :
    isHidden (hidingSettings "adm_,svc_,ma-") .users "SVC_wx" =
      isServiceAccount asciiLowering "adm_,svc_,ma-" ⟨some "SVC_wx", none⟩ := by
  have hclean : ∀ p ∈ elements "adm_,svc_,ma-", strip p = p := by decide +kernel
  have hconsistent : Consistent asciiLowering (elements "adm_,svc_,ma-") := by
    rw [Consistent, if_neg (by decide +kernel)]
    intro p hp hchanged
    exact absurd (hclean p hp) hchanged
  exact (isHidden_eq_isServiceAccount_iff rfl toList_toLower (by decide)).1.mpr hconsistent
    "SVC_wx" (by decide) (by decide +kernel)

end FastTAK.Identity
