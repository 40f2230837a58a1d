import FastTAK.Api.Exn
import FastTAK.Base.Latin1

/-!
# Group claims in the `Remote-Groups` header

The proxy joins a user's LDAP groups with commas into one header; the monitor
splits the header and decides admissions by the pieces.  Neither side escapes
anything.  This file models both sides and the wire between them, and proves
exactly which groups reach the other side.
-/

namespace FastTAK.GroupHeader

open FastTAK.Api FastTAK.Text
open FastTAK.Latin1 hiding read

/-! ## The proxy -/

/-- The requests of `fetchUserGroups` that can fail. -/
inductive LookupFault where
  | dial
  | adminBind
  | search
  deriving DecidableEq, Repr

/-- `fetchUserGroups`: the names of the groups that list the user. -/
def fetchUserGroups (fault : Option LookupFault) (memberships : List String) :
    Except LookupFault (List String) :=
  match fault with
  | some failed => .error failed
  | none => .ok memberships

/-- `strings.Join(groups, ",")`. -/
def joinGroups (groups : List String) : String :=
  String.intercalate "," groups

/-- The value `HandleVerify` sets for `Remote-Groups` once the bind succeeded.
A failed lookup is only logged and leaves `groups` nil. -/
def remoteGroups (fault : Option LookupFault) (memberships : List String) :
    String :=
  match fetchUserGroups fault memberships with
  | .ok groups => joinGroups groups
  | .error _ => joinGroups []

/-! ## The wire -/

/-- `headerNewlineToSpace` of `net/http`. -/
def newlineToSpace (c : Char) : Char :=
  if c = '\n' ∨ c = '\r' then ' ' else c

/-- `isASCIISpace` of `net/textproto`. -/
def isAsciiSpace (c : Char) : Bool :=
  c == ' ' || c == '\t' || c == '\n' || c == '\r'

/-- `textproto.TrimString`. -/
def trimString (text : List Char) : List Char :=
  (text.rdropWhile isAsciiSpace).dropWhile isAsciiSpace

/-- The header value as written by `net/http`, which replaces line ends and
trims, and as Starlette decodes it, one character for each byte. -/
def received (header : String) : String :=
  String.ofList (Latin1.read (trimString (header.toList.map newlineToSpace)))

/-! ## The monitor -/

/-- `request.state.groups` as `AuthContextMiddleware.dispatch` sets it:
`[g for g in (s.strip() for s in groups_header.split(",")) if g]`. -/
def dispatchGroups (header : String) : List String :=
  (((header.toList.splitOn ',').map strip).filter (· ≠ [])).map String.ofList

/-- The dependency made by `require_group`, given the value of the environment
variable it names. -/
def requireGroup (environ : Option String) (default : String)
    (groups : List String) : Except Exn Unit :=
  let required := environ.getD default
  if required ∉ groups then
    .error (.http 403 ("requires group membership: " ++ required))
  else .ok ()

theorem requireGroup_eq_ok_iff (environ : Option String) (default : String)
    (groups : List String) :
    requireGroup environ default groups = .ok () ↔
      environ.getD default ∈ groups := by
  simp [requireGroup]

/-! ## What reaches the monitor -/

/-- What the monitor sees of one character of a group name. -/
def seen (c : Char) : List Char := readChar (newlineToSpace c)

theorem newlineToSpace_eq_comma_iff (c : Char) :
    newlineToSpace c = ',' ↔ c = ',' := by
  unfold newlineToSpace
  split_ifs with hc
  · rcases hc with rfl | rfl <;> decide
  · rfl

theorem comma_not_mem_seen {c : Char} (hc : c ≠ ',') : ',' ∉ seen c := by
  have hline : newlineToSpace c ≠ ',' := by
    rwa [Ne, newlineToSpace_eq_comma_iff]
  by_cases hascii : (newlineToSpace c).toNat < 128
  · rw [seen, readChar_ascii hascii, List.mem_singleton]
    exact fun h => hline h.symm
  · obtain ⟨lead, rest, hread, hlead, -, hrest⟩ :=
      readChar_wide (Nat.le_of_not_lt hascii)
    rw [seen, hread, List.mem_cons]
    rintro (rfl | hmem)
    · exact absurd hlead (by decide)
    · exact absurd (hrest _ hmem).1 (by decide)

theorem isBlank_of_isAsciiSpace {c : Char} (hc : isAsciiSpace c) : isBlank c := by
  simp only [isAsciiSpace, Bool.or_eq_true, beq_iff_eq] at hc
  rcases hc with ((rfl | rfl) | rfl) | rfl <;> decide

theorem ascii_of_isAsciiSpace {c : Char} (hc : isAsciiSpace c) :
    c.toNat < 128 := by
  simp only [isAsciiSpace, Bool.or_eq_true, beq_iff_eq] at hc
  rcases hc with ((rfl | rfl) | rfl) | rfl <;> decide

theorem ne_comma_of_isAsciiSpace {c : Char} (hc : isAsciiSpace c) : c ≠ ',' := by
  rintro rfl
  exact absurd hc (by decide)

/-- The stripped pieces of what the monitor reads. -/
def pieces (text : List Char) : List (List Char) :=
  ((Latin1.read text).splitOn ',').map strip

theorem pieces_dropWhile (text : List Char) :
    pieces (text.dropWhile isAsciiSpace) = pieces text := by
  induction text with
  | nil => rfl
  | cons c text ih =>
      by_cases hc : isAsciiSpace c
      · rw [List.dropWhile_cons_of_pos hc, ih, pieces, pieces]
        have hread : Latin1.read (c :: text) = c :: Latin1.read text := by
          rw [Latin1.read, List.flatMap_cons, readChar_ascii (ascii_of_isAsciiSpace hc)]
          rfl
        rw [hread, map_strip_splitOn_cons (isBlank_of_isAsciiSpace hc)
          (ne_comma_of_isAsciiSpace hc)]
      · rw [List.dropWhile_cons_of_neg hc]

theorem pieces_rdropWhile (text : List Char) :
    pieces (text.rdropWhile isAsciiSpace) = pieces text := by
  induction text using List.reverseRecOn with
  | nil => rfl
  | append_singleton text c ih =>
      by_cases hc : isAsciiSpace c
      · rw [List.rdropWhile_concat_pos _ _ _ hc, ih, pieces, pieces]
        have hread : Latin1.read (text ++ [c]) = Latin1.read text ++ [c] := by
          rw [Latin1.read, List.flatMap_append, List.flatMap_singleton,
            readChar_ascii (ascii_of_isAsciiSpace hc)]
          rfl
        rw [hread, map_strip_splitOn_concat (isBlank_of_isAsciiSpace hc)
          (ne_comma_of_isAsciiSpace hc)]
      · rw [List.rdropWhile_concat_neg _ _ _ hc]

/-- The proxy's trimming is invisible to the monitor: both commute down to the
characters each side of a comma. -/
theorem pieces_trimString (text : List Char) :
    pieces (trimString (text.map newlineToSpace)) =
      (text.splitOn ',').map fun piece => strip (piece.flatMap seen) := by
  rw [trimString, pieces_dropWhile, pieces_rdropWhile, pieces, Latin1.read,
    List.flatMap_map]
  change ((text.flatMap seen).splitOn ',').map strip = _
  rw [splitOn_flatMap (by decide) fun c hc => comma_not_mem_seen hc,
    List.map_map]
  rfl

/-- The groups the monitor sees: every comma inside a name splits it. -/
theorem dispatchGroups_received_joinGroups (groups : List String)
    (hne : groups ≠ []) :
    (dispatchGroups (received (joinGroups groups))).map String.toList =
      ((groups.flatMap (·.toList.splitOn ',')).map
        fun piece => strip (piece.flatMap seen)).filter (· ≠ []) := by
  have htext : (joinGroups groups).toList =
      [','].intercalate (groups.map String.toList) := by
    rw [joinGroups, String.toList_intercalate]
    rfl
  have hpieces := pieces_trimString (joinGroups groups).toList
  rw [htext, splitOn_intercalate_eq_flatMap (by simpa using hne),
    List.flatMap_map] at hpieces
  rw [dispatchGroups, received, String.toList_ofList, List.map_map]
  change ((pieces _).filter _).map (String.toList ∘ String.ofList) = _
  rw [htext, hpieces]
  simp [Function.comp_def]

/-- Group names that the header carries unchanged: not empty, ASCII, without
commas or line ends, and without blanks at either end. -/
structure HeaderSafe (group : String) : Prop where
  nonempty : group ≠ ""
  ascii : ∀ c ∈ group.toList, c.toNat < 128
  noComma : ',' ∉ group.toList
  noLineEnd : '\n' ∉ group.toList ∧ '\r' ∉ group.toList
  trimmed : Trimmed group.toList

theorem flatMap_seen_eq_read {text : List Char}
    (hline : '\n' ∉ text ∧ '\r' ∉ text) : text.flatMap seen = Latin1.read text := by
  refine List.flatMap_congr fun c hc => ?_
  have hn : c ≠ '\n' := fun h => hline.1 (h ▸ hc)
  have hr : c ≠ '\r' := fun h => hline.2 (h ▸ hc)
  simp [seen, newlineToSpace, hn, hr]

theorem lineEnd_not_mem_seen (c : Char) : '\n' ∉ seen c ∧ '\r' ∉ seen c := by
  have hne : newlineToSpace c ≠ '\n' ∧ newlineToSpace c ≠ '\r' := by
    unfold newlineToSpace
    split_ifs with hc
    · decide
    · exact not_or.mp hc
  by_cases hascii : (newlineToSpace c).toNat < 128
  · rw [seen, readChar_ascii hascii, List.mem_singleton, List.mem_singleton]
    exact ⟨hne.1.symm, hne.2.symm⟩
  · obtain ⟨lead, rest, hread, hlead, -, hrest⟩ :=
      readChar_wide (Nat.le_of_not_lt hascii)
    rw [seen, hread, List.mem_cons, List.mem_cons]
    refine ⟨?_, ?_⟩
    all_goals
      rintro (rfl | hmem)
      · exact absurd hlead (by decide)
      · exact absurd (hrest _ hmem).1 (by decide)

/-- A name without commas arrives unchanged exactly when it is safe. -/
theorem strip_seen_eq_self_iff {group : String} (hcomma : ',' ∉ group.toList) :
    (strip (group.toList.flatMap seen) = group.toList ∧ group.toList ≠ []) ↔
      HeaderSafe group := by
  constructor
  · rintro ⟨hstrip, hne⟩
    have hline : '\n' ∉ group.toList ∧ '\r' ∉ group.toList := by
      constructor <;>
      · intro hmem
        rw [← hstrip] at hmem
        obtain ⟨c, -, hc⟩ := List.mem_flatMap.mp (mem_of_mem_strip hmem)
        first
          | exact (lineEnd_not_mem_seen c).1 hc
          | exact (lineEnd_not_mem_seen c).2 hc
    rw [flatMap_seen_eq_read hline] at hstrip
    have hascii := ascii_of_strip_read_eq hstrip
    rw [read_ascii hascii] at hstrip
    exact {
      nonempty := fun h => hne (by rw [h]; rfl)
      ascii := hascii
      noComma := hcomma
      noLineEnd := hline
      trimmed := (strip_eq_self_iff _).mp hstrip }
  · intro hsafe
    rw [flatMap_seen_eq_read hsafe.noLineEnd, read_ascii hsafe.ascii]
    refine ⟨(strip_eq_self_iff _).mpr hsafe.trimmed, fun hnil => ?_⟩
    exact hsafe.nonempty (String.toList_inj.mp hnil)

/-- The monitor never sees a group with a comma in its name. -/
theorem comma_not_mem_of_mem_dispatchGroups {header group : String}
    (hgroup : group ∈ dispatchGroups header) : ',' ∉ group.toList := by
  obtain ⟨stripped, hstripped, rfl⟩ := List.mem_map.mp hgroup
  obtain ⟨piece, hpiece, rfl⟩ :=
    List.mem_map.mp (List.mem_of_mem_filter hstripped)
  rw [String.toList_ofList]
  exact fun hmem =>
    not_mem_of_mem_splitOn hpiece (mem_of_mem_strip hmem)

theorem dispatchGroups_joinGroups_iff (groups : List String) :
    dispatchGroups (received (joinGroups groups)) = groups ↔
      ∀ group ∈ groups, HeaderSafe group := by
  rcases eq_or_ne groups [] with rfl | hne
  · simp [dispatchGroups, received, joinGroups, Latin1.read, trimString, strip]
  have hflat : (∀ group ∈ groups, ',' ∉ group.toList) →
      groups.flatMap (·.toList.splitOn ',') = groups.map String.toList := by
    intro hcomma
    rw [List.flatMap_congr (g := fun group => [group.toList]) fun group hgroup =>
      List.splitOn_eq_singleton (hcomma group hgroup)]
    exact List.flatMap_pure_eq_map _ _
  have hseen := dispatchGroups_received_joinGroups groups hne
  constructor
  · intro heq group hgroup
    have hcomma : ∀ group ∈ groups, ',' ∉ group.toList := fun group hgroup =>
      comma_not_mem_of_mem_dispatchGroups (heq.symm ▸ hgroup)
    rw [heq, hflat hcomma, List.map_map] at hseen
    have hall : ∀ text ∈ groups.map
        ((fun piece => strip (piece.flatMap seen)) ∘ String.toList),
        text ≠ [] := by
      have hlen := congrArg List.length hseen
      rw [List.length_map] at hlen
      simpa using List.length_filter_eq_length_iff.mp
        (hlen.symm.trans (List.length_map _).symm)
    have hfilter := List.filter_eq_self.mpr fun text htext =>
      decide_eq_true (hall text htext)
    rw [hfilter] at hseen
    have hsame := List.map_inj_left.mp hseen group hgroup
    have hkept := hall _ (List.mem_map.mpr ⟨group, hgroup, rfl⟩)
    rw [← hsame] at hkept
    exact (strip_seen_eq_self_iff (hcomma group hgroup)).mp ⟨hsame.symm, hkept⟩
  · intro hsafe
    have hpair := fun group hgroup =>
      (strip_seen_eq_self_iff (hsafe group hgroup).noComma).mpr
        (hsafe group hgroup)
    have hmap : groups.map
        ((fun piece => strip (piece.flatMap seen)) ∘ String.toList) =
        groups.map String.toList :=
      List.map_congr_left fun group hgroup => (hpair group hgroup).1
    rw [hflat fun group hgroup => (hsafe group hgroup).noComma, List.map_map,
      hmap] at hseen
    rw [List.filter_eq_self.mpr] at hseen
    · exact (List.map_inj_right fun _ _ => String.toList_inj.mp).mp hseen
    · intro text htext
      obtain ⟨group, hgroup, rfl⟩ := List.mem_map.mp htext
      exact decide_eq_true (hpair group hgroup).2

/-! ## Group claims -/

/-- The claims of the header: the monitor sees the user's groups, and admits
the user to exactly those. -/
def GroupClaimsHold (fault : Option LookupFault) (memberships : List String) :
    Prop :=
  let groups := dispatchGroups (received (remoteGroups fault memberships))
  groups = memberships ∧
    ∀ environ default, requireGroup environ default groups = .ok () ↔
      environ.getD default ∈ memberships

/-- Group claims survive exactly for users without groups and, when the lookup
succeeds, for users all of whose groups have safe names. -/
theorem group_claims_hold_iff (fault : Option LookupFault)
    (memberships : List String) :
    GroupClaimsHold fault memberships ↔
      memberships = [] ∨
        fault = none ∧ ∀ group ∈ memberships, HeaderSafe group := by
  have hempty : dispatchGroups (received (joinGroups [])) = [] :=
    (dispatchGroups_joinGroups_iff []).mpr (by simp)
  have hadmits : GroupClaimsHold fault memberships ↔
      dispatchGroups (received (remoteGroups fault memberships)) =
        memberships := by
    refine ⟨And.left, fun heq => ⟨heq, fun environ default => ?_⟩⟩
    rw [heq, requireGroup_eq_ok_iff]
  rw [hadmits]
  cases fault with
  | none =>
      change dispatchGroups (received (joinGroups memberships)) = _ ↔ _
      rw [dispatchGroups_joinGroups_iff]
      constructor
      · exact fun hsafe => Or.inr ⟨rfl, hsafe⟩
      · rintro (rfl | ⟨-, hsafe⟩)
        · simp
        · exact hsafe
  | some failed =>
      change dispatchGroups (received (joinGroups [])) = _ ↔ _
      rw [hempty]
      simp [eq_comm]

/-- One group whose name holds a comma is read as two, the second being the
admin group. -/
theorem group_claims_fail_at_comma :
    ¬ GroupClaimsHold none ["tak_x,monitor_admin"] ∧
      "monitor_admin" ∉ ["tak_x,monitor_admin"] ∧
      requireGroup none "monitor_admin" (dispatchGroups (received
        (remoteGroups none ["tak_x,monitor_admin"]))) = .ok () := by
  refine ⟨fun h => absurd h.1 (by decide), by decide, by decide⟩

end FastTAK.GroupHeader
