import FastTAK.Monitor.Direction
import FastTAK.Monitor.ListEvaluation
import FastTAK.Monitor.ProbeErrors

/-!
# Endpoints with the same certificate date

`get_tls_status` lists the first endpoint of each expiry date.  The severity of an endpoint
depends on the days that it has left, which another endpoint of the same date need not share.
-/

namespace FastTAK.Health

open FastTAK.Calendar

/-! ## What the probes return -/

/-- What a probe of an endpoint returns: the reason why it could not be read, or its expiry at
the moment of the probe. -/
inductive Probed where
  | failed (domain reason : String) (hreason : reason ≠ "")
  | read (domain : String) (expiry : DateTime) (now : ℚ)

namespace Probed

def info : Probed → Fields
  | failed domain reason _ => errorItem "domain" domain reason
  | read domain expiry now =>
      [("domain", .str domain), ("expires", .str (isoDate expiry)),
        ("days_left", daysLeft expiry now)]

/-- The date that stands for the certificate. -/
def date : Probed → Option String
  | failed _ _ _ => none
  | read _ expiry _ => some (isoDate expiry)

/-- The endpoint was read and has at most so many days left. -/
def Within (level : ℚ) : Probed → Prop
  | failed _ _ _ => False
  | read _ expiry now => (⌊((expiry.seconds : ℚ) - now) / 86400⌋ : ℚ) ≤ level

instance (level : ℚ) (p : Probed) : Decidable (p.Within level) :=
  match p with
  | failed _ _ _ => inferInstanceAs (Decidable False)
  | read _ expiry now =>
      inferInstanceAs (Decidable ((⌊((expiry.seconds : ℚ) - now) / 86400⌋ : ℚ) ≤ level))

/-- The status of an endpoint on its own. -/
def status (warning critical : ℚ) (p : Probed) : Status :=
  if p.Within critical then .critical
  else if p.date = none ∨ p.Within warning then .warning
  else .ok

end Probed

/-- A probe that returns has failed for a reason or has read an expiry. -/
theorem exists_probed {now : ℚ} {hostname : String} {port : ℕ} {h : Handshake} {info : Fields}
    (hinfo : probeTlsExpiry now hostname port h = .ok info) : ∃ p : Probed, p.info = info := by
  by_cases hunread : h.Unread
  · obtain ⟨text, htext, rfl⟩ := probeTlsExpiry_of_unread hunread hinfo
    exact ⟨.failed _ text htext, rfl⟩
  · cases h with
    | leaf expiry => exact ⟨.read _ expiry now, Except.ok.inj hinfo⟩
    | _ => exact absurd (fun expiry h => by cases h) hunread

/-! ## The collapse -/

/-- One round of the loop of `get_tls_status`, after the probe. -/
def collapseRound (found : List Value × List Fields) (info : Fields) :
    List Value × List Fields :=
  if info.has "error" then (found.1, found.2 ++ [info])
  else
    let key := (info.lookup "expires").getD .null
    if key ∈ found.1 then found else (key :: found.1, found.2 ++ [info])

/-- What `get_tls_status` makes of the results of its probes. -/
def collapse (infos : List Fields) : List Fields := (infos.foldl collapseRound ([], [])).2

/-- The endpoints that are listed. -/
def listed : List String → List Probed → List Probed
  | _, [] => []
  | seen, p :: probes =>
      match p.date with
      | none => p :: listed seen probes
      | some date =>
          if date ∈ seen then listed seen probes else p :: listed (date :: seen) probes

/-- The first endpoint of its date. -/
def FirstOfDate (probes : List Probed) (p : Probed) : Prop :=
  ∃ before after, probes = before ++ p :: after ∧ p.date ≠ none ∧ ∀ q ∈ before, q.date ≠ p.date

/-- The endpoint is listed where those before it were not, and these dates were seen. -/
def Fresh (seen : List String) (before : List Probed) (p : Probed) : Prop :=
  p.date = none ∨ (∀ date ∈ p.date, date ∉ seen) ∧ ∀ q ∈ before, q.date ≠ p.date

theorem fresh_cons_of_none {seen : List String} {first p : Probed} {before : List Probed}
    (hfirst : first.date = none) : Fresh seen (first :: before) p ↔ Fresh seen before p := by
  unfold Fresh
  rw [List.forall_mem_cons, hfirst]
  apply or_congr_right'
  intro hdate
  rw [and_iff_right (Ne.symm hdate)]

theorem fresh_cons_of_mem {seen : List String} {first p : Probed} {before : List Probed}
    {date : String} (hfirst : first.date = some date) (hseen : date ∈ seen) :
    Fresh seen (first :: before) p ↔ Fresh seen before p := by
  unfold Fresh
  rw [List.forall_mem_cons, hfirst]
  apply or_congr_right
  apply and_congr_right
  intro hfresh
  apply and_iff_right
  intro hsame
  exact hfresh date hsame.symm hseen

theorem fresh_cons_of_not_mem {seen : List String} {first p : Probed} {before : List Probed}
    {date : String} (hfirst : first.date = some date) :
    Fresh seen (first :: before) p ↔ Fresh (date :: seen) before p := by
  unfold Fresh
  rw [List.forall_mem_cons, hfirst]
  apply or_congr_right
  rw [← and_assoc]
  apply and_congr_left
  intro _
  cases p.date with
  | none => simp
  | some other =>
      simp only [Option.mem_some_iff, forall_eq', List.mem_cons, not_or, ne_eq, Option.some.injEq]
      rw [and_comm, eq_comm]

theorem exists_append_cons_iff {first p : Probed} {probes : List Probed}
    {property : List Probed → Prop} :
    (∃ before after, first :: probes = before ++ p :: after ∧ property before) ↔
      p = first ∧ property [] ∨
        ∃ before after, probes = before ++ p :: after ∧ property (first :: before) := by
  constructor
  · intro h
    obtain ⟨before, after, hsplit, hproperty⟩ := h
    cases before with
    | nil =>
        obtain ⟨rfl, rfl⟩ := List.cons.inj hsplit
        exact .inl ⟨rfl, hproperty⟩
    | cons head before =>
        obtain ⟨rfl, hrest⟩ := List.cons.inj hsplit
        exact .inr ⟨before, after, hrest, hproperty⟩
  · intro h
    cases h with
    | inl hhead =>
        obtain ⟨rfl, hproperty⟩ := hhead
        exact ⟨[], probes, rfl, hproperty⟩
    | inr htail =>
        obtain ⟨before, after, rfl, hproperty⟩ := htail
        exact ⟨first :: before, after, rfl, hproperty⟩

theorem mem_listed_iff {seen : List String} {probes : List Probed} {p : Probed} :
    p ∈ listed seen probes ↔
      ∃ before after, probes = before ++ p :: after ∧ Fresh seen before p := by
  induction probes generalizing seen with
  | nil => simp [listed]
  | cons first probes ih =>
      rw [exists_append_cons_iff, listed]
      cases hdate : first.date with
      | none =>
          simp only [List.mem_cons, ih, fresh_cons_of_none hdate]
          apply or_congr_left
          apply (and_iff_left_of_imp _).symm
          rintro rfl
          exact .inl hdate
      | some date =>
          dsimp only
          split_ifs with hseen
          · simp only [ih, fresh_cons_of_mem hdate hseen]
            apply (or_iff_right _).symm
            rintro ⟨rfl, hfresh⟩
            rcases hfresh with hnone | hnew
            · rw [hdate] at hnone
              cases hnone
            · exact hnew.1 date hdate hseen
          · simp only [List.mem_cons, ih, fresh_cons_of_not_mem hdate]
            apply or_congr_left
            apply (and_iff_left_of_imp _).symm
            rintro rfl
            refine .inr ⟨?_, fun q hq => absurd hq List.not_mem_nil⟩
            intro other hother
            rw [hdate] at hother
            obtain rfl := Option.some.inj hother
            exact hseen

theorem mem_of_mem_listed {seen : List String} {probes : List Probed} {p : Probed}
    (hp : p ∈ listed seen probes) : p ∈ probes := by
  obtain ⟨before, after, rfl, -⟩ := mem_listed_iff.mp hp
  simp

/-- Listed are the endpoints that could not be read and the first of each date. -/
theorem mem_listed_nil_iff {probes : List Probed} {p : Probed} :
    p ∈ listed [] probes ↔ p ∈ probes ∧ p.date = none ∨ FirstOfDate probes p := by
  rw [mem_listed_iff]
  constructor
  · intro h
    obtain ⟨before, after, rfl, hfresh⟩ := h
    by_cases hdate : p.date = none
    · exact .inl ⟨by simp, hdate⟩
    · exact .inr ⟨before, after, rfl, hdate, (hfresh.resolve_left hdate).2⟩
  · intro h
    rcases h with ⟨hmem, hdate⟩ | hfirst
    · obtain ⟨before, after, rfl⟩ := List.append_of_mem hmem
      exact ⟨before, after, rfl, .inl hdate⟩
    · obtain ⟨before, after, rfl, hdate, hbefore⟩ := hfirst
      exact ⟨before, after, rfl, .inr ⟨fun _ _ => List.not_mem_nil, hbefore⟩⟩

/-- The loop lists these. -/
theorem foldl_collapseRound (seen : List String) (found : List Fields) (probes : List Probed) :
    ((probes.map Probed.info).foldl collapseRound (seen.map Value.str, found)).2 =
      found ++ (listed seen probes).map Probed.info := by
  induction probes generalizing seen found with
  | nil => simp [listed]
  | cons p probes ih =>
      rw [List.map_cons, List.foldl_cons]
      cases p with
      | failed domain reason hreason =>
          have hround : collapseRound (seen.map Value.str, found)
              (Probed.failed domain reason hreason).info =
              (seen.map Value.str, found ++ [(Probed.failed domain reason hreason).info]) := rfl
          rw [hround, ih]
          simp [listed, Probed.date]
      | read domain expiry now =>
          have hkey :
              (Value.str (isoDate expiry) ∈ seen.map Value.str) ↔ isoDate expiry ∈ seen := by
            simp
          by_cases hseen : isoDate expiry ∈ seen
          · have hround : collapseRound (seen.map Value.str, found)
                (Probed.read domain expiry now).info = (seen.map Value.str, found) :=
              if_pos (hkey.mpr hseen)
            rw [hround, ih]
            simp [listed, Probed.date, hseen]
          · have hround : collapseRound (seen.map Value.str, found)
                (Probed.read domain expiry now).info = ((isoDate expiry :: seen).map Value.str,
                  found ++ [(Probed.read domain expiry now).info]) :=
              if_neg (fun h => hseen (hkey.mp h))
            rw [hround, ih]
            simp [listed, Probed.date, hseen]

theorem collapse_probed (probes : List Probed) :
    collapse (probes.map Probed.info) = (listed [] probes).map Probed.info :=
  foldl_collapseRound [] [] probes

/-- `get_tls_status` collapses what its probes return. -/
theorem getTlsStatus_of_probes {settings : TlsSettings} {now : ℚ}
    {handshake : String → ℕ → Handshake} {infos : List Fields}
    (hprobes : List.Forall₂ (fun endpoint info =>
      probeTlsExpiry now endpoint.1 endpoint.2 (handshake endpoint.1 endpoint.2) = .ok info)
      (endpoints settings) infos) :
    getTlsStatus settings now handshake = .ok (.items (collapse infos)) := by
  have hround : ∀ (found : List Value × List Fields) endpoint info,
      probeTlsExpiry now endpoint.1 endpoint.2 (handshake endpoint.1 endpoint.2) = .ok info →
      tlsRound now handshake found endpoint = .ok (collapseRound found info) := by
    intro found endpoint info hinfo
    unfold tlsRound collapseRound
    simp only [hinfo, bind, Except.bind, pure, Except.pure]
    by_cases herror : info.has "error"
    · simp [herror]
    · by_cases hseen : (info.lookup "expires").getD .null ∈ found.1
      · simp [herror, hseen]
      · simp [herror, hseen]
  have hloop : ∀ found, (endpoints settings).foldlM (tlsRound now handshake) found =
      .ok (infos.foldl collapseRound found) := by
    generalize endpoints settings = list at hprobes
    induction hprobes with
    | nil => exact fun found => rfl
    | cons hinfo _ ih =>
        intro found
        rw [List.foldlM_cons, hround found _ _ hinfo]
        exact ih _
  rw [getTlsStatus, hloop]
  rfl

/-! ## The status of the service -/

/-- A threshold for the days that are left. -/
def daysConfig (warning critical : ℚ) : ServiceConfig where
  thresholds := some [("days_left", .table
    [("warning", .num warning (toString warning)),
      ("critical", .num critical (toString critical))])]
  alertMinLevel := some "warning"

/-- With one threshold the status of an item is that of its value. -/
theorem itemStatus_of_single {item : Fields} {key : String} {levels : Levels} {value : Value}
    (herror : reportsError item = false) (hparameter : isParameter key = false)
    (hlookup : item.lookup key = some value) :
    (itemStatus item [(key, levels)]).map Prod.fst =
      (checkThreshold key value levels).map Prod.fst := by
  rw [itemStatus, herror, if_neg Bool.false_ne_true, worstThreshold, List.foldlM_cons,
    worseThreshold, if_neg (by simp [hparameter]), hlookup]
  cases hcheck : checkThreshold key value levels with
  | none => simp [hcheck]
  | some found =>
      simp only [hcheck, Option.bind_eq_bind, Option.bind_some, List.foldlM_nil, Option.pure_def,
        Option.map_some, Option.some_inj, apply_ite Prod.fst]
      split_ifs with habove
      · rfl
      · rw [le_antisymm (not_lt.mp habove) (Status.ok_le _)]

section Status

variable {warning critical : ℚ}

theorem status_of_info (hlevels : critical < warning) (p : Probed) :
    (itemStatus p.info (daysConfig warning critical).levels).map Prod.fst =
      some (p.status warning critical) := by
  cases p with
  | failed domain reason hreason =>
      have herror : reportsError (Probed.failed domain reason hreason).info := by
        simpa [reportsError, Probed.info, errorItem, List.lookup, Value.truthy] using hreason
      rw [itemStatus, if_pos herror]
      rfl
  | read domain expiry now =>
      have hlevels' : (daysConfig warning critical).levels = [("days_left", .table
          [("warning", .num warning (toString warning)),
            ("critical", .num critical (toString critical))])] := rfl
      have hvalue : (Probed.read domain expiry now).info.lookup "days_left" =
          some (daysLeft expiry now) := rfl
      rw [hlevels', itemStatus_of_single rfl rfl hvalue, daysLeft, checkThreshold_of_rationals]
      simp only [severity, if_neg (not_lt.mpr hlevels.le), Probed.status, Probed.Within,
        Probed.date, reduceCtorEq, false_or]

theorem evaluable_info (p : Probed) : Evaluable (daysConfig warning critical).levels p.info where
  accepts := by
    intro entry hentry _ value hvalue
    obtain rfl := List.mem_singleton.mp hentry
    cases p with
    | failed domain reason hreason => cases hvalue
    | read domain expiry now =>
        obtain rfl := Option.some.inj hvalue
        exact ⟨rfl, .inr rfl⟩
  dead := .inl (.inl rfl)

theorem mapM_status (hlevels : critical < warning) (probes : List Probed) :
    (probes.map Probed.info).mapM (fun item =>
      (itemStatus item (daysConfig warning critical).levels).map Prod.fst) =
      some (probes.map (Probed.status warning critical)) := by
  induction probes with
  | nil => rfl
  | cons p probes ih =>
      apply Loop.mapM_cons_eq_some.mpr
      exact ⟨_, _, status_of_info hlevels p, ih, rfl⟩

/-- The service status of a list of results. -/
theorem evaluate_infos (hlevels : critical < warning) (probes : List Probed) :
    (evaluate (.items (probes.map Probed.info)) (daysConfig warning critical)).map
        Evaluated.status =
      some (Worst.greatest .ok (probes.map (Probed.status warning critical))) := by
  have hnames : ValidNames (daysConfig warning critical) := ⟨rfl, trivial, rfl⟩
  have hitems : ∀ item ∈ probes.map Probed.info,
      Evaluable (daysConfig warning critical).levels item := by
    intro item hitem
    obtain ⟨p, -, rfl⟩ := List.mem_map.mp hitem
    exact evaluable_info p
  obtain ⟨verdicts, e, hverdicts, he, hstatus, -⟩ := evaluate_items rfl hnames hitems
  have hunfiltered : Unfiltered (daysConfig warning critical).levels := .inl rfl
  rw [counted_of_unfiltered hunfiltered] at hverdicts
  have hall : verdicts.map Prod.fst = probes.map (Probed.status warning critical) := by
    have hstatuses := Loop.mapM_of_mapM (g := Prod.fst) hverdicts (fun _ _ => rfl)
    rw [mapM_status hlevels] at hstatuses
    exact (Option.some.inj hstatuses).symm
  rw [he, Option.map_some, hstatus, hall]

end Status

/-- What is listed is as bad as what was probed: if some endpoint is within a level, a first
of its date is, or a failed probe warns anyway. -/
structure Undiminished (warning critical : ℚ) (probes : List Probed) : Prop where
  critical : (∃ p ∈ probes, p.Within critical) →
    ∃ p, FirstOfDate probes p ∧ p.Within critical
  warning : (∃ p ∈ probes, p.Within warning) →
    (∃ p ∈ probes, p.date = none) ∨ ∃ p, FirstOfDate probes p ∧ p.Within warning

section Collapse

variable {warning critical : ℚ} {p : Probed} {probes : List Probed}

theorem critical_le_status_iff :
    .critical ≤ p.status warning critical ↔ p.Within critical := by
  unfold Probed.status
  split_ifs with hcritical hwarning
  · exact iff_of_true (le_refl _) hcritical
  · exact iff_of_false (by decide) hcritical
  · exact iff_of_false (by decide) hcritical

theorem Probed.Within.mono {level level' : ℚ} (h : p.Within level) (hle : level ≤ level') :
    p.Within level' := by
  cases p with
  | failed _ _ _ => exact h
  | read _ _ _ => exact le_trans h hle

theorem warning_le_status_iff (hlevels : critical < warning) :
    .warning ≤ p.status warning critical ↔ p.date = none ∨ p.Within warning := by
  unfold Probed.status
  split_ifs with hcritical hwarning
  · exact iff_of_true (by decide) (.inr (hcritical.mono hlevels.le))
  · exact iff_of_true (le_refl _) hwarning
  · exact iff_of_false (by decide) hwarning

theorem Probed.Within.date_ne {level : ℚ} (h : p.Within level) : p.date ≠ none := by
  cases p with
  | failed _ _ _ => exact h.elim
  | read _ _ _ => exact Option.some_ne_none _

theorem FirstOfDate.mem (h : FirstOfDate probes p) : p ∈ probes := by
  obtain ⟨before, after, rfl, -⟩ := h
  simp

/-- The greatest of the listed statuses is the greatest of all exactly if nothing worse is left
out. -/
theorem greatest_listed_iff (hlevels : critical < warning) :
    Worst.greatest .ok ((listed [] probes).map (Probed.status warning critical)) =
        Worst.greatest .ok (probes.map (Probed.status warning critical)) ↔
      Undiminished warning critical probes := by
  constructor
  · intro hsame
    have hlisted : ∀ level, .ok < level →
        (∃ p ∈ probes, level ≤ p.status warning critical) →
        ∃ p ∈ listed [] probes, level ≤ p.status warning critical := by
      intro level habove hsome
      obtain ⟨p, hp, hle⟩ := hsome
      have hgreatest : level ≤ Worst.greatest .ok (probes.map (Probed.status warning critical)) :=
        Worst.le_greatest_iff.mpr (.inr ⟨_, List.mem_map_of_mem hp, hle⟩)
      rw [← hsame, Worst.le_greatest_iff] at hgreatest
      obtain ⟨status, hmem, hbound⟩ := hgreatest.resolve_left (not_le.mpr habove)
      obtain ⟨q, hq, rfl⟩ := List.mem_map.mp hmem
      exact ⟨q, hq, hbound⟩
    constructor
    · intro hsome
      obtain ⟨p, hp, hwithin⟩ := hsome
      obtain ⟨q, hq, hle⟩ :=
        hlisted .critical (by decide) ⟨p, hp, critical_le_status_iff.mpr hwithin⟩
      rw [critical_le_status_iff] at hle
      rcases mem_listed_nil_iff.mp hq with hfailed | hfirst
      · exact absurd hfailed.2 hle.date_ne
      · exact ⟨q, hfirst, hle⟩
    · intro hsome
      obtain ⟨p, hp, hwithin⟩ := hsome
      obtain ⟨q, hq, hle⟩ := hlisted .warning (by decide)
        ⟨p, hp, (warning_le_status_iff hlevels).mpr (.inr hwithin)⟩
      rw [warning_le_status_iff hlevels] at hle
      rcases mem_listed_nil_iff.mp hq with hfailed | hfirst
      · exact .inl ⟨q, hfailed⟩
      · have hdate : q.date ≠ none := by
          obtain ⟨_, _, _, hdate, _⟩ := hfirst
          exact hdate
        exact .inr ⟨q, hfirst, hle.resolve_left hdate⟩
  · intro hundiminished
    apply le_antisymm
    · apply Worst.greatest_le_iff.mpr
      refine ⟨Status.ok_le _, fun status hstatus => ?_⟩
      obtain ⟨p, hp, rfl⟩ := List.mem_map.mp hstatus
      exact Worst.le_greatest_iff.mpr
        (.inr ⟨_, List.mem_map_of_mem (mem_of_mem_listed hp), le_refl _⟩)
    · apply Worst.greatest_le_iff.mpr
      refine ⟨Status.ok_le _, fun status hstatus => ?_⟩
      obtain ⟨p, hp, rfl⟩ := List.mem_map.mp hstatus
      have hreaches : ∀ q ∈ listed [] probes,
          p.status warning critical ≤ q.status warning critical →
          p.status warning critical ≤
            Worst.greatest .ok ((listed [] probes).map (Probed.status warning critical)) :=
        fun q hq hle => Worst.le_greatest_iff.mpr (.inr ⟨_, List.mem_map_of_mem hq, hle⟩)
      by_cases hcritical : p.Within critical
      · obtain ⟨q, hq, hwithin⟩ := hundiminished.critical ⟨p, hp, hcritical⟩
        apply hreaches q (mem_listed_nil_iff.mpr (.inr hq))
        exact (Status.le_critical _).trans (critical_le_status_iff.mpr hwithin)
      · have hmost : p.status warning critical ≤ .warning := by
          rw [Probed.status, if_neg hcritical]
          split_ifs <;> decide
        by_cases hfailed : p.date = none
        · exact hreaches p (mem_listed_nil_iff.mpr (.inl ⟨hp, hfailed⟩)) (le_refl _)
        · by_cases hwarning : p.Within warning
          · rcases hundiminished.warning ⟨p, hp, hwarning⟩ with ⟨q, hq, hnone⟩ | ⟨q, hq, hwithin⟩
            · apply hreaches q (mem_listed_nil_iff.mpr (.inl ⟨hq, hnone⟩))
              exact hmost.trans ((warning_le_status_iff hlevels).mpr (.inl hnone))
            · apply hreaches q (mem_listed_nil_iff.mpr (.inr hq))
              exact hmost.trans ((warning_le_status_iff hlevels).mpr (.inr hwithin))
          · rw [Probed.status, if_neg hcritical, if_neg (not_or.mpr ⟨hfailed, hwarning⟩)]
            exact Status.ok_le _

end Collapse

/-- Collapsing the endpoints leaves the status of the service what the endpoints on their own
say exactly if nothing worse is left out. -/
theorem collapsing_hides_nothing_iff (warning critical : ℚ) (hlevels : critical < warning)
    (probes : List Probed) :
    (∃ statuses, (probes.map Probed.info).mapM (fun item =>
        (itemStatus item (daysConfig warning critical).levels).map Prod.fst) = some statuses ∧
      (evaluate (.items (collapse (probes.map Probed.info))) (daysConfig warning critical)).map
        Evaluated.status = some (Worst.greatest .ok statuses)) ↔
      Undiminished warning critical probes := by
  rw [← greatest_listed_iff hlevels, collapse_probed, evaluate_infos hlevels, mapM_status hlevels]
  simp

/-! ## Two certificates of one day -/

def noon : DateTime := (DateTime.ofStamp ⟨2026, 5, 1, 12, 0, 0⟩).get (by decide)

def lateExpiry : DateTime := ⟨⟨2026, 5, 9, 23, 0, 0⟩, by decide⟩

def earlyExpiry : DateTime := ⟨⟨2026, 5, 9, 1, 0, 0⟩, by decide⟩

theorem one_endpoint_hides_nothing :
    ∃ statuses, ([Probed.read "tak.example.org" earlyExpiry noon.seconds].map
        Probed.info).mapM (fun item =>
          (itemStatus item (daysConfig 30 7).levels).map Prod.fst) = some statuses ∧
      (evaluate (.items (collapse
        ([Probed.read "tak.example.org" earlyExpiry noon.seconds].map Probed.info)))
          (daysConfig 30 7)).map Evaluated.status = some (Worst.greatest .ok statuses) := by
  apply (collapsing_hides_nothing_iff 30 7 (by norm_num) _).mpr
  have hfirst : ∀ p, p ∈ [Probed.read "tak.example.org" earlyExpiry noon.seconds] →
      FirstOfDate [Probed.read "tak.example.org" earlyExpiry noon.seconds] p := by
    intro p hp
    obtain rfl := List.mem_singleton.mp hp
    exact ⟨[], [], rfl, Option.some_ne_none _, fun q hq => absurd hq List.not_mem_nil⟩
  constructor
  · intro hsome
    obtain ⟨p, hp, hwithin⟩ := hsome
    exact ⟨p, hfirst p hp, hwithin⟩
  · intro hsome
    obtain ⟨p, hp, hwithin⟩ := hsome
    exact .inr ⟨p, hfirst p hp, hwithin⟩

def directSettings : TlsSettings where
  serverAddress := "tak.example.org"
  deployMode := "direct"
  takserverAdminPort := 8443
  noderedPort := 1880
  monitorPort := 8180
  mediamtxPort := 8888
  takserverSubdomain := "takserver"
  noderedSubdomain := "nodered"
  mediamtxSubdomain := "stream"

/-- The admin port has a certificate that ends earlier on the day. -/
def sameDayHandshake (_ : String) (port : ℕ) : Handshake :=
  .leaf (if port = 8443 then earlyExpiry else lateExpiry)

/-- The admin port is critical and the service warns. -/
theorem same_day_hides_critical :
    ((getTlsStatus directSettings noon.seconds sameDayHandshake).toOption.bind
        (fun raw => (evaluate raw expiryConfig).map Evaluated.status)) = some .warning ∧
      ((probeTlsExpiry noon.seconds "tak.example.org" 8443 (.leaf earlyExpiry)).toOption.bind
        (fun item => (itemStatus item expiryConfig.levels).map Prod.fst)) = some .critical := by
  decide +kernel

end FastTAK.Health
