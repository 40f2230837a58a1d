import FastTAK.Base.Text

/-!
# The age identity

The file that `age-keygen` writes on the first backup and nothing writes again.  Archives are
encrypted to the recipient that is read from it, and the operator downloads it as it is.  A
generation that is cut off leaves what it has written.
-/

namespace FastTAK.AgeIdentity

open FastTAK.Text

/-! ## The file -/

def marker : List Char := "AGE-SECRET-KEY-".toList

def createdLabel : List Char := "# created: ".toList

def recipientLabel : List Char := "# public key:".toList

/-- What `age-keygen` generates, where `opens` tells which identities open what is encrypted to a
recipient.  An identity that is not complete does not. -/
structure Keypair (opens : List Char → List Char → Bool) where
  created : List Char
  recipient : List Char
  secret : List Char
  created_line : ∀ c ∈ created, isLineBreak c = false
  recipient_ne : recipient ≠ []
  recipient_solid : ∀ c ∈ recipient, isBlank c = false
  secret_solid : ∀ c ∈ secret, isBlank c = false
  secret_length : secret.length = 59
  opens_iff : ∀ identity, identity <+: marker ++ secret →
    (opens identity recipient = true ↔ identity = marker ++ secret)

section Histories

variable {opens : List Char → List Char → Bool}

def Keypair.identity (k : Keypair opens) : List Char := marker ++ k.secret

def Keypair.createdLine (k : Keypair opens) : List Char := createdLabel ++ k.created

def Keypair.recipientLine (k : Keypair opens) : List Char := recipientLabel ++ ' ' :: k.recipient

/-- The comments above the identity. -/
def Keypair.header (k : Keypair opens) : List Char :=
  k.createdLine ++ '\n' :: (k.recipientLine ++ ['\n'])

/-- What `age-keygen` writes. -/
def Keypair.text (k : Keypair opens) : List Char := k.header ++ (k.identity ++ ['\n'])

inductive KeyError
  | keygenFailed
  | malformed
deriving DecidableEq

/-- A line of the file, after the identity and the recipient found before it. -/
def parseLine (found : List Char × List Char) (line : List Char) : List Char × List Char :=
  if marker <+: line then (strip line, found.2)
  else if recipientLabel <+: line then (found.1, strip ((line.dropWhile (· ≠ ':')).drop 1))
  else found

/-- `_parse`: the identity and the recipient. -/
def parse (text : List Char) : Except KeyError (List Char × List Char) :=
  let found := (splitlines text).foldl parseLine ([], [])
  if found.1 = [] ∨ found.2 = [] then .error .malformed else .ok found

/-- How `age-keygen` goes: it finishes, or fails or is killed after it has written so many
characters, if it has created the file. -/
inductive Keygen (opens : List Char → List Char → Bool)
  | finishes (k : Keypair opens)
  | stops (k : Keypair opens) (written : Option ℕ)

/-- `load_or_create`. -/
def loadOrCreate (file : Option (List Char)) (keygen : Keygen opens) :
    Except KeyError (List Char × List Char) × Option (List Char) :=
  match file with
  | some text => (parse text, some text)
  | none =>
      match keygen with
      | .finishes k => (parse k.text, some k.text)
      | .stops k written => (.error .keygenFailed, written.map k.text.take)

/-! ## Histories -/

/-- The file, the recipients of the archives that were ever made, and the downloaded copies. -/
structure KeyStore where
  file : Option (List Char)
  archives : List (List Char)
  copies : List (List Char)

/-- A backup, of which the steps after the key succeed or not, or a download of the key. -/
inductive KeyEvent (opens : List Char → List Char → Bool)
  | backup (keygen : Keygen opens) (succeeds : Bool)
  | download

def KeyStore.step (w : KeyStore) : KeyEvent opens → KeyStore
  | .backup keygen succeeds =>
      let loaded := loadOrCreate w.file keygen
      match loaded.1 with
      | .ok found =>
          { w with
            file := loaded.2
            archives := if succeeds then found.2 :: w.archives else w.archives }
      | .error _ => { w with file := loaded.2 }
  | .download => { w with copies := w.file.toList ++ w.copies }

def run (events : List (KeyEvent opens)) : KeyStore := events.foldl KeyStore.step ⟨none, [], []⟩

end Histories

/-! ## The beginning of a file -/

section Parse

variable {opens : List Char → List Char → Bool} {k : Keypair opens}
  {text first line rest : List Char} {lines : List (List Char)} {found : List Char × List Char}

theorem isLineBreak_of_not_isBlank {c : Char} (h : isBlank c = false) : isLineBreak c = false := by
  simp only [isBlank, isLineBreak, Bool.or_eq_false_iff, Bool.and_eq_false_iff,
    decide_eq_false_iff_not, beq_eq_false_iff_ne] at h ⊢
  omega

theorem strip_solid (h : ∀ c ∈ text, isBlank c = false) : strip text = text := by
  rw [strip_eq_self_iff]
  constructor
  · intro c hc
    simpa using h c (List.mem_of_head? hc)
  · intro c hc
    simpa using h c (List.mem_of_getLast? hc)

theorem splitlines_solid (hline : ∀ c ∈ line, isLineBreak c = false) (hne : line ≠ []) :
    splitlines line = [line] := by
  induction line with
  | nil => exact absurd rfl hne
  | cons c line ih =>
      obtain ⟨hc, hrest⟩ := List.forall_mem_cons.mp hline
      rw [splitlines_cons_of_not_break hc]
      by_cases hnil : line = []
      · subst hnil
        rfl
      · rw [ih hrest hnil]

theorem eq_of_mem_splitlines (hline : ∀ c ∈ line, isLineBreak c = false)
    (hmem : text ∈ splitlines line) : text = line := by
  by_cases hnil : line = []
  · subst hnil
    cases hmem
  · rw [splitlines_solid hline hnil] at hmem
    exact List.mem_singleton.mp hmem

/-- The beginning of two lines is the beginning of the first, or goes into the second. -/
theorem prefix_line_cases (h : text <+: first ++ '\n' :: rest) :
    text <+: first ∨ ∃ tail, text = first ++ '\n' :: tail ∧ tail <+: rest := by
  have hjoined : text <+: (first ++ ['\n']) ++ rest := by
    rw [List.append_assoc]
    exact h
  rcases List.prefix_or_prefix_of_prefix hjoined (List.prefix_append _ rest) with hshort | hlong
  · rcases List.prefix_concat_iff.mp hshort with heq | hshort
    · exact .inr ⟨[], heq, List.nil_prefix⟩
    · exact .inl hshort
  · obtain ⟨tail, rfl⟩ := hlong
    have htail := (List.prefix_append_right_inj (first ++ ['\n'])).mp hjoined
    exact .inr ⟨tail, List.append_assoc first ['\n'] tail, htail⟩

theorem not_marker_of_comment (h : line.head? = some '#') : ¬ marker <+: line := by
  rintro ⟨tail, rfl⟩
  have hhead : (marker ++ tail).head? = some 'A' := rfl
  rw [hhead] at h
  exact absurd h (by decide)

theorem not_recipientLabel_of_marker (h : marker <+: line) : ¬ recipientLabel <+: line := by
  intro hlabel
  have hhead : line.head? = some '#' := by
    obtain ⟨tail, rfl⟩ := hlabel
    rfl
  exact not_marker_of_comment hhead h

theorem head?_eq_of_leads (h : text <+: line) (hne : text ≠ []) : text.head? = line.head? := by
  obtain ⟨tail, rfl⟩ := h
  rw [List.head?_append_of_ne_nil _ hne]

/-- Without a line of the identity there is none. -/
theorem fst_foldl_parseLine (h : ∀ line ∈ lines, ¬ marker <+: line) :
    (lines.foldl parseLine found).1 = found.1 := by
  induction lines generalizing found with
  | nil => rfl
  | cons line lines ih =>
      obtain ⟨hline, hlines⟩ := List.forall_mem_cons.mp h
      have hsame : (parseLine found line).1 = found.1 := by
        rw [parseLine, if_neg hline]
        split_ifs
        · rfl
        · rfl
      rw [List.foldl_cons, ih hlines, hsame]

theorem parse_of_no_marker (h : ∀ line ∈ splitlines text, ¬ marker <+: line) :
    parse text = .error .malformed := by
  have hnone : ((splitlines text).foldl parseLine ([], [])).1 = [] := fst_foldl_parseLine h
  exact if_pos (.inl hnone)

namespace Keypair

theorem createdLine_solid (k : Keypair opens) : ∀ c ∈ k.createdLine, isLineBreak c = false := by
  intro c hc
  rcases List.mem_append.mp hc with hc | hc
  · have hlabel : createdLabel.all (fun c => !isLineBreak c) = true := by decide
    exact (Bool.not_eq_true' _).mp (List.all_eq_true.mp hlabel c hc)
  · exact k.created_line c hc

theorem recipientLine_solid (k : Keypair opens) : ∀ c ∈ k.recipientLine, isLineBreak c = false := by
  intro c hc
  rcases List.mem_append.mp hc with hc | hc
  · have hlabel : recipientLabel.all (fun c => !isLineBreak c) = true := by decide
    exact (Bool.not_eq_true' _).mp (List.all_eq_true.mp hlabel c hc)
  · rcases List.mem_cons.mp hc with rfl | hc
    · decide
    · exact isLineBreak_of_not_isBlank (k.recipient_solid c hc)

theorem identity_solid (k : Keypair opens) : ∀ c ∈ k.identity, isBlank c = false := by
  intro c hc
  rcases List.mem_append.mp hc with hc | hc
  · have hmarker : marker.all (fun c => !isBlank c) = true := by decide
    exact (Bool.not_eq_true' _).mp (List.all_eq_true.mp hmarker c hc)
  · exact k.secret_solid c hc

theorem head?_createdLine (k : Keypair opens) : k.createdLine.head? = some '#' := rfl

theorem head?_recipientLine (k : Keypair opens) : k.recipientLine.head? = some '#' := rfl

theorem header_append (k : Keypair opens) (rest : List Char) :
    k.header ++ rest = k.createdLine ++ '\n' :: (k.recipientLine ++ '\n' :: rest) := by
  rw [header, List.append_assoc, List.cons_append, List.append_assoc, List.singleton_append]

end Keypair

theorem parseLine_createdLine : parseLine found k.createdLine = found := by
  have hlabel : ¬ recipientLabel <+: k.createdLine := by
    rintro ⟨tail, htail⟩
    have hthird : some 'p' = some 'c' := congrArg (fun shown : List Char => shown[2]?) htail
    exact absurd hthird (by decide)
  rw [parseLine, if_neg (not_marker_of_comment k.head?_createdLine), if_neg hlabel]

theorem parseLine_recipientLine : parseLine found k.recipientLine = (found.1, k.recipient) := by
  have hlabel : recipientLabel <+: k.recipientLine := List.prefix_append recipientLabel _
  have hvalue : (k.recipientLine.dropWhile (· ≠ ':')).drop 1 = ' ' :: k.recipient := rfl
  rw [parseLine, if_neg (not_marker_of_comment k.head?_recipientLine),
    if_pos hlabel, hvalue, strip_cons_of_blank (by decide),
    strip_solid k.recipient_solid]

/-- A file that is cut off in the comments. -/
theorem parse_comments
    (h : text <+: k.createdLine ++ '\n' :: k.recipientLine) : parse text = .error .malformed := by
  have hcomment : ∀ {line part : List Char}, (∀ c ∈ line, isLineBreak c = false) →
      line.head? = some '#' → part <+: line → ∀ shown ∈ splitlines part, ¬ marker <+: shown := by
    intro line part hsolid hhead hpart shown hshown
    have hshownEq := eq_of_mem_splitlines (fun c hc => hsolid c (hpart.mem hc)) hshown
    subst hshownEq
    by_cases hne : shown = []
    · subst hne
      cases hshown
    · exact not_marker_of_comment (by rw [head?_eq_of_leads hpart hne, hhead])
  apply parse_of_no_marker
  rcases prefix_line_cases h with hcreated | ⟨tail, rfl, htail⟩
  · exact hcomment k.createdLine_solid k.head?_createdLine hcreated
  · intro shown hshown
    rw [splitlines_line k.createdLine_solid] at hshown
    rcases List.mem_cons.mp hshown with rfl | hshown
    · exact not_marker_of_comment k.head?_createdLine
    · exact hcomment k.recipientLine_solid k.head?_recipientLine htail shown hshown

theorem parse_after_comments (hlines : splitlines rest = [line] ∨ splitlines rest = [] ∧ line = [])
    (hsolid : ∀ c ∈ line, isBlank c = false) (hlabel : ¬ recipientLabel <+: line) :
    parse (k.createdLine ++ '\n' :: (k.recipientLine ++ '\n' :: rest)) =
      if marker <+: line then .ok (line, k.recipient) else .error .malformed := by
  have hfold : (splitlines (k.createdLine ++ '\n' :: (k.recipientLine ++ '\n' :: rest))).foldl
      parseLine ([], []) = if marker <+: line then (line, k.recipient) else ([], k.recipient) := by
    rw [splitlines_line k.createdLine_solid, splitlines_line k.recipientLine_solid,
      List.foldl_cons, List.foldl_cons, parseLine_createdLine, parseLine_recipientLine]
    rcases hlines with hone | ⟨hnone, rfl⟩
    · rw [hone, List.foldl_cons, List.foldl_nil, parseLine, strip_solid hsolid, if_neg hlabel]
    · rw [hnone, List.foldl_nil, if_neg (by decide)]
  rw [parse, hfold]
  by_cases hmarker : marker <+: line
  · have hne : line ≠ [] := by
      rintro rfl
      exact absurd hmarker (by decide)
    rw [if_pos hmarker, if_pos hmarker]
    exact if_neg (not_or.mpr ⟨hne, k.recipient_ne⟩)
  · rw [if_neg hmarker, if_neg hmarker]
    exact if_pos (.inl rfl)

/-- After the comments the file is as good as the beginning of the identity in it. -/
theorem parse_header (h : rest <+: k.identity ++ ['\n']) :
    parse (k.header ++ rest) =
      if marker <+: rest then .ok (rest.take k.identity.length, k.recipient)
      else .error .malformed := by
  have hlabel : ∀ part, part <+: k.identity → ¬ recipientLabel <+: part := by
    intro part hpart hlabel
    exact not_recipientLabel_of_marker (List.prefix_append marker k.secret) (hlabel.trans hpart)
  rw [Keypair.header_append]
  rcases List.prefix_concat_iff.mp h with rfl | hpart
  · have hlines : splitlines (k.identity ++ ['\n']) = [k.identity] :=
      splitlines_line (fun c hc => isLineBreak_of_not_isBlank (k.identity_solid c hc)) []
    have hmarker : marker <+: k.identity := List.prefix_append marker k.secret
    rw [parse_after_comments (.inl hlines) k.identity_solid (hlabel _ List.prefix_rfl),
      if_pos hmarker, if_pos (hmarker.trans (List.prefix_append _ _)), List.take_left]
  · have hsolid : ∀ c ∈ rest, isBlank c = false := fun c hc => k.identity_solid c (hpart.mem hc)
    have hlines : splitlines rest = [rest] ∨ splitlines rest = [] ∧ rest = [] := by
      by_cases hnil : rest = []
      · subst hnil
        exact .inr ⟨rfl, rfl⟩
      · exact .inl (splitlines_solid (fun c hc => isLineBreak_of_not_isBlank (hsolid c hc)) hnil)
    rw [parse_after_comments hlines hsolid (hlabel _ hpart),
      List.take_of_length_le hpart.length_le]

/-- A file that reads has the comments, and a beginning of the identity after them. -/
theorem exists_of_parse_ok (h : text <+: k.text) (hok : parse text = .ok found) :
    ∃ rest, text = k.header ++ rest ∧ marker <+: rest ∧ rest <+: k.identity ++ ['\n'] ∧
      found = (rest.take k.identity.length, k.recipient) := by
  rw [Keypair.text, Keypair.header_append] at h
  have hshort : ¬ text <+: k.createdLine ++ '\n' :: k.recipientLine := by
    intro hshort
    rw [parse_comments hshort] at hok
    cases hok
  rcases prefix_line_cases h with hcreated | ⟨tail, rfl, htail⟩
  · exact absurd (hcreated.trans (List.prefix_append _ _)) hshort
  · rcases prefix_line_cases htail with hrecipient | ⟨rest, rfl, hrest⟩
    · refine absurd ?_ hshort
      rw [List.prefix_append_right_inj, List.cons_prefix_cons]
      exact ⟨rfl, hrecipient⟩
    · rw [← Keypair.header_append] at hok ⊢
      rw [parse_header hrest] at hok
      split_ifs at hok with hmarker
      exact ⟨rest, rfl, hmarker, hrest, (Except.ok.inj hok).symm⟩

end Parse

/-! ## Every history -/

section Run

variable {opens : List Char → List Char → Bool} {k : Keypair opens} {text : List Char}
  {w : KeyStore} {event : KeyEvent opens} {events : List (KeyEvent opens)}

/-- The file is there for good, and the archives and the copies go with it. -/
structure KeyStore.Kept (w : KeyStore) (text : List Char) : Prop where
  file : w.file = some text
  archives : ∀ archive ∈ w.archives, ∃ identity, parse text = .ok (identity, archive)
  copies : ∀ copy ∈ w.copies, copy = text

theorem KeyStore.Kept.step (h : w.Kept text) (event : KeyEvent opens) :
    (w.step event).Kept text := by
  cases event with
  | download =>
      refine ⟨h.file, h.archives, ?_⟩
      intro copy hcopy
      rcases List.mem_append.mp hcopy with hnew | hold
      · rw [h.file] at hnew
        exact List.mem_singleton.mp hnew
      · exact h.copies copy hold
  | backup keygen succeeds =>
      have hloaded : loadOrCreate w.file keygen = (parse text, some text) := by
        rw [h.file]
        rfl
      rw [KeyStore.step, hloaded]
      cases hparse : parse text with
      | error err => exact ⟨rfl, h.archives, h.copies⟩
      | ok found =>
          refine ⟨rfl, ?_, h.copies⟩
          intro archive harchive
          split_ifs at harchive
          · rcases List.mem_cons.mp harchive with rfl | hold
            · exact ⟨found.1, hparse⟩
            · exact h.archives archive hold
          · exact h.archives archive harchive

/-- Before the first generation there is nothing; a generation leaves a beginning of what it
writes. -/
theorem step_empty (event : KeyEvent opens) :
    KeyStore.step ⟨none, [], []⟩ event = ⟨none, [], []⟩ ∨
      ∃ (k : Keypair opens) (text : List Char), text <+: k.text ∧
        (KeyStore.step ⟨none, [], []⟩ event).Kept text := by
  cases event with
  | download => exact .inl rfl
  | backup keygen succeeds =>
      cases keygen with
      | finishes k =>
          refine .inr ⟨k, k.text, List.prefix_rfl, ?_⟩
          have hfirst : KeyStore.step ⟨none, [], []⟩ (.backup (.finishes k) succeeds) =
              KeyStore.step ⟨some k.text, [], []⟩ (.backup (.finishes k) succeeds) := rfl
          have hkept : KeyStore.Kept ⟨some k.text, [], []⟩ k.text :=
            ⟨rfl, fun _ hmem => absurd hmem List.not_mem_nil,
              fun _ hmem => absurd hmem List.not_mem_nil⟩
          rw [hfirst]
          exact hkept.step _
      | stops k written =>
          cases written with
          | none => exact .inl rfl
          | some count =>
              exact .inr ⟨k, k.text.take count, List.take_prefix _ _, rfl,
                fun _ hmem => absurd hmem List.not_mem_nil,
                fun _ hmem => absurd hmem List.not_mem_nil⟩

theorem run_concat (events : List (KeyEvent opens)) (event : KeyEvent opens) :
    run (events ++ [event]) = (run events).step event := by
  rw [run, run, List.foldl_append, List.foldl_cons, List.foldl_nil]

theorem run_cases (events : List (KeyEvent opens)) :
    run events = ⟨none, [], []⟩ ∨
      ∃ (k : Keypair opens) (text : List Char), text <+: k.text ∧ (run events).Kept text := by
  induction events using List.reverseRecOn with
  | nil => exact .inl rfl
  | append_singleton events event ih =>
      rw [run_concat]
      rcases ih with hempty | ⟨k, text, htext, hkept⟩
      · rw [hempty]
        exact step_empty event
      · exact .inr ⟨k, text, htext, hkept.step event⟩

/-- All the archives of a history are encrypted to the recipient in the downloaded copies.  The
identity there opens them unless the generation was cut off within it. -/
theorem archives_open_iff (events : List (KeyEvent opens)) :
    ∀ archive ∈ (run events).archives, ∃ (k : Keypair opens) (identity text : List Char),
      archive = k.recipient ∧ (run events).file = some text ∧ text <+: k.text ∧
        k.header ++ marker <+: text ∧ (∀ copy ∈ (run events).copies, copy = text) ∧
          parse text = .ok (identity, archive) ∧
            (opens identity archive = true ↔ k.header ++ k.identity <+: text) := by
  intro archive harchive
  rcases run_cases events with hempty | ⟨k, text, htext, hkept⟩
  · rw [hempty] at harchive
    cases harchive
  · obtain ⟨identity, hparse⟩ := hkept.archives archive harchive
    obtain ⟨rest, rfl, hmarker, hrest, hfound⟩ := exists_of_parse_ok htext hparse
    obtain ⟨hidentity, rfl⟩ := Prod.mk.inj hfound
    have hbeginning : identity <+: k.identity := by
      rw [hidentity]
      rcases List.prefix_concat_iff.mp hrest with rfl | hpart
      · rw [List.take_left]
      · exact (List.take_prefix _ _).trans hpart
    have hcomplete : identity = k.identity ↔ k.header ++ k.identity <+: k.header ++ rest := by
      rw [List.prefix_append_right_inj, List.prefix_iff_eq_take, hidentity, eq_comm]
    have hmarked : k.header ++ marker <+: k.header ++ rest :=
      (List.prefix_append_right_inj k.header).mpr hmarker
    exact ⟨k, identity, _, rfl, hkept.file, htext, hmarked, hkept.copies, hparse,
      (k.opens_iff identity hbeginning).trans hcomplete⟩

/-- Complete identities open everything. -/
def completeOpens (identity _recipient : List Char) : Bool := identity.length = 74

def plainKey : Keypair completeOpens where
  created := []
  recipient := ['r']
  secret := List.replicate 59 'Q'
  created_line := fun _ hc => absurd hc List.not_mem_nil
  recipient_ne := List.cons_ne_nil _ _
  recipient_solid := by
    intro c hc
    rw [List.mem_singleton.mp hc]
    decide
  secret_solid := by
    intro c hc
    rw [(List.mem_replicate.mp hc).2]
    decide
  secret_length := List.length_replicate
  opens_iff := by
    intro identity hidentity
    have hmarker : marker.length = 15 := by decide
    rw [completeOpens, decide_eq_true_eq]
    constructor
    · intro hlength
      apply hidentity.eq_of_length
      rw [hlength, List.length_append, List.length_replicate, hmarker]
    · rintro rfl
      rw [List.length_append, List.length_replicate, hmarker]

/-- A generation that was cut off within the identity, and a backup after it. -/
def cutOffEvents : List (KeyEvent completeOpens) :=
  [.backup (.stops plainKey (some (plainKey.header.length + 20))) true,
    .backup (.finishes plainKey) true, .download]

theorem cutOff_archives_open : ∃ (k : Keypair completeOpens) (identity text : List Char),
    ['r'] = k.recipient ∧ (run cutOffEvents).file = some text ∧ text <+: k.text ∧
      k.header ++ marker <+: text ∧ (∀ copy ∈ (run cutOffEvents).copies, copy = text) ∧
        parse text = .ok (identity, ['r']) ∧
          (completeOpens identity ['r'] = true ↔ k.header ++ k.identity <+: text) :=
  archives_open_iff cutOffEvents ['r'] (by decide +kernel)

end Run

end FastTAK.AgeIdentity
