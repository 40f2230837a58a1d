import Mathlib

/-!
# Substitution in a line

Patterns of the form `<head>[^<stop>]*<stop><tail>`, the leftmost match of one in a text, and the
commands of a line editor built on it.  A text is clear of a word if no occurrence of the word can
begin in it, whatever follows.
-/

namespace FastTAK.Substitute

/-! ## Clear texts -/

/-- No occurrence of the word begins in the text, whatever follows the text. -/
def Clear (word text : List Char) : Prop :=
  ∀ rest, rest <:+ text → rest ≠ [] → ¬ rest <+: word ∧ ¬ word <+: rest

instance (word text : List Char) : Decidable (Clear word text) :=
  decidable_of_iff
    (∀ rest ∈ text.tails, rest ≠ [] → ¬ rest <+: word ∧ ¬ word <+: rest) <| by
      simp only [List.mem_tails, Clear]

section Texts

variable {word left right : List Char} {c : Char}

/-- A character that the word lacks keeps its occurrences apart. -/
theorem prefix_append_cons_iff (hword : c ∉ word) :
    word <+: left ++ c :: right ↔ word <+: left := by
  constructor
  · intro h
    rcases List.prefix_or_prefix_of_prefix h (List.prefix_append left _) with hshort | hlong
    · exact hshort
    · obtain ⟨rest, rfl⟩ := hlong
      rw [List.prefix_append_right_inj] at h
      cases rest with
      | nil => rw [List.append_nil]
      | cons d rest =>
          obtain ⟨rfl, -⟩ := List.cons_prefix_cons.mp h
          exact absurd (by simp) hword
  · exact fun h => h.trans (List.prefix_append _ _)

theorem Clear.not_prefix (h : Clear word left) (hne : left ≠ []) (right : List Char) :
    ¬ word <+: left ++ right := by
  intro hword
  have hclear := h left List.suffix_rfl hne
  rcases List.prefix_or_prefix_of_prefix hword (List.prefix_append left right) with hshort | hlong
  · exact hclear.2 hshort
  · exact hclear.1 hlong

theorem Clear.tail (h : Clear word (c :: left)) : Clear word left :=
  fun rest hrest hne => h rest (hrest.trans (List.suffix_cons c left)) hne

theorem Clear.nil : Clear word [] := fun _ hrest hne => absurd (List.suffix_nil.mp hrest) hne

theorem Clear.append (hleft : Clear word left) (hright : Clear word right) :
    Clear word (left ++ right) := by
  intro rest hrest hne
  rcases List.suffix_or_suffix_of_suffix hrest (List.suffix_append left right) with
    hshort | ⟨front, rfl⟩
  · exact hright rest hshort hne
  · obtain ⟨lead, hlead⟩ := hrest
    have hfront : front <:+ left :=
      ⟨lead, List.append_cancel_right (by rw [List.append_assoc, hlead])⟩
    by_cases hnil : front = []
    · subst hnil
      exact hright right List.suffix_rfl hne
    · have hclear : Clear word front := fun other hother hother' =>
        hleft other (hother.trans hfront) hother'
      constructor
      · intro hword
        exact (hclear front List.suffix_rfl hnil).1 ((List.prefix_append _ _).trans hword)
      · exact hclear.not_prefix hnil right

/-- A text without the first character of the word. -/
theorem Clear.of_head (hword : c ∉ left) : Clear (c :: right) left := by
  intro rest hrest hne
  obtain ⟨d, tail, rfl⟩ := List.exists_cons_of_ne_nil hne
  have hd : d ≠ c := by
    rintro rfl
    exact hword (hrest.subset List.mem_cons_self)
  constructor
  · intro h
    exact hd (List.cons_prefix_cons.mp h).1
  · intro h
    exact hd (List.cons_prefix_cons.mp h).1.symm

/-- A text without the word, up to a character that the word lacks. -/
theorem Clear.of_not_infix (h : ¬ word <:+: left) (hword : c ∉ word) :
    Clear word (left ++ [c]) := by
  intro rest hrest hne
  rcases List.suffix_concat_iff.mp hrest with rfl | ⟨front, rfl, hfront⟩
  · exact absurd rfl hne
  · constructor
    · intro hbegins
      exact hword (hbegins.subset (List.mem_append_right _ List.mem_cons_self))
    · intro hbegins
      exact h (((prefix_append_cons_iff hword).mp hbegins).isInfix.trans hfront.isInfix)

theorem Clear.infix_iff (h : Clear word left) :
    word <:+: left ++ right ↔ word <:+: right := by
  induction left with
  | nil => rfl
  | cons d left ih =>
      rw [List.cons_append, List.infix_cons_iff, ih h.tail]
      constructor
      · intro hword
        exact hword.resolve_left (h.not_prefix (List.cons_ne_nil _ _) right)
      · exact Or.inr

theorem Clear.not_infix (h : Clear word left) (hne : word ≠ []) : ¬ word <:+: left := by
  have hnil : ¬ word <:+: [] := fun hword => hne (List.infix_nil.mp hword)
  rwa [← h.infix_iff, List.append_nil] at hnil

theorem infix_append_cons_iff (hword : c ∉ word) (hne : word ≠ []) :
    word <:+: left ++ c :: right ↔ word <:+: left ∨ word <:+: right := by
  induction left with
  | nil =>
      rw [List.nil_append, List.infix_cons_iff, List.infix_nil]
      have hnone : ¬ word <+: [] ++ c :: right := fun h =>
        hne (List.prefix_nil.mp ((prefix_append_cons_iff hword).mp h))
      rw [List.nil_append] at hnone
      simp [hnone, hne]
  | cons d left ih =>
      rw [List.cons_append, List.infix_cons_iff, List.infix_cons_iff, ih, ← List.cons_append,
        prefix_append_cons_iff hword, or_assoc]

end Texts

/-! ## Patterns -/

/-- `<head>[^<stop>]*<stop><tail>`. -/
structure Pattern where
  head : List Char
  stop : Char
  tail : List Char
  nonempty : head ≠ []

/-- A match: what is before it, what is between its head and its stop, and what is after it. -/
structure Hit where
  before : List Char
  run : List Char
  after : List Char
deriving DecidableEq

namespace Pattern

/-- The match at the beginning of the text. -/
def spanAt (p : Pattern) (text : List Char) : Option Hit :=
  if p.head <+: text then
    let rest := text.drop p.head.length
    let stopped := rest.dropWhile (· ≠ p.stop)
    if p.stop :: p.tail <+: stopped then
      some ⟨[], rest.takeWhile (· ≠ p.stop), stopped.drop (p.tail.length + 1)⟩
    else none
  else none

/-- The leftmost match. -/
def first (p : Pattern) : List Char → Option Hit
  | [] => none
  | c :: rest =>
      (p.spanAt (c :: rest)).or
        ((p.first rest).map fun hit => { hit with before := c :: hit.before })

/-- The text that matched. -/
def matched (p : Pattern) (hit : Hit) : List Char := p.head ++ hit.run ++ p.stop :: p.tail

/-- `s/<pattern>/<replacement>/`, where the replacement may depend on what matched. -/
def substFirst (p : Pattern) (replacement : List Char → List Char) (text : List Char) :
    List Char :=
  match p.first text with
  | none => text
  | some hit => hit.before ++ replacement (p.matched hit) ++ hit.after

def substUpTo (p : Pattern) (replacement : List Char) : ℕ → List Char → List Char
  | 0, text => text
  | n + 1, text =>
      match p.first text with
      | none => text
      | some hit => hit.before ++ replacement ++ p.substUpTo replacement n hit.after

/-- `s/<pattern>/<replacement>/g`. -/
def substAll (p : Pattern) (replacement text : List Char) : List Char :=
  p.substUpTo replacement text.length text

def runsUpTo (p : Pattern) : ℕ → List Char → List (List Char)
  | 0, _ => []
  | n + 1, text =>
      match p.first text with
      | none => []
      | some hit => hit.run :: p.runsUpTo n hit.after

/-- What the matches that `grep -o` prints have between head and stop. -/
def runs (p : Pattern) (text : List Char) : List (List Char) := p.runsUpTo text.length text

variable {p : Pattern} {left right run after : List Char}

theorem first_append (h : Clear p.head left) (right : List Char) :
    p.first (left ++ right) =
      (p.first right).map fun hit => { hit with before := left ++ hit.before } := by
  induction left with
  | nil => simp
  | cons c left ih =>
      have hnone : p.spanAt (c :: (left ++ right)) = none := by
        rw [spanAt, ← List.cons_append, if_neg (h.not_prefix (List.cons_ne_nil _ _) right)]
      rw [List.cons_append, first, hnone, Option.none_or, ih h.tail, Option.map_map]
      rfl

theorem first_clear (h : Clear p.head left) : p.first left = none := by
  have hfirst := first_append h []
  rwa [List.append_nil, first, Option.map_none] at hfirst

theorem not_stop {run : List Char} {stop : Char} (hrun : stop ∉ run) :
    ∀ c ∈ run, decide (c ≠ stop) = true :=
  fun _ hc => decide_eq_true fun h => hrun (h ▸ hc)

theorem dropWhile_stop {run : List Char} {stop : Char} (hrun : stop ∉ run) (rest : List Char) :
    (run ++ stop :: rest).dropWhile (· ≠ stop) = stop :: rest := by
  rw [List.dropWhile_append_of_pos (not_stop hrun)]
  simp

theorem takeWhile_stop {run : List Char} {stop : Char} (hrun : stop ∉ run) (rest : List Char) :
    (run ++ stop :: rest).takeWhile (· ≠ stop) = run := by
  rw [List.takeWhile_append_of_pos (not_stop hrun)]
  simp

theorem first_head (hrun : p.stop ∉ run) (after : List Char) :
    p.first (p.head ++ (run ++ p.stop :: (p.tail ++ after))) = some ⟨[], run, after⟩ := by
  have hspan : p.spanAt (p.head ++ (run ++ p.stop :: (p.tail ++ after))) =
      some ⟨[], run, after⟩ := by
    rw [spanAt, if_pos (List.prefix_append _ _), List.drop_left]
    simp only [takeWhile_stop hrun, dropWhile_stop hrun]
    rw [if_pos (List.cons_prefix_cons.mpr ⟨rfl, List.prefix_append _ _⟩)]
    simp
  obtain ⟨c, rest, hcons⟩ := List.exists_cons_of_ne_nil
    (List.append_ne_nil_of_left_ne_nil p.nonempty (run ++ p.stop :: (p.tail ++ after)))
  rw [hcons] at hspan ⊢
  rw [first, hspan, Option.some_or]

theorem first_eq (hleft : Clear p.head left) (hrun : p.stop ∉ run) (after : List Char) :
    p.first (left ++ (p.head ++ (run ++ p.stop :: (p.tail ++ after)))) =
      some ⟨left, run, after⟩ := by
  rw [first_append hleft, first_head hrun]
  simp

theorem substFirst_eq (replacement : List Char → List Char) (hleft : Clear p.head left)
    (hrun : p.stop ∉ run) (after : List Char) :
    p.substFirst replacement (left ++ (p.head ++ (run ++ p.stop :: (p.tail ++ after)))) =
      left ++ replacement (p.head ++ run ++ p.stop :: p.tail) ++ after := by
  rw [substFirst, first_eq hleft hrun]
  rfl

/-! ## Where a match can be -/

theorem spanAt_sound {text : List Char} {hit : Hit} (h : p.spanAt text = some hit) :
    text = p.matched hit ++ hit.after := by
  rw [spanAt] at h
  split_ifs at h with hhead
  obtain ⟨rest, rfl⟩ := hhead
  simp only [List.drop_left] at h
  split_ifs at h with hstop
  obtain ⟨tail, htail⟩ := hstop
  obtain rfl := (Option.some.inj h).symm
  have hrest := List.takeWhile_append_dropWhile (p := fun c => decide (c ≠ p.stop)) (l := rest)
  rw [← htail] at hrest
  calc p.head ++ rest
      = p.head ++ (rest.takeWhile (fun c => decide (c ≠ p.stop)) ++
          (p.stop :: p.tail ++ tail)) := by rw [hrest]
    _ = _ := by
      rw [← htail]
      simp [matched]

theorem first_sound {text : List Char} {hit : Hit} (h : p.first text = some hit) :
    text = hit.before ++ (p.matched hit ++ hit.after) := by
  induction text generalizing hit with
  | nil => cases h
  | cons c text ih =>
      rw [first] at h
      cases hspan : p.spanAt (c :: text) with
      | some found =>
          rw [hspan, Option.some_or, Option.some.injEq] at h
          subst h
          have hbefore : found.before = [] := by
            rw [spanAt] at hspan
            split_ifs at hspan with hhead
            simp only at hspan
            split_ifs at hspan
            exact congrArg Hit.before (Option.some.inj hspan).symm
          rw [hbefore, List.nil_append]
          exact spanAt_sound hspan
      | none =>
          rw [hspan, Option.none_or] at h
          obtain ⟨found, hfound, rfl⟩ := Option.map_eq_some_iff.mp h
          exact congrArg (c :: ·) (ih hfound)

/-- Without the head there is no match. -/
theorem first_of_not_infix {text : List Char} (h : ¬ p.head <:+: text) : p.first text = none := by
  cases hfirst : p.first text with
  | none => rfl
  | some hit =>
      apply absurd _ h
      use hit.before, hit.run ++ p.stop :: p.tail ++ hit.after
      rw [first_sound hfirst, matched]
      simp

theorem substFirst_none {replacement : List Char → List Char} {text : List Char}
    (h : p.first text = none) : p.substFirst replacement text = text := by
  rw [substFirst, h]

theorem substAll_none {replacement text : List Char} (h : p.first text = none) :
    p.substAll replacement text = text := by
  rw [substAll]
  cases text.length with
  | zero => rfl
  | succ n => rw [substUpTo, h]

theorem runs_none {text : List Char} (h : p.first text = none) : p.runs text = [] := by
  rw [runs]
  cases text.length with
  | zero => rfl
  | succ n => rw [runsUpTo, h]

/-- A text with no more stops than the head has is too short for a match. -/
theorem first_of_count {text : List Char} (h : text.count p.stop ≤ p.head.count p.stop) :
    p.first text = none := by
  cases hfirst : p.first text with
  | none => rfl
  | some hit =>
      rw [first_sound hfirst] at h
      simp only [matched, List.count_append, List.count_cons_self] at h
      omega

theorem length_after {text : List Char} {hit : Hit} (h : p.first text = some hit) :
    hit.after.length < text.length := by
  rw [first_sound h]
  simp only [matched, List.length_append, List.length_cons]
  omega

/-- Enough rounds are enough. -/
theorem substUpTo_congr (replacement : List Char) {n m : ℕ} {text : List Char}
    (hn : text.length ≤ n) (hm : text.length ≤ m) :
    p.substUpTo replacement n text = p.substUpTo replacement m text := by
  induction n generalizing m text with
  | zero =>
      obtain rfl : text = [] := List.length_eq_zero_iff.mp (Nat.le_zero.mp hn)
      cases m with
      | zero => rfl
      | succ m => rfl
  | succ n ih =>
      cases m with
      | zero =>
          obtain rfl : text = [] := List.length_eq_zero_iff.mp (Nat.le_zero.mp hm)
          rfl
      | succ m =>
          rw [substUpTo, substUpTo]
          cases hfirst : p.first text with
          | none => rfl
          | some hit =>
              have hlength := length_after hfirst
              simp only
              rw [ih (by omega) (m := m) (by omega)]

theorem substAll_append (replacement : List Char) (hleft : Clear p.head left)
    (right : List Char) :
    p.substAll replacement (left ++ right) = left ++ p.substAll replacement right := by
  have hrounds : ∀ n, p.substUpTo replacement n (left ++ right) =
      left ++ p.substUpTo replacement n right := by
    intro n
    cases n with
    | zero => rfl
    | succ n =>
        rw [substUpTo, substUpTo, first_append hleft]
        cases p.first right with
        | none => rfl
        | some hit => simp
  rw [substAll, hrounds, substAll,
    substUpTo_congr replacement (by simp) (Nat.le_refl right.length)]

theorem substAll_hit (replacement : List Char) (hrun : p.stop ∉ run) (after : List Char) :
    p.substAll replacement (p.head ++ (run ++ p.stop :: (p.tail ++ after))) =
      replacement ++ p.substAll replacement after := by
  obtain ⟨n, hn⟩ : ∃ n, (p.head ++ (run ++ p.stop :: (p.tail ++ after))).length = n + 1 :=
    Nat.exists_eq_succ_of_ne_zero (by simp)
  have hle : after.length ≤ n := by
    simp only [List.length_append, List.length_cons] at hn
    omega
  rw [substAll, hn, substUpTo, first_head hrun]
  simp only [List.nil_append]
  rw [substAll, substUpTo_congr replacement hle (Nat.le_refl after.length)]

/-- A match with nothing to find after it. -/
theorem runs_eq (hleft : Clear p.head left) (hrun : p.stop ∉ run) (hafter : ¬ p.head <:+: after) :
    p.runs (left ++ (p.head ++ (run ++ p.stop :: (p.tail ++ after)))) = [run] := by
  obtain ⟨n, hn⟩ : ∃ n, (left ++ (p.head ++ (run ++ p.stop :: (p.tail ++ after)))).length = n + 1 :=
    Nat.exists_eq_succ_of_ne_zero (by simp)
  rw [runs, hn, runsUpTo, first_eq hleft hrun]
  cases n with
  | zero => rfl
  | succ n => simp only [runsUpTo, first_of_not_infix hafter]

/-- What is substituted brings in the characters of the replacement only. -/
theorem mem_substAll {replacement text : List Char} {c : Char}
    (h : c ∈ p.substAll replacement text) : c ∈ text ∨ c ∈ replacement := by
  rw [substAll] at h
  generalize text.length = n at h
  induction n generalizing text with
  | zero => exact Or.inl h
  | succ n ih =>
      rw [substUpTo] at h
      cases hfirst : p.first text with
      | none =>
          rw [hfirst] at h
          exact Or.inl h
      | some hit =>
          rw [hfirst] at h
          have htext := first_sound hfirst
          simp only [List.mem_append] at h
          rcases h with (h | h) | h
          · exact Or.inl (htext ▸ List.mem_append_left _ h)
          · exact Or.inr h
          · rcases ih h with h | h
            · exact Or.inl (htext ▸ List.mem_append_right _ (List.mem_append_right _ h))
            · exact Or.inr h

theorem mem_of_first {text : List Char} {hit : Hit} (h : p.first text = some hit) {c : Char}
    (hc : c ∈ hit.run) : c ∈ text := by
  rw [first_sound h]
  simp [matched, hc]

theorem mem_of_mem_runs {text run : List Char} (h : run ∈ p.runs text) {c : Char}
    (hc : c ∈ run) : c ∈ text := by
  rw [runs] at h
  generalize text.length = n at h
  induction n generalizing text with
  | zero => cases h
  | succ n ih =>
      rw [runsUpTo] at h
      cases hfirst : p.first text with
      | none =>
          rw [hfirst] at h
          cases h
      | some hit =>
          rw [hfirst] at h
          rcases List.mem_cons.mp h with rfl | hrest
          · exact mem_of_first hfirst hc
          · rw [first_sound hfirst]
            exact List.mem_append_right _ (List.mem_append_right _ (ih hrest))

/-- A replacement that ends as a match does leaves the end of the text. -/
theorem getLast?_substAll {replacement : List Char}
    (hend : replacement.getLast? = (p.stop :: p.tail).getLast?) (text : List Char) :
    (p.substAll replacement text).getLast? = text.getLast? := by
  rw [substAll]
  generalize text.length = n
  induction n generalizing text with
  | zero => rfl
  | succ n ih =>
      rw [substUpTo]
      cases hfirst : p.first text with
      | none => rfl
      | some hit =>
          obtain ⟨c, hc⟩ := Option.isSome_iff_exists.mp
            (List.getLast?_isSome.mpr (List.cons_ne_nil p.stop p.tail))
          rw [first_sound hfirst]
          simp only [matched, List.getLast?_append, ih, hend, hc, Option.some_or]
          cases hit.after.getLast? with
          | some d => rfl
          | none => rfl

section Separated

variable {sep : Char}

/-- What follows a separator takes no part in the match. -/
theorem spanAt_append_cons (hhead : sep ∉ p.head) (htail : sep ∉ p.stop :: p.tail)
    (hright : ¬ p.stop :: p.tail <:+: right) (left : List Char) :
    p.spanAt (left ++ sep :: right) =
      (p.spanAt left).map fun hit => { hit with after := hit.after ++ sep :: right } := by
  rw [spanAt, spanAt]
  by_cases hstarts : p.head <+: left
  · rw [if_pos ((prefix_append_cons_iff hhead).mpr hstarts), if_pos hstarts]
    obtain ⟨rest, rfl⟩ := hstarts
    rw [List.append_assoc, List.drop_left, List.drop_left]
    by_cases hstop : p.stop ∈ rest
    · obtain ⟨run, tail, rfl, hrun⟩ := List.eq_append_cons_of_mem hstop
      rw [List.append_assoc, List.cons_append]
      simp only [dropWhile_stop hrun, takeWhile_stop hrun]
      have hiff : p.stop :: p.tail <+: p.stop :: tail ++ sep :: right ↔
          p.stop :: p.tail <+: p.stop :: tail := prefix_append_cons_iff htail
      rw [List.cons_append] at hiff
      by_cases hmatch : p.stop :: p.tail <+: p.stop :: tail
      · rw [if_pos (hiff.mpr hmatch), if_pos hmatch]
        obtain ⟨rest, hrest⟩ := (List.cons_prefix_cons.mp hmatch).2
        rw [← hrest]
        simp
      · rw [if_neg (hiff.not.mpr hmatch), if_neg hmatch, Option.map_none]
    · have hcross : ¬ p.stop :: p.tail <+: (rest ++ sep :: right).dropWhile (· ≠ p.stop) := by
        rw [List.dropWhile_append_of_pos (not_stop hstop)]
        intro hmatch
        have hsep : sep ≠ p.stop := fun h => htail (h ▸ List.mem_cons_self)
        rw [List.dropWhile_cons_of_pos (by simpa using hsep)] at hmatch
        exact hright (hmatch.isInfix.trans (List.dropWhile_suffix _).isInfix)
      have hnone : rest.dropWhile (· ≠ p.stop) = [] :=
        List.dropWhile_eq_nil_iff.mpr (not_stop hstop)
      simp only [hnone]
      rw [if_neg hcross, if_neg (by simp), Option.map_none]
  · rw [if_neg (by rwa [prefix_append_cons_iff hhead]), if_neg hstarts, Option.map_none]

theorem first_append_cons (hhead : sep ∉ p.head) (htail : sep ∉ p.stop :: p.tail)
    (hnone : ¬ p.head <:+: right) (hright : ¬ p.stop :: p.tail <:+: right) (left : List Char) :
    p.first (left ++ sep :: right) =
      (p.first left).map fun hit => { hit with after := hit.after ++ sep :: right } := by
  induction left with
  | nil =>
      have hsep : ¬ p.head <:+: [] ++ sep :: right := by
        rw [infix_append_cons_iff hhead p.nonempty, List.infix_nil]
        exact fun h => h.elim p.nonempty hnone
      exact first_of_not_infix hsep
  | cons c left ih =>
      rw [List.cons_append, first, first, ← List.cons_append,
        spanAt_append_cons hhead htail hright, ih]
      cases p.spanAt (c :: left) with
      | some hit => rfl
      | none =>
          rw [Option.map_none, Option.none_or, Option.none_or, Option.map_map, Option.map_map]
          rfl

theorem substUpTo_append_cons (hhead : sep ∉ p.head) (htail : sep ∉ p.stop :: p.tail)
    (hnone : ¬ p.head <:+: right) (hright : ¬ p.stop :: p.tail <:+: right)
    (replacement : List Char) (n : ℕ) (left : List Char) :
    p.substUpTo replacement n (left ++ sep :: right) =
      p.substUpTo replacement n left ++ sep :: right := by
  induction n generalizing left with
  | zero => rfl
  | succ n ih =>
      rw [substUpTo, substUpTo, first_append_cons hhead htail hnone hright]
      cases p.first left with
      | none => rfl
      | some hit => simp [ih]

theorem substAll_append_cons (hhead : sep ∉ p.head) (htail : sep ∉ p.stop :: p.tail)
    (hnone : ¬ p.head <:+: right) (hright : ¬ p.stop :: p.tail <:+: right)
    (replacement left : List Char) :
    p.substAll replacement (left ++ sep :: right) =
      p.substAll replacement left ++ sep :: right := by
  rw [substAll, substUpTo_append_cons hhead htail hnone hright, substAll,
    substUpTo_congr replacement (by simp) (Nat.le_refl left.length)]

end Separated

end Pattern

end FastTAK.Substitute
