import Mathlib

/-!
# Text operations of the scripting side

Python's `str.strip`, `str.splitlines`, `str.removesuffix` and last path
component, and shell patterns with one star, on lists of characters.
-/

namespace FastTAK.Text

/-- Texts are compared by their characters. -/
scoped instance lawfulBEqText : LawfulBEq (List Char) := inferInstance

/-! ## Blanks -/

/-- The characters `str.strip` removes. -/
def isBlank (c : Char) : Bool :=
  (9 ≤ c.toNat && c.toNat ≤ 13) || (28 ≤ c.toNat && c.toNat ≤ 32) ||
    c.toNat == 0x85 || c.toNat == 0xa0 || c.toNat == 0x1680 ||
    (0x2000 ≤ c.toNat && c.toNat ≤ 0x200a) || c.toNat == 0x2028 ||
    c.toNat == 0x2029 || c.toNat == 0x202f || c.toNat == 0x205f ||
    c.toNat == 0x3000

/-- `str.strip()`. -/
def strip (text : List Char) : List Char :=
  (text.rdropWhile isBlank).dropWhile isBlank

theorem rdropWhile_cons {α : Type} (p : α → Bool) (x : α) (l : List α) :
    (x :: l).rdropWhile p =
      if l.rdropWhile p = [] then [x].rdropWhile p
      else x :: l.rdropWhile p := by
  induction l using List.reverseRecOn with
  | nil => simp
  | append_singleton l y ih =>
      rw [← List.cons_append, List.rdropWhile_concat, List.rdropWhile_concat]
      by_cases hy : p y
      · simp [hy, ih]
      · simp [hy]

theorem strip_cons_of_blank {c : Char} (hc : isBlank c) (text : List Char) :
    strip (c :: text) = strip text := by
  rw [strip, rdropWhile_cons]
  by_cases hnil : text.rdropWhile isBlank = []
  · simp [strip, hnil, List.rdropWhile_singleton, hc]
  · simp [strip, hnil, hc]

/-- Characters that are not blank all survive stripping. -/
theorem countP_strip {p : Char → Bool} (hp : ∀ c, p c → isBlank c = false)
    (text : List Char) : (strip text).countP p = text.countP p := by
  have hdrop : ∀ l : List Char, (l.dropWhile isBlank).countP p = l.countP p := by
    intro l
    induction l with
    | nil => rfl
    | cons c l ih =>
        by_cases hc : isBlank c
        · have hpc : ¬ p c := fun h => by simp [hp c h] at hc
          simp [hc, ih, hpc]
        · simp [hc]
  have hrdrop : (text.rdropWhile isBlank).countP p = text.countP p := by
    rw [List.rdropWhile, List.countP_reverse, hdrop, List.countP_reverse]
  rw [strip, hdrop, hrdrop]

/-- The text neither starts nor ends with a blank. -/
def Trimmed (text : List Char) : Prop :=
  (∀ c ∈ text.head?, ¬ isBlank c) ∧ ∀ c ∈ text.getLast?, ¬ isBlank c

theorem strip_eq_self_iff (text : List Char) :
    strip text = text ↔ Trimmed text := by
  constructor
  · intro h
    have hback : text.rdropWhile isBlank = text := by
      refine (List.rdropWhile_prefix isBlank text).eq_of_length_le ?_
      calc
        text.length = (strip text).length := by rw [h]
        _ ≤ (text.rdropWhile isBlank).length :=
          (List.dropWhile_suffix isBlank).length_le
    have hfront : text.dropWhile isBlank = text := by
      rw [strip, hback] at h
      exact h
    constructor
    · intro c hc hblank
      cases text with
      | nil => simp at hc
      | cons d rest =>
          obtain rfl : d = c := by simpa using hc
          have hlen := (List.dropWhile_suffix (l := rest) isBlank).length_le
          rw [List.dropWhile_cons_of_pos hblank] at hfront
          rw [hfront] at hlen
          simp at hlen
    · intro c hc
      obtain ⟨hne, rfl⟩ := List.mem_getLast?_eq_getLast hc
      exact List.rdropWhile_eq_self_iff.mp hback hne
  · rintro ⟨hfirst, hlast⟩
    have hback : text.rdropWhile isBlank = text := by
      rw [List.rdropWhile_eq_self_iff]
      intro hne
      exact hlast _ (List.getLast?_eq_getLast_of_ne_nil hne)
    rw [strip, hback]
    cases text with
    | nil => rfl
    | cons c rest => exact List.dropWhile_cons_of_neg (hfirst c rfl)

theorem mem_of_mem_strip {c : Char} {text : List Char} (hc : c ∈ strip text) :
    c ∈ text :=
  (List.rdropWhile_prefix isBlank _).subset
    ((List.dropWhile_suffix isBlank).subset hc)

/-- Stripping leaves no blank at either end. -/
theorem trimmed_strip (text : List Char) : Trimmed (strip text) := by
  constructor
  · intro c hc hblank
    have hnot := List.head?_dropWhile_not isBlank (text.rdropWhile isBlank)
    rw [strip] at hc
    rw [Option.mem_def.mp hc] at hnot
    exact absurd hblank (by simpa using hnot)
  · intro c hc
    have hne : strip text ≠ [] := by
      rintro hnil
      rw [hnil] at hc
      cases hc
    obtain ⟨front, hfront⟩ := List.dropWhile_suffix (l := text.rdropWhile isBlank) isBlank
    have hlast : (text.rdropWhile isBlank).getLast? = (strip text).getLast? := by
      rw [← hfront]
      exact List.getLast?_append_of_ne_nil _ hne
    rw [← hlast] at hc
    obtain ⟨hne', rfl⟩ := List.mem_getLast?_eq_getLast hc
    exact List.rdropWhile_last_not isBlank text hne'

/-- A text that does not start with a blank is stripped at its end only. -/
theorem exists_eq_strip_append {c : Char} {text : List Char} (hc : ¬ isBlank c) :
    ∃ trail, (∀ b ∈ trail, isBlank b) ∧ c :: text = strip (c :: text) ++ trail := by
  use (c :: text).rtakeWhile isBlank
  have hsplit := List.rdropWhile_append_rtakeWhile (p := isBlank) (l := c :: text)
  have hstrip : strip (c :: text) = (c :: text).rdropWhile isBlank := by
    rw [strip, rdropWhile_cons]
    split_ifs
    · rw [List.rdropWhile_singleton, if_neg hc]
      exact List.dropWhile_cons_of_neg hc
    · exact List.dropWhile_cons_of_neg hc
  constructor
  · intro b hb
    exact List.mem_rtakeWhile_imp hb
  · rw [hstrip, hsplit]

theorem strip_append_of_blank {blanks : List Char} (hblanks : ∀ c ∈ blanks, isBlank c)
    (text : List Char) : strip (blanks ++ text) = strip text := by
  induction blanks with
  | nil => rfl
  | cons c blanks ih =>
      rw [List.cons_append, strip_cons_of_blank (hblanks c List.mem_cons_self)]
      exact ih fun b hb => hblanks b (List.mem_cons_of_mem _ hb)

/-! ## Lower case of ASCII -/

theorem toNat_toLower (c : Char) :
    c.toLower.toNat = if 65 ≤ c.toNat ∧ c.toNat ≤ 90 then c.toNat + 32 else c.toNat := by
  unfold Char.toLower
  split
  next hupper =>
    have hlow : 65 ≤ c.toNat := hupper.1
    have hhigh : c.toNat ≤ 90 := hupper.2
    rw [if_pos ⟨hlow, hhigh⟩]
    change (c.val + ('a'.val - 'A'.val)).toNat = c.toNat + 32
    rw [UInt32.toNat_add]
    change (c.toNat + 32) % 2 ^ 32 = c.toNat + 32
    omega
  next hupper =>
    rw [if_neg]
    exact fun h => hupper ⟨h.1, h.2⟩

/-! ## Splitting at a separator -/

theorem not_mem_of_mem_splitOn {sep : Char} {text piece : List Char}
    (hpiece : piece ∈ text.splitOn sep) : sep ∉ piece := by
  induction text generalizing piece with
  | nil =>
      obtain rfl : piece = [] := by simpa using hpiece
      exact List.not_mem_nil
  | cons c text ih =>
      rw [List.splitOn_cons_eq_if_modifyHead] at hpiece
      by_cases hc : c = sep
      · simp only [hc, BEq.rfl, if_true, List.mem_cons] at hpiece
        rcases hpiece with rfl | hpiece
        · exact List.not_mem_nil
        · exact ih hpiece
      · rw [if_neg (by simpa using hc)] at hpiece
        cases hsplit : text.splitOn sep with
        | nil => simp [hsplit] at hpiece
        | cons head tail =>
            rw [hsplit] at hpiece ih
            rcases List.mem_cons.mp hpiece with rfl | hpiece
            · have hhead := ih List.mem_cons_self
              simp [hhead, Ne.symm hc]
            · exact ih (List.mem_cons_of_mem _ hpiece)

/-- The first piece reaches up to the first separator. -/
theorem headD_splitOn {α : Type} [BEq α] (sep : α) (text : List α) :
    (text.splitOn sep).headD [] = text.takeWhile fun c => !(c == sep) := by
  induction text with
  | nil => simp
  | cons c text ih =>
      rw [List.splitOn_cons_eq_if_modifyHead, List.takeWhile_cons]
      cases hc : c == sep with
      | true => simp
      | false =>
          have hne := List.splitOn_ne_nil sep text
          obtain ⟨head, tail, hsplit⟩ := List.exists_cons_of_ne_nil hne
          rw [hsplit] at ih ⊢
          simpa using ih

theorem two_le_length_splitOn {α : Type} [BEq α] [LawfulBEq α] {sep : α} {text : List α}
    (hsep : sep ∈ text) : 2 ≤ (text.splitOn sep).length := by
  induction text with
  | nil => cases hsep
  | cons c text ih =>
      rw [List.splitOn_cons_eq_if_modifyHead]
      cases hc : c == sep with
      | true =>
          have hne := List.splitOn_ne_nil sep text
          have hlength := List.length_pos_of_ne_nil hne
          simp only [if_true, List.length_cons]
          omega
      | false =>
          have hmem : sep ∈ text := by
            rcases List.mem_cons.mp hsep with rfl | hmem
            · simp at hc
            · exact hmem
          simpa using ih hmem

/-- Splitting undoes joining up to the separators inside the parts. -/
theorem splitOn_intercalate_eq_flatMap {sep : Char} {parts : List (List Char)}
    (hne : parts ≠ []) :
    ([sep].intercalate parts).splitOn sep =
      parts.flatMap (·.splitOn sep) := by
  induction parts with
  | nil => exact absurd rfl hne
  | cons part parts ih =>
      cases parts with
      | nil => simp
      | cons next parts =>
          rw [List.intercalate_cons_cons, List.append_assoc,
            List.singleton_append, List.splitOn_append_cons_self,
            ih (List.cons_ne_nil _ _)]
          rfl

/-- Splitting commutes with a character-wise translation that maps the
separator to itself and produces it nowhere else. -/
theorem splitOn_flatMap {sep : Char} {f : Char → List Char}
    (hsep : f sep = [sep]) (hother : ∀ c, c ≠ sep → sep ∉ f c)
    (text : List Char) :
    (text.flatMap f).splitOn sep = (text.splitOn sep).map (·.flatMap f) := by
  have hleading : ∀ (word rest : List Char), sep ∉ word →
      (word ++ rest).splitOn sep = (rest.splitOn sep).modifyHead (word ++ ·) := by
    intro word rest hword
    induction word with
    | nil =>
        cases hrest : rest.splitOn sep with
        | nil => simp [hrest]
        | cons head tail => simp [hrest]
    | cons c word ih =>
        have hc : (c == sep) = false := by
          simpa using fun h : c = sep => hword (by simp [h])
        rw [List.cons_append, List.splitOn_cons_eq_if_modifyHead, hc,
          ih fun h => hword (by simp [h])]
        cases rest.splitOn sep <;> simp
  induction text with
  | nil => simp
  | cons c text ih =>
      rw [List.flatMap_cons, List.splitOn_cons_eq_if_modifyHead]
      by_cases hc : c = sep
      · subst hc
        rw [hsep, List.singleton_append, List.splitOn_cons_eq_if_modifyHead]
        simp [ih]
      · rw [hleading _ _ (hother c hc), ih]
        have hbeq : (c == sep) = false := by simpa using hc
        rw [hbeq]
        cases text.splitOn sep <;> simp

/-- Leading blanks of the whole text do not change the stripped pieces. -/
theorem map_strip_splitOn_cons {sep c : Char} (hc : isBlank c) (hne : c ≠ sep)
    (text : List Char) :
    ((c :: text).splitOn sep).map strip = (text.splitOn sep).map strip := by
  have hbeq : (c == sep) = false := by simpa using hne
  rw [List.splitOn_cons_eq_if_modifyHead, hbeq]
  cases hpieces : text.splitOn sep with
  | nil => simp
  | cons head tail => simp [strip_cons_of_blank hc]

/-- Trailing blanks of the whole text do not change the stripped pieces. -/
theorem map_strip_splitOn_concat {sep c : Char} (hc : isBlank c)
    (hne : c ≠ sep) (text : List Char) :
    ((text ++ [c]).splitOn sep).map strip = (text.splitOn sep).map strip := by
  have hback : ((text ++ [c]).splitOn sep).map (·.rdropWhile isBlank) =
      (text.splitOn sep).map (·.rdropWhile isBlank) := by
    induction text with
    | nil =>
        have hbeq : (c == sep) = false := by simpa using hne
        simp [List.splitOn_cons_eq_if_modifyHead, hbeq,
          List.rdropWhile_singleton, hc]
    | cons d text ih =>
        rw [List.cons_append, List.splitOn_cons_eq_if_modifyHead,
          List.splitOn_cons_eq_if_modifyHead]
        by_cases hd : d == sep
        · simp [hd, ih]
        · simp only [hd, Bool.false_eq_true, if_false]
          cases hlong : (text ++ [c]).splitOn sep with
          | nil => exact absurd hlong (List.splitOn_ne_nil sep _)
          | cons longHead longTail =>
              cases hshort : text.splitOn sep with
              | nil => exact absurd hshort (List.splitOn_ne_nil sep _)
              | cons shortHead shortTail =>
                  rw [hlong, hshort] at ih
                  simp only [List.map_cons, List.cons.injEq] at ih
                  rw [List.modifyHead_cons, List.modifyHead_cons,
                    List.map_cons, List.map_cons, ih.2, rdropWhile_cons,
                    rdropWhile_cons _ d shortHead, ih.1]
  have hstrip : strip = (·.dropWhile isBlank) ∘ (·.rdropWhile isBlank) := rfl
  rw [hstrip, ← List.map_map, ← List.map_map, hback]

/-! ## Lines -/

/-- The characters at which `str.splitlines` ends a line. -/
def isLineBreak (c : Char) : Bool :=
  (10 ≤ c.toNat && c.toNat ≤ 13) || (28 ≤ c.toNat && c.toNat ≤ 30) ||
    c.toNat == 0x85 || c.toNat == 0x2028 || c.toNat == 0x2029

/-- `str.splitlines()`.  A carriage return with a line feed is one break. -/
def splitlines : List Char → List (List Char)
  | [] => []
  | '\r' :: '\n' :: text => [] :: splitlines text
  | c :: text =>
    if isLineBreak c then [] :: splitlines text
    else
      match splitlines text with
      | [] => [[c]]
      | line :: lines => (c :: line) :: lines

theorem splitlines_cons_of_not_break {c : Char} (hc : isLineBreak c = false)
    (text : List Char) :
    splitlines (c :: text) =
      match splitlines text with
      | [] => [[c]]
      | line :: lines => (c :: line) :: lines := by
  have hne : c ≠ '\r' := by
    rintro rfl
    exact absurd hc (by decide)
  rw [splitlines]
  · simp only [hc, Bool.false_eq_true, if_false]
  · exact fun _ h => absurd h hne

/-- A line without breaks is read back. -/
theorem splitlines_line {line : List Char}
    (hline : ∀ c ∈ line, isLineBreak c = false) (text : List Char) :
    splitlines (line ++ '\n' :: text) = line :: splitlines text := by
  induction line with
  | nil =>
      rw [List.nil_append, splitlines]
      · simp [isLineBreak]
      · simp
  | cons c line ih =>
      rw [List.cons_append, splitlines_cons_of_not_break (hline c (by simp)),
        ih fun d hd => hline d (by simp [hd])]

theorem splitlines_ne_nil {text : List Char} (htext : text ≠ []) :
    splitlines text ≠ [] := by
  cases text with
  | nil => exact absurd rfl htext
  | cons c text =>
      rw [splitlines.eq_def]
      split
      · simp_all
      · simp
      · split_ifs
        · simp
        · split <;> simp

/-- A line feed separates what is read before it from what is read after. -/
theorem splitlines_append (first rest : List Char) :
    splitlines (first ++ '\n' :: rest) =
      splitlines (first ++ ['\n']) ++ splitlines rest := by
  have hinner : ∀ (c : Char) (text : List Char), isLineBreak c = false →
      splitlines (text ++ '\n' :: rest) =
        splitlines (text ++ ['\n']) ++ splitlines rest →
      splitlines (c :: text ++ '\n' :: rest) =
        splitlines (c :: text ++ ['\n']) ++ splitlines rest := by
    intro c text hc ih
    rw [List.cons_append, List.cons_append, splitlines_cons_of_not_break hc,
      splitlines_cons_of_not_break hc, ih]
    cases hlines : splitlines (text ++ ['\n']) with
    | nil => exact absurd hlines (splitlines_ne_nil (by simp))
    | cons line lines => rfl
  induction first using splitlines.induct with
  | case1 =>
      have hfeed : ∀ text, splitlines ('\n' :: text) = [] :: splitlines text :=
        fun text => @splitlines_line [] (by simp) text
      rw [List.nil_append, List.nil_append, hfeed, hfeed]
      rfl
  | case2 text ih =>
      simp only [List.cons_append, splitlines, ih]
  | case3 c text hnotBoth hbreak ih =>
      cases text with
      | nil =>
          by_cases hc : c = '\r'
          · subst hc
            simp [splitlines]
          · have hstep : ∀ tail, splitlines (c :: tail) = [] :: splitlines tail := by
              intro tail
              rw [splitlines, if_pos hbreak]
              exact fun _ h => absurd h hc
            rw [List.cons_append, List.cons_append, hstep, hstep]
            simpa using ih
      | cons d text =>
          have hstep : ∀ tail, splitlines (c :: d :: tail) =
              [] :: splitlines (d :: tail) := by
            intro tail
            rw [splitlines, if_pos hbreak]
            intro tail' hc hd
            simp only [List.cons.injEq] at hd
            exact hnotBoth text hc (by rw [hd.1])
          rw [List.cons_append, List.cons_append, List.cons_append,
            List.cons_append, hstep, hstep]
          simpa using ih
  | case4 c text _ hbreak _ ih =>
      exact hinner c text (by simpa using hbreak) ih
  | case5 c text _ hbreak _ _ _ ih =>
      exact hinner c text (by simpa using hbreak) ih

/-! ## File names and patterns -/

/-- `path.rsplit("/", 1)[-1]`. -/
def lastComponent (path : List Char) : List Char := path.rtakeWhile (· ≠ '/')

theorem lastComponent_append {dir name : List Char} (hname : '/' ∉ name) :
    lastComponent (dir ++ '/' :: name) = name := by
  induction name using List.reverseRecOn with
  | nil => simp [lastComponent, List.rtakeWhile_concat_neg]
  | append_singleton name c ih =>
      have hc : c ≠ '/' := fun h => hname (by simp [h])
      have hrest : '/' ∉ name := fun h => hname (by simp [h])
      have happend : dir ++ '/' :: (name ++ [c]) = (dir ++ '/' :: name) ++ [c] := by
        simp
      rw [lastComponent, happend, List.rtakeWhile_concat_pos _ _ _ (by simpa using hc)]
      change lastComponent (dir ++ '/' :: name) ++ [c] = _
      rw [ih hrest]

/-- `text.removesuffix(suffix)`. -/
def removeSuffix (text suffix : String) : String :=
  if suffix.toList <:+ text.toList then
    String.ofList (text.toList.take (text.length - suffix.length))
  else text

theorem removeSuffix_append (stem suffix : String) :
    removeSuffix (stem ++ suffix) suffix = stem := by
  rw [removeSuffix, String.toList_append, if_pos (List.suffix_append _ _)]
  rw [String.length_append, Nat.add_sub_cancel, ← String.length_toList,
    List.take_left, String.ofList_toList]

/-- The name fits the shell pattern `lead*tail`. -/
def fitsStar (lead tail name : String) : Bool :=
  lead.toList <+: name.toList ∧
    tail.toList <:+ name.toList.drop lead.length

theorem fitsStar_iff (lead tail name : String) :
    fitsStar lead tail name ↔ ∃ middle, name = lead ++ middle ++ tail := by
  simp only [fitsStar, decide_eq_true_eq]
  constructor
  · rintro ⟨⟨rest, hlead⟩, middle, htail⟩
    rw [← hlead, ← String.length_toList, List.drop_left] at htail
    refine ⟨String.ofList middle, String.toList_inj.mp ?_⟩
    rw [String.toList_append, String.toList_append, String.toList_ofList,
      List.append_assoc, htail, hlead]
  · rintro ⟨middle, rfl⟩
    rw [String.toList_append, String.toList_append, List.append_assoc,
      ← String.length_toList, List.drop_left]
    exact ⟨List.prefix_append _ _, List.suffix_append _ _⟩

end FastTAK.Text
