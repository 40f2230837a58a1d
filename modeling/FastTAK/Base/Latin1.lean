import FastTAK.Base.Text

/-!
# UTF-8 bytes read as Latin-1

One side writes a text as UTF-8, the other turns every byte into one
character.  ASCII text survives; this file shows that nothing else does, even
when the reader also strips blanks.
-/

namespace FastTAK.Latin1

open FastTAK.Text

/-- The character with the code of a byte. -/
def byteChar (byte : UInt8) : Char := Char.ofNat byte.toNat

/-- What the reader sees of one written character. -/
def readChar (c : Char) : List Char := (String.utf8EncodeChar c).map byteChar

/-- What the reader sees of a written text. -/
def read (text : List Char) : List Char := text.flatMap readChar

/-- Codes of the first byte of a character written in several bytes. -/
def isLead (c : Char) : Bool := 0xc0 ≤ c.toNat && c.toNat ≤ 0xff

def isWide (c : Char) : Bool := 128 ≤ c.toNat

theorem toNat_byteChar_ofNat {n : ℕ} (hn : n < 256) :
    (byteChar (UInt8.ofNat n)).toNat = n := by
  have hbyte : (UInt8.ofNat n).toNat = n := by
    rw [UInt8.toNat_ofNat']
    exact Nat.mod_eq_of_lt hn
  have hvalid : n.isValidChar := Or.inl (by omega)
  rw [byteChar, hbyte, Char.toNat_ofNat, if_pos hvalid]

theorem readChar_ascii {c : Char} (hc : c.toNat < 128) : readChar c = [c] := by
  have hencode : String.utf8EncodeChar c = [UInt8.ofNat c.toNat] := by
    unfold String.utf8EncodeChar
    exact if_pos (Nat.le_of_lt_succ hc)
  rw [readChar, hencode, List.map_singleton]
  congr 1
  apply Char.toNat_inj.mp
  exact toNat_byteChar_ofNat (by omega)

/-- Codes of the bytes after the first one of a character. -/
def isTail (c : Char) : Prop := 0x80 ≤ c.toNat ∧ c.toNat ≤ 0xbf

theorem isLead_byteChar_ofNat {n : ℕ} (hlow : 0xc0 ≤ n) (hhigh : n < 256) :
    isLead (byteChar (UInt8.ofNat n)) := by
  rw [isLead, toNat_byteChar_ofNat hhigh]
  simp only [Bool.and_eq_true, decide_eq_true_eq]
  omega

theorem isTail_byteChar_ofNat (n : ℕ) :
    isTail (byteChar (UInt8.ofNat (n % 0x40 + 0x80))) := by
  rw [isTail, toNat_byteChar_ofNat (by omega)]
  omega

/-- A character outside ASCII is read as one lead character and at least one
character with a code from 128 to 191. -/
theorem readChar_wide {c : Char} (hc : 128 ≤ c.toNat) :
    ∃ lead rest, readChar c = lead :: rest ∧ isLead lead ∧ rest ≠ [] ∧
      ∀ d ∈ rest, isTail d := by
  have hval : c.val.toNat = c.toNat := rfl
  rw [readChar, String.utf8EncodeChar]
  simp only [hval]
  rw [if_neg (by omega)]
  split
  · refine ⟨_, _, rfl, isLead_byteChar_ofNat (by omega) (by omega),
      List.cons_ne_nil _ _, ?_⟩
    exact List.forall_mem_singleton.mpr (isTail_byteChar_ofNat _)
  · split
    · refine ⟨_, _, rfl, isLead_byteChar_ofNat (by omega) (by omega),
        List.cons_ne_nil _ _, ?_⟩
      exact List.forall_mem_cons.mpr ⟨isTail_byteChar_ofNat _,
        List.forall_mem_singleton.mpr (isTail_byteChar_ofNat _)⟩
    · refine ⟨_, _, rfl, isLead_byteChar_ofNat (by omega) (by omega),
        List.cons_ne_nil _ _, ?_⟩
      exact List.forall_mem_cons.mpr ⟨isTail_byteChar_ofNat _,
        List.forall_mem_cons.mpr ⟨isTail_byteChar_ofNat _,
          List.forall_mem_singleton.mpr (isTail_byteChar_ofNat _)⟩⟩

/-- The characters with codes 192 to 255 are all read with the lead `Ã`. -/
theorem readChar_of_isLead {c : Char} (hc : isLead c) :
    readChar c = ['Ã', Char.ofNat (c.toNat - 64)] := by
  simp only [isLead, Bool.and_eq_true, decide_eq_true_eq] at hc
  have hval : c.val.toNat = c.toNat := rfl
  rw [readChar, String.utf8EncodeChar]
  simp only [hval]
  rw [if_neg (by omega), if_pos (by omega)]
  have hlead : byteChar (UInt8.ofNat (c.toNat / 64 % 0x20 + 0xc0)) = 'Ã' := by
    apply Char.toNat_inj.mp
    rw [toNat_byteChar_ofNat (by omega)]
    have : c.toNat / 64 = 3 := by omega
    rw [this]
    rfl
  have htail : byteChar (UInt8.ofNat (c.toNat % 0x40 + 0x80)) =
      Char.ofNat (c.toNat - 64) := by
    apply Char.toNat_inj.mp
    have hvalid : (c.toNat - 64).isValidChar := Or.inl (by omega)
    rw [toNat_byteChar_ofNat (by omega), Char.toNat_ofNat, if_pos hvalid]
    omega
  rw [List.map_cons, List.map_singleton, hlead, htail]

theorem read_ascii {text : List Char} (htext : ∀ c ∈ text, c.toNat < 128) :
    read text = text := by
  induction text with
  | nil => rfl
  | cons c text ih =>
      rw [read, List.flatMap_cons, readChar_ascii (htext c (by simp))]
      change c :: read text = c :: text
      rw [ih fun d hd => htext d (by simp [hd])]

theorem not_blank_of_isLead {c : Char} (hc : isLead c) : isBlank c = false := by
  simp only [isLead, Bool.and_eq_true, decide_eq_true_eq] at hc
  simp only [isBlank, Bool.or_eq_false_iff, Bool.and_eq_false_iff,
    decide_eq_false_iff_not, beq_eq_false_iff_ne]
  omega

/-- Every written character outside ASCII leaves exactly one lead character. -/
theorem countP_isLead_read (text : List Char) :
    (read text).countP isLead = text.countP isWide := by
  induction text with
  | nil => rfl
  | cons c text ih =>
      rw [read, List.flatMap_cons, List.countP_append, List.countP_cons]
      change _ + (read text).countP isLead = _
      rw [ih, Nat.add_comm]
      congr 1
      by_cases hc : 128 ≤ c.toNat
      · obtain ⟨lead, rest, hread, hlead, -, hrest⟩ := readChar_wide hc
        have hzero : rest.countP isLead = 0 := by
          rw [List.countP_eq_zero]
          intro d hd
          have htail := hrest d hd
          simp only [isTail, isLead, Bool.and_eq_true, decide_eq_true_eq] at *
          omega
        simp [hread, hlead, hzero, isWide, hc]
      · have hnarrow : isLead c = false := by
          simp only [isLead, Bool.and_eq_false_iff, decide_eq_false_iff_not]
          omega
        simp [readChar_ascii (Nat.lt_of_not_le hc), hnarrow, isWide, hc]

/-- In a text that comes back unchanged every wide character is a lead
character: there are as many of the one kind as of the other. -/
theorem isLead_of_strip_read_eq {text : List Char}
    (h : strip (read text) = text) : ∀ c ∈ text, isWide c → isLead c := by
  have hcount : text.countP isLead = text.countP isWide := by
    calc
      text.countP isLead = (strip (read text)).countP isLead := by rw [h]
      _ = (read text).countP isLead :=
        countP_strip (fun _ => not_blank_of_isLead) _
      _ = text.countP isWide := countP_isLead_read text
  have himp : ∀ c, isLead c → isWide c := by
    intro c hc
    simp only [isLead, isWide, Bool.and_eq_true, decide_eq_true_eq] at *
    omega
  have hfilter : text.filter isLead = text.filter isWide := by
    refine List.Sublist.eq_of_length ?_ ?_
    · exact List.monotone_filter_right text himp
    · rw [← List.countP_eq_length_filter, ← List.countP_eq_length_filter]
      exact hcount
  intro c hc hwide
  have hmem : c ∈ text.filter isWide := List.mem_filter.mpr ⟨hc, hwide⟩
  rw [← hfilter] at hmem
  exact (List.mem_filter.mp hmem).2

/-- The reader sees no lead character but `Ã` of a text whose wide characters
are lead characters. -/
theorem eq_tilde_of_isLead_read {text : List Char}
    (hlead : ∀ c ∈ text, isWide c → isLead c) :
    ∀ c ∈ read text, isLead c → c = 'Ã' := by
  intro c hc hcl
  obtain ⟨d, hd, hcd⟩ := List.mem_flatMap.mp hc
  by_cases hwide : isWide d
  · have hdl := hlead d hd hwide
    rw [readChar_of_isLead hdl] at hcd
    rcases List.mem_cons.mp hcd with rfl | hcd
    · rfl
    · obtain rfl := List.mem_singleton.mp hcd
      simp only [isLead, Bool.and_eq_true, decide_eq_true_eq] at hcl hdl
      have hvalid : (d.toNat - 64).isValidChar := Or.inl (by omega)
      rw [Char.toNat_ofNat, if_pos hvalid] at hcl
      omega
  · have hascii : d.toNat < 128 := by simpa [isWide] using hwide
    rw [readChar_ascii hascii, List.mem_singleton] at hcd
    subst hcd
    simp only [isLead, Bool.and_eq_true, decide_eq_true_eq] at hcl
    omega

/-- A wide character that stripping keeps. -/
def isKept (c : Char) : Bool := isWide c && !isBlank c

/-- Of `Ã` the reader sees two wide characters that stripping keeps. -/
theorem countP_isKept_read {text : List Char}
    (htilde : ∀ c ∈ text, isWide c → c = 'Ã') :
    (read text).countP isKept = 2 * text.countP isWide := by
  induction text with
  | nil => rfl
  | cons c text ih =>
      rw [read, List.flatMap_cons, List.countP_append, List.countP_cons]
      change _ + (read text).countP isKept = _
      rw [ih fun d hd => htilde d (by simp [hd])]
      by_cases hwide : isWide c
      · obtain rfl := htilde c (by simp) hwide
        have htwo : (readChar 'Ã').countP isKept = 2 := by decide
        rw [htwo, if_pos hwide]
        omega
      · have hascii : c.toNat < 128 := by simpa [isWide] using hwide
        simp [readChar_ascii hascii, isKept, hwide]

/-- A text that comes back unchanged is ASCII. -/
theorem ascii_of_strip_read_eq {text : List Char}
    (h : strip (read text) = text) : ∀ c ∈ text, c.toNat < 128 := by
  have hlead := isLead_of_strip_read_eq h
  have hsub : ∀ c ∈ text, c ∈ read text := by
    intro c hc
    rw [← h] at hc
    exact (List.rdropWhile_prefix isBlank _).subset
      ((List.dropWhile_suffix isBlank).subset hc)
  have htilde : ∀ c ∈ text, isWide c → c = 'Ã' := fun c hc hwide =>
    eq_tilde_of_isLead_read hlead c (hsub c hc) (hlead c hc hwide)
  have hkept : text.countP isKept = 2 * text.countP isWide := by
    have hblank : ∀ c, isKept c → isBlank c = false := fun c hc => by
      simpa using (Bool.and_eq_true_iff.mp hc).2
    rw [← countP_isKept_read htilde, ← countP_strip hblank (read text), h]
  have hle : text.countP isKept ≤ text.countP isWide :=
    List.countP_mono_left fun c _ hc => (Bool.and_eq_true_iff.mp hc).1
  have hzero : text.countP isWide = 0 := by omega
  intro c hc
  simpa [isWide] using List.countP_eq_zero.mp hzero c hc

end FastTAK.Latin1
