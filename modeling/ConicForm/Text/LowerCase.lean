/-! Lower case as Unicode 14.0 has it. Capital letters stand in runs: each right before its small
letter, or all of them in the order of their small letters. -/
namespace ConicForm.Text

/-- First and last capital letter of the runs in which capital and small letters alternate. -/
def alternatingCase : List (Nat × Nat) :=
  [(0x100, 0x12E), (0x132, 0x136), (0x139, 0x147), (0x14A, 0x176), (0x179, 0x17D), (0x182, 0x184),
   (0x187, 0x187), (0x18B, 0x18B), (0x191, 0x191), (0x198, 0x198), (0x1A0, 0x1A4), (0x1A7, 0x1A7),
   (0x1AC, 0x1AC), (0x1AF, 0x1AF), (0x1B3, 0x1B5), (0x1B8, 0x1B8), (0x1BC, 0x1BC), (0x1C5, 0x1C5),
   (0x1C8, 0x1C8), (0x1CB, 0x1DB), (0x1DE, 0x1EE), (0x1F2, 0x1F4), (0x1F8, 0x21E), (0x222, 0x232),
   (0x23B, 0x23B), (0x241, 0x241), (0x246, 0x24E), (0x370, 0x372), (0x376, 0x376), (0x3D8, 0x3EE),
   (0x3F7, 0x3F7), (0x3FA, 0x3FA), (0x460, 0x480), (0x48A, 0x4BE), (0x4C1, 0x4CD), (0x4D0, 0x52E),
   (0x1E00, 0x1E94), (0x1EA0, 0x1EFE), (0x2183, 0x2183), (0x2C60, 0x2C60), (0x2C67, 0x2C6B),
   (0x2C72, 0x2C72), (0x2C75, 0x2C75), (0x2C80, 0x2CE2), (0x2CEB, 0x2CED), (0x2CF2, 0x2CF2),
   (0xA640, 0xA66C), (0xA680, 0xA69A), (0xA722, 0xA72E), (0xA732, 0xA76E), (0xA779, 0xA77B),
   (0xA77E, 0xA786), (0xA78B, 0xA78B), (0xA790, 0xA792), (0xA796, 0xA7A8), (0xA7B4, 0xA7C2),
   (0xA7C7, 0xA7C9), (0xA7D0, 0xA7D0), (0xA7D6, 0xA7D8), (0xA7F5, 0xA7F5)]

/-- First and last capital letter of the other runs, and the first of their small letters. -/
def capitalRuns : List (Nat × Nat × Nat) :=
  [(0x41, 0x5A, 0x61), (0xC0, 0xD6, 0xE0), (0xD8, 0xDE, 0xF8), (0x178, 0x178, 0xFF),
   (0x181, 0x181, 0x253), (0x186, 0x186, 0x254), (0x189, 0x18A, 0x256), (0x18E, 0x18E, 0x1DD),
   (0x18F, 0x18F, 0x259), (0x190, 0x190, 0x25B), (0x193, 0x193, 0x260), (0x194, 0x194, 0x263),
   (0x196, 0x196, 0x269), (0x197, 0x197, 0x268), (0x19C, 0x19C, 0x26F), (0x19D, 0x19D, 0x272),
   (0x19F, 0x19F, 0x275), (0x1A6, 0x1A6, 0x280), (0x1A9, 0x1A9, 0x283), (0x1AE, 0x1AE, 0x288),
   (0x1B1, 0x1B2, 0x28A), (0x1B7, 0x1B7, 0x292), (0x1C4, 0x1C4, 0x1C6), (0x1C7, 0x1C7, 0x1C9),
   (0x1CA, 0x1CA, 0x1CC), (0x1F1, 0x1F1, 0x1F3), (0x1F6, 0x1F6, 0x195), (0x1F7, 0x1F7, 0x1BF),
   (0x220, 0x220, 0x19E), (0x23A, 0x23A, 0x2C65), (0x23D, 0x23D, 0x19A), (0x23E, 0x23E, 0x2C66),
   (0x243, 0x243, 0x180), (0x244, 0x244, 0x289), (0x245, 0x245, 0x28C), (0x37F, 0x37F, 0x3F3),
   (0x386, 0x386, 0x3AC), (0x388, 0x38A, 0x3AD), (0x38C, 0x38C, 0x3CC), (0x38E, 0x38F, 0x3CD),
   (0x391, 0x3A1, 0x3B1), (0x3A3, 0x3AB, 0x3C3), (0x3CF, 0x3CF, 0x3D7), (0x3F4, 0x3F4, 0x3B8),
   (0x3F9, 0x3F9, 0x3F2), (0x3FD, 0x3FF, 0x37B), (0x400, 0x40F, 0x450), (0x410, 0x42F, 0x430),
   (0x4C0, 0x4C0, 0x4CF), (0x531, 0x556, 0x561), (0x10A0, 0x10C5, 0x2D00),
   (0x10C7, 0x10C7, 0x2D27), (0x10CD, 0x10CD, 0x2D2D), (0x13A0, 0x13EF, 0xAB70),
   (0x13F0, 0x13F5, 0x13F8), (0x1C90, 0x1CBA, 0x10D0), (0x1CBD, 0x1CBF, 0x10FD),
   (0x1E9E, 0x1E9E, 0xDF), (0x1F08, 0x1F0F, 0x1F00), (0x1F18, 0x1F1D, 0x1F10),
   (0x1F28, 0x1F2F, 0x1F20), (0x1F38, 0x1F3F, 0x1F30), (0x1F48, 0x1F4D, 0x1F40),
   (0x1F59, 0x1F59, 0x1F51), (0x1F5B, 0x1F5B, 0x1F53), (0x1F5D, 0x1F5D, 0x1F55),
   (0x1F5F, 0x1F5F, 0x1F57), (0x1F68, 0x1F6F, 0x1F60), (0x1F88, 0x1F8F, 0x1F80),
   (0x1F98, 0x1F9F, 0x1F90), (0x1FA8, 0x1FAF, 0x1FA0), (0x1FB8, 0x1FB9, 0x1FB0),
   (0x1FBA, 0x1FBB, 0x1F70), (0x1FBC, 0x1FBC, 0x1FB3), (0x1FC8, 0x1FCB, 0x1F72),
   (0x1FCC, 0x1FCC, 0x1FC3), (0x1FD8, 0x1FD9, 0x1FD0), (0x1FDA, 0x1FDB, 0x1F76),
   (0x1FE8, 0x1FE9, 0x1FE0), (0x1FEA, 0x1FEB, 0x1F7A), (0x1FEC, 0x1FEC, 0x1FE5),
   (0x1FF8, 0x1FF9, 0x1F78), (0x1FFA, 0x1FFB, 0x1F7C), (0x1FFC, 0x1FFC, 0x1FF3),
   (0x2126, 0x2126, 0x3C9), (0x212A, 0x212A, 0x6B), (0x212B, 0x212B, 0xE5),
   (0x2132, 0x2132, 0x214E), (0x2160, 0x216F, 0x2170), (0x24B6, 0x24CF, 0x24D0),
   (0x2C00, 0x2C2F, 0x2C30), (0x2C62, 0x2C62, 0x26B), (0x2C63, 0x2C63, 0x1D7D),
   (0x2C64, 0x2C64, 0x27D), (0x2C6D, 0x2C6D, 0x251), (0x2C6E, 0x2C6E, 0x271),
   (0x2C6F, 0x2C6F, 0x250), (0x2C70, 0x2C70, 0x252), (0x2C7E, 0x2C7F, 0x23F),
   (0xA77D, 0xA77D, 0x1D79), (0xA78D, 0xA78D, 0x265), (0xA7AA, 0xA7AA, 0x266),
   (0xA7AB, 0xA7AB, 0x25C), (0xA7AC, 0xA7AC, 0x261), (0xA7AD, 0xA7AD, 0x26C),
   (0xA7AE, 0xA7AE, 0x26A), (0xA7B0, 0xA7B0, 0x29E), (0xA7B1, 0xA7B1, 0x287),
   (0xA7B2, 0xA7B2, 0x29D), (0xA7B3, 0xA7B3, 0xAB53), (0xA7C4, 0xA7C4, 0xA794),
   (0xA7C5, 0xA7C5, 0x282), (0xA7C6, 0xA7C6, 0x1D8E), (0xFF21, 0xFF3A, 0xFF41),
   (0x10400, 0x10427, 0x10428), (0x104B0, 0x104D3, 0x104D8), (0x10570, 0x1057A, 0x10597),
   (0x1057C, 0x1058A, 0x105A3), (0x1058C, 0x10592, 0x105B3), (0x10594, 0x10595, 0x105BB),
   (0x10C80, 0x10CB2, 0x10CC0), (0x118A0, 0x118BF, 0x118C0), (0x16E40, 0x16E5F, 0x16E60),
   (0x1E900, 0x1E921, 0x1E922)]

/-- The code point of the small letter; of anything but a capital letter, its own. -/
def smallValue (n : Nat) : Nat :=
  if alternatingCase.any fun run => run.1 ≤ n && n ≤ run.2 && (n - run.1) % 2 == 0 then n + 1
  else
    match capitalRuns.find? fun run => run.1 ≤ n && n ≤ run.2.1 with
    | some run => run.2.2 + (n - run.1)
    | none => n

def small (c : Char) : Char := Char.ofNat (smallValue c.toNat)

def dotAbove : Char := Char.ofNat 0x307

/-- What a character can become. A capital sigma has a second small letter for the end of a word,
and a dotted capital I keeps its dot as a character of its own. -/
def lowerForms (c : Char) : List (List Char) :=
  if c = 'Σ' then [['σ'], ['ς']]
  else if c = 'İ' then [['i', dotAbove]]
  else [[small c]]

/-- A text in lower case, with either small letter for each sigma. -/
inductive Lowers : List Char → List Char → Prop
  | nil : Lowers [] []
  | cons {c : Char} {form text lowered : List Char} (own : form ∈ lowerForms c)
      (later : Lowers text lowered) : Lowers (c :: text) (form ++ lowered)

theorem small_of_ascii {c : Char} (ascii : c.toNat < 0x80) : small c = c.toLower := by
  have all : ∀ n < 0x80, small (Char.ofNat n) = (Char.ofNat n).toLower := by decide +kernel
  have own := all c.toNat ascii
  rwa [Char.ofNat_toNat] at own

/-- The small letters of foreign capitals are foreign, except for one sign that shares its small
letter with K. -/
theorem small_of_foreign {c : Char} (foreign : 0x80 ≤ c.toNat) :
    0x80 ≤ (small c).toNat ∨ small c = 'k' := by
  have toNat {n : Nat} (low : 0x80 ≤ n) (valid : n.isValidChar) : 0x80 ≤ (Char.ofNat n).toNat := by
    rw [Char.ofNat, dif_pos valid]
    exact low
  have alternating : ∀ run ∈ alternatingCase, run.2 < 0xD7FF := by decide
  have others : ∀ run ∈ capitalRuns, run.2.1 < 0x80 ∨ run = (0x212A, 0x212A, 0x6B) ∨
      0x80 ≤ run.2.2 ∧ (run.2.2 + (run.2.1 - run.1) < 0xD800 ∨
        0xDFFF < run.2.2 ∧ run.2.2 + (run.2.1 - run.1) < 0x110000) := by decide +kernel
  unfold small smallValue
  split
  next found =>
    obtain ⟨run, stored, inside⟩ := List.any_eq_true.1 found
    simp only [Bool.and_eq_true, decide_eq_true_eq] at inside
    have last := alternating run stored
    exact .inl (toNat (by omega) (.inl (by omega)))
  next =>
    split
    next run found =>
      have inside := List.find?_some found
      simp only [Bool.and_eq_true, decide_eq_true_eq] at inside
      rcases others run (List.mem_of_find?_eq_some found) with ascii | rfl | ⟨low, valid⟩
      · omega
      · refine .inr ?_
        have same : c.toNat = 0x212A := Nat.le_antisymm inside.2 inside.1
        rw [same]
        rfl
      · refine .inl (toNat (by omega) ?_)
        unfold Nat.isValidChar
        omega
    next =>
      rw [Char.ofNat_toNat]
      exact .inl foreign

theorem lowerForms_of_ascii {c : Char} (ascii : c.toNat < 0x80) : lowerForms c = [[c.toLower]] := by
  have sigma : c ≠ 'Σ' := by
    rintro rfl
    revert ascii
    decide
  have dotted : c ≠ 'İ' := by
    rintro rfl
    revert ascii
    decide
  rw [lowerForms, if_neg sigma, if_neg dotted, small_of_ascii ascii]

theorem exists_mem_of_foreign {c : Char} (foreign : 0x80 ≤ c.toNat) {form : List Char}
    (own : form ∈ lowerForms c) : ∃ d ∈ form, 0x80 ≤ d.toNat ∨ d = 'k' := by
  unfold lowerForms at own
  split at own
  · rcases List.mem_cons.1 own with rfl | own
    · exact ⟨'σ', by simp, .inl (by decide)⟩
    · obtain rfl := List.mem_singleton.1 own
      exact ⟨'ς', by simp, .inl (by decide)⟩
  · split at own
    · obtain rfl := List.mem_singleton.1 own
      exact ⟨dotAbove, by simp, .inl (by decide)⟩
    · obtain rfl := List.mem_singleton.1 own
      exact ⟨small c, by simp, small_of_foreign foreign⟩

theorem exists_lowers (text : List Char) : ∃ lowered, Lowers text lowered := by
  induction text with
  | nil => exact ⟨[], .nil⟩
  | cons c text ih =>
    obtain ⟨lowered, later⟩ := ih
    have form : ∃ form, form ∈ lowerForms c := by
      unfold lowerForms
      split
      · exact ⟨_, List.mem_cons_self⟩
      · split <;> exact ⟨_, List.mem_cons_self⟩
    obtain ⟨form, own⟩ := form
    exact ⟨form ++ lowered, .cons own later⟩

theorem Lowers.eq_of_ascii {text lowered : List Char} (lowers : Lowers text lowered)
    (ascii : ∀ c ∈ text, c.toNat < 0x80) : lowered = text.map Char.toLower := by
  induction lowers with
  | nil => rfl
  | @cons c form text lowered own later ih =>
    rw [lowerForms_of_ascii (ascii c List.mem_cons_self)] at own
    obtain rfl := List.mem_singleton.1 own
    rw [ih fun d member => ascii d (List.mem_cons_of_mem c member)]
    rfl

/-- Letters of English other than k come from such letters only. -/
theorem Lowers.ascii {text lowered : List Char} (lowers : Lowers text lowered)
    (plain : ∀ c ∈ lowered, c.toNat < 0x80 ∧ c ≠ 'k') : ∀ c ∈ text, c.toNat < 0x80 := by
  induction lowers with
  | nil => simp
  | @cons c form text lowered own later ih =>
    have here : c.toNat < 0x80 := by
      refine Nat.lt_of_not_le fun foreign => ?_
      obtain ⟨d, stored, strange⟩ := exists_mem_of_foreign foreign own
      have usual := plain d (List.mem_append_left lowered stored)
      rcases strange with beyond | same
      · omega
      · exact usual.2 same
    intro d member
    rcases List.mem_cons.1 member with rfl | member
    · exact here
    · exact ih (fun e stored => plain e (List.mem_append_right form stored)) d member

end ConicForm.Text
