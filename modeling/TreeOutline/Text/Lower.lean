/-!
Lower case by the Unicode standard, version 16. The tables hold the capital letters beyond ASCII, and
any other character is its own lower case. The small sigma that stands at the end of a word is not
told apart from the other one.
-/

namespace TreeOutline.Text

/-- Runs of capital letters, and the small letter of the first one in each. The small letters of the
others follow in order. -/
def capitalRuns : List (Nat × Nat × Nat) :=
  [(0xC0, 0xD6, 0xE0), (0xD8, 0xDE, 0xF8), (0x178, 0x178, 0xFF), (0x181, 0x181, 0x253),
    (0x186, 0x186, 0x254), (0x189, 0x18A, 0x256), (0x18E, 0x18E, 0x1DD), (0x18F, 0x18F, 0x259),
    (0x190, 0x190, 0x25B), (0x193, 0x193, 0x260), (0x194, 0x194, 0x263), (0x196, 0x196, 0x269),
    (0x197, 0x197, 0x268), (0x19C, 0x19C, 0x26F), (0x19D, 0x19D, 0x272), (0x19F, 0x19F, 0x275),
    (0x1A6, 0x1A6, 0x280), (0x1A9, 0x1A9, 0x283), (0x1AE, 0x1AE, 0x288), (0x1B1, 0x1B2, 0x28A),
    (0x1B7, 0x1B7, 0x292), (0x1C4, 0x1C4, 0x1C6), (0x1C7, 0x1C7, 0x1C9), (0x1CA, 0x1CA, 0x1CC),
    (0x1F1, 0x1F1, 0x1F3), (0x1F6, 0x1F6, 0x195), (0x1F7, 0x1F7, 0x1BF), (0x220, 0x220, 0x19E),
    (0x23A, 0x23A, 0x2C65), (0x23D, 0x23D, 0x19A), (0x23E, 0x23E, 0x2C66), (0x243, 0x243, 0x180),
    (0x244, 0x244, 0x289), (0x245, 0x245, 0x28C), (0x37F, 0x37F, 0x3F3), (0x386, 0x386, 0x3AC),
    (0x388, 0x38A, 0x3AD), (0x38C, 0x38C, 0x3CC), (0x38E, 0x38F, 0x3CD), (0x391, 0x3A1, 0x3B1),
    (0x3A3, 0x3AB, 0x3C3), (0x3CF, 0x3CF, 0x3D7), (0x3F4, 0x3F4, 0x3B8), (0x3F9, 0x3F9, 0x3F2),
    (0x3FD, 0x3FF, 0x37B), (0x400, 0x40F, 0x450), (0x410, 0x42F, 0x430), (0x4C0, 0x4C0, 0x4CF),
    (0x531, 0x556, 0x561), (0x10A0, 0x10C5, 0x2D00), (0x10C7, 0x10C7, 0x2D27),
    (0x10CD, 0x10CD, 0x2D2D), (0x13A0, 0x13EF, 0xAB70), (0x13F0, 0x13F5, 0x13F8),
    (0x1C90, 0x1CBA, 0x10D0), (0x1CBD, 0x1CBF, 0x10FD), (0x1E9E, 0x1E9E, 0xDF),
    (0x1F08, 0x1F0F, 0x1F00), (0x1F18, 0x1F1D, 0x1F10), (0x1F28, 0x1F2F, 0x1F20),
    (0x1F38, 0x1F3F, 0x1F30), (0x1F48, 0x1F4D, 0x1F40), (0x1F59, 0x1F59, 0x1F51),
    (0x1F5B, 0x1F5B, 0x1F53), (0x1F5D, 0x1F5D, 0x1F55), (0x1F5F, 0x1F5F, 0x1F57),
    (0x1F68, 0x1F6F, 0x1F60), (0x1F88, 0x1F8F, 0x1F80), (0x1F98, 0x1F9F, 0x1F90),
    (0x1FA8, 0x1FAF, 0x1FA0), (0x1FB8, 0x1FB9, 0x1FB0), (0x1FBA, 0x1FBB, 0x1F70),
    (0x1FBC, 0x1FBC, 0x1FB3), (0x1FC8, 0x1FCB, 0x1F72), (0x1FCC, 0x1FCC, 0x1FC3),
    (0x1FD8, 0x1FD9, 0x1FD0), (0x1FDA, 0x1FDB, 0x1F76), (0x1FE8, 0x1FE9, 0x1FE0),
    (0x1FEA, 0x1FEB, 0x1F7A), (0x1FEC, 0x1FEC, 0x1FE5), (0x1FF8, 0x1FF9, 0x1F78),
    (0x1FFA, 0x1FFB, 0x1F7C), (0x1FFC, 0x1FFC, 0x1FF3), (0x2126, 0x2126, 0x3C9),
    (0x212A, 0x212A, 0x6B), (0x212B, 0x212B, 0xE5), (0x2132, 0x2132, 0x214E),
    (0x2160, 0x216F, 0x2170), (0x24B6, 0x24CF, 0x24D0), (0x2C00, 0x2C2F, 0x2C30),
    (0x2C62, 0x2C62, 0x26B), (0x2C63, 0x2C63, 0x1D7D), (0x2C64, 0x2C64, 0x27D),
    (0x2C6D, 0x2C6D, 0x251), (0x2C6E, 0x2C6E, 0x271), (0x2C6F, 0x2C6F, 0x250),
    (0x2C70, 0x2C70, 0x252), (0x2C7E, 0x2C7F, 0x23F), (0xA77D, 0xA77D, 0x1D79),
    (0xA78D, 0xA78D, 0x265), (0xA7AA, 0xA7AA, 0x266), (0xA7AB, 0xA7AB, 0x25C),
    (0xA7AC, 0xA7AC, 0x261), (0xA7AD, 0xA7AD, 0x26C), (0xA7AE, 0xA7AE, 0x26A),
    (0xA7B0, 0xA7B0, 0x29E), (0xA7B1, 0xA7B1, 0x287), (0xA7B2, 0xA7B2, 0x29D),
    (0xA7B3, 0xA7B3, 0xAB53), (0xA7C4, 0xA7C4, 0xA794), (0xA7C5, 0xA7C5, 0x282),
    (0xA7C6, 0xA7C6, 0x1D8E), (0xA7CB, 0xA7CB, 0x264), (0xA7DC, 0xA7DC, 0x19B),
    (0xFF21, 0xFF3A, 0xFF41), (0x10400, 0x10427, 0x10428), (0x104B0, 0x104D3, 0x104D8),
    (0x10570, 0x1057A, 0x10597), (0x1057C, 0x1058A, 0x105A3), (0x1058C, 0x10592, 0x105B3),
    (0x10594, 0x10595, 0x105BB), (0x10C80, 0x10CB2, 0x10CC0), (0x10D50, 0x10D65, 0x10D70),
    (0x118A0, 0x118BF, 0x118C0), (0x16E40, 0x16E5F, 0x16E60), (0x1E900, 0x1E921, 0x1E922)]

/-- Runs in which capital letters and their small letters take turns, from the first capital letter
to the last one. -/
def capitalTurns : List (Nat × Nat) :=
  [(0x100, 0x12E), (0x132, 0x136), (0x139, 0x147), (0x14A, 0x176), (0x179, 0x17D),
    (0x182, 0x184), (0x187, 0x187), (0x18B, 0x18B), (0x191, 0x191), (0x198, 0x198),
    (0x1A0, 0x1A4), (0x1A7, 0x1A7), (0x1AC, 0x1AC), (0x1AF, 0x1AF), (0x1B3, 0x1B5),
    (0x1B8, 0x1B8), (0x1BC, 0x1BC), (0x1C5, 0x1C5), (0x1C8, 0x1C8), (0x1CB, 0x1DB),
    (0x1DE, 0x1EE), (0x1F2, 0x1F4), (0x1F8, 0x21E), (0x222, 0x232), (0x23B, 0x23B),
    (0x241, 0x241), (0x246, 0x24E), (0x370, 0x372), (0x376, 0x376), (0x3D8, 0x3EE),
    (0x3F7, 0x3F7), (0x3FA, 0x3FA), (0x460, 0x480), (0x48A, 0x4BE), (0x4C1, 0x4CD),
    (0x4D0, 0x52E), (0x1C89, 0x1C89), (0x1E00, 0x1E94), (0x1EA0, 0x1EFE), (0x2183, 0x2183),
    (0x2C60, 0x2C60), (0x2C67, 0x2C6B), (0x2C72, 0x2C72), (0x2C75, 0x2C75), (0x2C80, 0x2CE2),
    (0x2CEB, 0x2CED), (0x2CF2, 0x2CF2), (0xA640, 0xA66C), (0xA680, 0xA69A), (0xA722, 0xA72E),
    (0xA732, 0xA76E), (0xA779, 0xA77B), (0xA77E, 0xA786), (0xA78B, 0xA78B), (0xA790, 0xA792),
    (0xA796, 0xA7A8), (0xA7B4, 0xA7C2), (0xA7C7, 0xA7C9), (0xA7CC, 0xA7CC), (0xA7D0, 0xA7D0),
    (0xA7D6, 0xA7DA), (0xA7F5, 0xA7F5)]

def smallCode (n : Nat) : Nat :=
  match capitalRuns.find? fun run => run.1 ≤ n && n ≤ run.2.1 with
  | some run => run.2.2 + (n - run.1)
  | none =>
    if capitalTurns.any fun turns => turns.1 ≤ n && n ≤ turns.2 && (n - turns.1) % 2 = 0 then n + 1
    else n

/-- The lower case of a character. The dot of a capital I becomes a character of its own. -/
def lowerChar (c : Char) : List Char :=
  if c.toNat < 128 then [c.toLower]
  else if c = '\u0130' then ['i', '\u0307']
  else [Char.ofNat (smallCode c.toNat)]

def lower (s : List Char) : List Char :=
  s.flatMap lowerChar

/-- Within ASCII this is the lower case of the core library. -/
theorem lowerChar_ascii {c : Char} (h : c.toNat < 128) : lowerChar c = [c.toLower] :=
  if_pos h

/-! ## What stays beyond ASCII -/

theorem capitalRuns_beyond : ∀ run ∈ capitalRuns, run = (0x212A, 0x212A, 0x6B) ∨
    128 ≤ run.2.2 ∧ (run.2.2 + (run.2.1 - run.1) < 0xD800 ∨
      0xDFFF < run.2.2 ∧ run.2.2 + (run.2.1 - run.1) < 0x110000) := by
  decide +kernel

theorem capitalTurns_lt : ∀ turns ∈ capitalTurns, turns.2 + 1 < 0xD800 := by
  decide

/-- Of the codes beyond ASCII only that of the sign for kelvin has a lower case within, which is k. -/
theorem smallCode_beyond {n : Nat} (h : 128 ≤ n) (hn : n.isValidChar) :
    smallCode n = 0x6B ∨ 128 ≤ smallCode n ∧ (smallCode n).isValidChar := by
  unfold smallCode
  split
  · next run hrun =>
    have hin : run.1 ≤ n ∧ n ≤ run.2.1 := by simpa using List.find?_some hrun
    rcases capitalRuns_beyond run (List.mem_of_find?_eq_some hrun) with rfl | hbounds
    · left
      simp only at hin ⊢
      omega
    · right
      simp only [Nat.isValidChar]
      omega
  · right
    split
    · next hturns =>
      obtain ⟨turns, hmem, hin⟩ := List.any_eq_true.1 hturns
      have hlast := capitalTurns_lt turns hmem
      have hle : n ≤ turns.2 := by simp_all
      simp only [Nat.isValidChar]
      omega
    · exact ⟨h, hn⟩

theorem toNat_ofNat {n : Nat} (h : n.isValidChar) : (Char.ofNat n).toNat = n := by
  rw [Char.ofNat, dif_pos h]
  rfl

/-- A character beyond ASCII has a lower case beyond ASCII, or the lower case k. -/
theorem lowerChar_beyond {c : Char} (h : 128 ≤ c.toNat) :
    lowerChar c = ['k'] ∨ ∃ d ∈ lowerChar c, 128 ≤ d.toNat := by
  unfold lowerChar
  rw [if_neg (Nat.not_lt.2 h)]
  split
  · exact .inr ⟨'\u0307', by simp, by decide⟩
  · rcases smallCode_beyond h c.valid with hk | ⟨hbeyond, hvalid⟩
    · exact .inl (by rw [hk])
    · right
      exact ⟨_, List.mem_singleton_self _, by rw [toNat_ofNat hvalid]; exact hbeyond⟩

end TreeOutline.Text
