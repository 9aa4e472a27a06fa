import Mathlib.Data.List.Forall2
import Mathlib.Tactic.IntervalCases
import Chip8.Instruction.Basic

/-! The decoder as a reader of patterns: of 35 words of four digits and wildcards, it finds the one
that an instruction matches. -/

namespace Chip8

def Text.hexDigit (d : Fin 16) : Char := (Nat.digitChar d).toUpper

namespace Opcode

def wildcards : List Char := ['n', 'k', 'x', 'y']

def Fits (p d : Char) : Prop := p ∈ wildcards ∨ p = d

instance (p d : Char) : Decidable (Fits p d) := inferInstanceAs (Decidable (_ ∨ _))

def Matches (op : Opcode) (w : Int) : Prop :=
  List.Forall₂ Fits op.pattern.toList (Text.hex 4 w).toList

instance (op : Opcode) (w : Int) : Decidable (op.Matches w) :=
  inferInstanceAs (Decidable (List.Forall₂ _ _ _))

def value (p : Char) : Fin 16 := digit (if p.isDigit then p.toNat - 48 else p.toNat - 55) 0

variable {op : Opcode} {w v : Int} {p : Char} {d : Fin 16}

theorem value_hexDigit (d : Fin 16) : value (Text.hexDigit d) = d := by
  revert d
  decide

theorem fits_wildcard {d : Char} (hp : p ∈ wildcards) : Fits p d ↔ True :=
  iff_true_intro (.inl hp)

theorem fits_hexDigit (hp : p ∉ wildcards ∧ Text.hexDigit (value p) = p) :
    Fits p (Text.hexDigit d) ↔ d = value p := by
  constructor
  · rintro (h | rfl)
    · exact absurd h hp.1
    · exact (value_hexDigit d).symm
  · rintro rfl
    exact .inr hp.2.symm

/-- The pattern of unknown words describes no word. -/
theorem not_fits_question (d : Fin 16) : ¬ Fits '?' (Text.hexDigit d) := by
  revert d
  decide

theorem digit_val (w : Int) (k : Nat) : ((digit w k : Nat) : Int) = w / 16 ^ k % 16 := by
  have hs : ((digit w k : Nat) : Int) = w >>> (4 * k) % 16 :=
    Int.toNat_of_nonneg (Int.emod_nonneg _ (by decide))
  rw [hs, Int.shiftRight_eq_div_pow, Nat.pow_mul]
  norm_cast

theorem digit_natCast (n k : Nat) : (digit n k : Nat) = n / 16 ^ k % 16 := by
  exact_mod_cast digit_val n k

theorem word_eq_digits (h : 0 ≤ w ∧ w ≤ 0xFFFF) :
    w = 4096 * (digit w 3).val + 256 * (digit w 2).val + 16 * (digit w 1).val + (digit w 0).val := by
  simp only [digit_val]
  omega

theorem toList_hex (h : 0 ≤ w ∧ w ≤ 0xFFFF) :
    (Text.hex 4 w).toList = [digit w 3, digit w 2, digit w 1, digit w 0].map Text.hexDigit := by
  obtain ⟨n, rfl⟩ := Int.eq_ofNat_of_zero_le h.1
  have hn : n / 16 / 16 / 16 < 16 := by omega
  rw [Text.hex, if_neg (by omega), Int.natAbs_natCast, Text.lowerHex_succ (by decide),
    Text.lowerHex_succ (by decide), Text.lowerHex_succ (by decide), Text.lowerHex_one hn]
  simp only [List.map_cons, List.map_nil, Text.hexDigit, digit_natCast,
    Nat.div_div_eq_div_mul] at hn ⊢
  simp [Nat.mod_eq_of_lt hn]

theorem matches_iff (h : 0 ≤ w ∧ w ≤ 0xFFFF) : op.Matches w ↔
    List.Forall₂ (fun p d => Fits p (Text.hexDigit d)) op.pattern.toList
      [digit w 3, digit w 2, digit w 1, digit w 0] := by
  rw [Matches, toList_hex h, List.forall₂_map_right_iff]

theorem not_matches_unknown (h : 0 ≤ w ∧ w ≤ 0xFFFF) : ¬ unknown.Matches w := by
  rw [matches_iff h]
  simp only [pattern, String.reduceToList, List.forall₂_cons, not_fits_question, false_and,
    not_false_eq_true]

theorem ofWord_of_family (h : digit w 3 = 0) :
    ofWord w = if w = 0xE0 then .clear else if w = 0xEE then .ret else .sys := by
  rw [ofWord, h]
  rfl

theorem eq_of_matches (h : 0 ≤ w ∧ w ≤ 0xFFFF) (hm : op.Matches w) :
    op = ofWord w ∨ op = .sys ∧ (ofWord w = .clear ∨ ofWord w = .ret) := by
  have hw := word_eq_digits h
  rw [matches_iff h] at hm
  cases op
  case unknown => exact absurd hm (mt (matches_iff h).2 (not_matches_unknown h))
  all_goals
    simp (disch := decide) only [pattern, String.reduceToList, List.forall₂_cons,
      List.forall₂_nil_right_iff, fits_wildcard, fits_hexDigit, true_and, and_true] at hm
  case sys =>
    rw [ofWord_of_family hm]
    split
    · exact .inr ⟨rfl, .inl rfl⟩
    · split
      · exact .inr ⟨rfl, .inr rfl⟩
      · exact .inl rfl
  case clear | ret =>
    obtain ⟨h3, h2, h1, h0⟩ := hm
    rw [h3, h2, h1, h0] at hw
    subst hw
    exact .inl rfl
  all_goals
    left
    simp only [ofWord, hm]
    rfl

theorem sys_matches (h : 0 ≤ w ∧ w ≤ 0xFFFF) (h3 : digit w 3 = 0) : sys.Matches w := by
  rw [matches_iff h]
  simp (disch := decide) only [pattern, String.reduceToList, List.forall₂_cons,
    List.forall₂_nil_right_iff, fits_wildcard, fits_hexDigit, and_true]
  exact h3

theorem matches_ofWord (h : 0 ≤ w ∧ w ≤ 0xFFFF) :
    ofWord w = .unknown ∨ (ofWord w).Matches w := by
  -- family 0 comes first, in three cases, and the words without a pattern last
  fun_cases ofWord w
  case case1 | case2 =>
    subst w
    decide
  case case3 h3 _ _ => exact .inr (sys_matches h h3)
  case case36 => exact .inl rfl
  all_goals
    right
    rw [matches_iff h]
    simp (disch := decide) only [pattern, String.reduceToList, List.forall₂_cons,
      List.forall₂_nil_right_iff, fits_wildcard, fits_hexDigit, true_and, and_true, *]
    decide

theorem digit_emod (w : Int) {k : Nat} (hk : k < 4) : digit (w % 65536) k = digit w k := by
  apply Fin.ext
  apply Int.natCast_inj.1
  rw [digit_val, digit_val]
  interval_cases k <;> omega

theorem digit_of_whole : ofWord w = .clear ∨ ofWord w = .ret → digit w 3 = 0 := by
  fun_cases ofWord w
  case case1 h3 _ | case2 h3 _ _ | case3 h3 _ _ => exact fun _ => h3
  all_goals simp

/-- Apart from family 0, the opcode is told by three digits. -/
theorem ofWord_congr (h : digit w 3 ≠ 0) (h3 : digit v 3 = digit w 3) (h1 : digit v 1 = digit w 1)
    (h0 : digit v 0 = digit w 0) : ofWord v = ofWord w := by
  rw [ofWord, h3, h1, h0]
  fun_cases ofWord w
  all_goals
    first | contradiction | simp only [*]

/-- A word is matched by the pattern of its own opcode, and by `0nnn` if that is `00E0` or `00EE`. -/
theorem matches_iff_ofWord (h : 0 ≤ w ∧ w ≤ 0xFFFF) : op.Matches w ↔
    op ≠ .unknown ∧ (op = ofWord w ∨ op = .sys ∧ (ofWord w = .clear ∨ ofWord w = .ret)) := by
  constructor
  · intro hm
    refine ⟨?_, eq_of_matches h hm⟩
    rintro rfl
    exact not_matches_unknown h hm
  · rintro ⟨hn, rfl | ⟨rfl, ho⟩⟩
    · exact (matches_ofWord h).resolve_left hn
    · exact sys_matches h (digit_of_whole ho)

/-- Words are compared with `00E0` and `00EE` as a whole, and otherwise without the digits above the
fourth. -/
theorem ofWord_emod (w : Int) :
    ofWord w = if ¬ (0 ≤ w ∧ w ≤ 0xFFFF) ∧ (w % 65536 = 0xE0 ∨ w % 65536 = 0xEE) then .sys
      else ofWord (w % 65536) := by
  by_cases hr : 0 ≤ w ∧ w ≤ 0xFFFF
  · rw [if_neg fun hn => hn.1 hr, Int.emod_eq_of_lt hr.1 (by omega)]
  have h3 : digit (w % 65536) 3 = digit w 3 := digit_emod w (by decide)
  by_cases hf : digit w 3 = 0
  · have hw : ofWord w = .sys := by
      rw [ofWord_of_family hf, if_neg (by omega), if_neg (by omega)]
    rw [hw, ofWord_of_family (h3.trans hf)]
    split
    · rfl
    · rw [if_neg (by omega), if_neg (by omega)]
  · have hn : ¬ (w % 65536 = 0xE0 ∨ w % 65536 = 0xEE) := by
      rintro (hc | hc) <;> exact hf (h3.symm.trans (by rw [hc]; decide))
    rw [if_neg fun h => hn h.2]
    exact (ofWord_congr hf h3 (digit_emod w (by decide)) (digit_emod w (by decide))).symm

end Opcode

namespace Instruction

theorem kk_ofWord (u : UInt16) :
    (ofWord u).kk.toNat = 16 * (ofWord u).y.val + (ofWord u).n.val := by
  simp only [ofWord, UInt16.toNat_toUInt8, Opcode.digit_natCast]
  omega

theorem nnn_ofWord (u : UInt16) :
    (ofWord u).nnn.val = 256 * (ofWord u).x.val + (ofWord u).kk.toNat := by
  simp only [ofWord, UInt16.toNat_toUInt8, Opcode.digit_natCast, Address.wrap]
  omega

/-- A word that fits four digits is taken apart into its digits, and its opcode is the one whose
pattern it matches; `0nnn` gives way to `00E0` and `00EE`. -/
theorem decode_reads_pattern (w : Int) :
    (∀ f, decode w = .error f ↔ ¬ (0 ≤ w ∧ w ≤ 0xFFFF) ∧ f = .wordOutOfRange w) ∧
    (0 ≤ w ∧ w ≤ 0xFFFF → ∃ i, decode w = .ok i ∧ (i.word.toNat : Int) = w ∧
      w = 4096 * (Opcode.digit w 3).val + 256 * i.x.val + 16 * i.y.val + i.n.val ∧
      i.kk.toNat = 16 * i.y.val + i.n.val ∧ i.nnn.val = 256 * i.x.val + i.kk.toNat ∧
      (∀ op : Opcode, op.Matches w ↔
        op ≠ .unknown ∧ (op = i.op ∨ op = .sys ∧ (i.op = .clear ∨ i.op = .ret))) ∧
      (i.op = .unknown ↔ ∀ op : Opcode, ¬ op.Matches w)) ∧
    Opcode.ofWord w =
      if ¬ (0 ≤ w ∧ w ≤ 0xFFFF) ∧ (w % 65536 = 0xE0 ∨ w % 65536 = 0xEE) then .sys
      else Opcode.ofWord (w % 65536) := by
  refine ⟨fun f => decode_eq_error_iff, fun h => ?_, Opcode.ofWord_emod w⟩
  obtain ⟨n, rfl⟩ := Int.eq_ofNat_of_zero_le h.1
  have hd := decode_word (w := n) (by omega)
  have hlt : n < UInt16.size := Nat.lt_of_le_of_lt (Int.ofNat_le.1 h.2) (by decide)
  have hn : (UInt16.ofNat n).toNat = n := UInt16.toNat_ofNat_of_lt' hlt
  have hm (op : Opcode) : op.Matches n ↔ op ≠ .unknown ∧
      (op = (ofWord (.ofNat n)).op ∨
        op = .sys ∧ ((ofWord (.ofNat n)).op = .clear ∨ (ofWord (.ofNat n)).op = .ret)) := by
    rw [op_of_decode hd]
    exact Opcode.matches_iff_ofWord h
  refine ⟨_, hd, congrArg _ hn, ?_, kk_ofWord _, nnn_ofWord _, hm, ?_⟩
  · simp only [ofWord, hn]
    exact Opcode.word_eq_digits h
  · constructor
    · intro hu op ho
      obtain ⟨ho, rfl | ⟨-, hc | hc⟩⟩ := (hm op).1 ho
      · exact ho hu
      · cases hu.symm.trans hc
      · cases hu.symm.trans hc
    · intro hno
      by_contra hu
      exact hno _ ((hm _).2 ⟨hu, .inl rfl⟩)

theorem decode_reads_pattern_whole :
    (∃ i, decode 0x00EE = .ok i ∧ i.op = .ret ∧ Opcode.sys.Matches 0x00EE ∧ i.nnn.val = 0xEE) ∧
      (∀ op : Opcode, ¬ op.Matches 0x8AB9) ∧ Opcode.ofWord (-0xFF20) = .sys := by
  refine ⟨?_, ?_, ?_⟩
  · obtain ⟨i, hd, -, -, -, -, hm, -⟩ := (decode_reads_pattern 0x00EE).2.1 (by decide)
    have hi := Except.ok.inj (hd.symm.trans (decode_word (w := 0xEE) (by decide)))
    subst hi
    exact ⟨_, hd, rfl, (hm .sys).2 ⟨nofun, .inr ⟨rfl, .inr rfl⟩⟩, rfl⟩
  · obtain ⟨i, hd, -, -, -, -, -, hu⟩ := (decode_reads_pattern 0x8AB9).2.1 (by decide)
    exact hu.1 ((op_of_decode hd).trans rfl)
  · rw [(decode_reads_pattern (-0xFF20)).2.2]
    decide

end Instruction

end Chip8
