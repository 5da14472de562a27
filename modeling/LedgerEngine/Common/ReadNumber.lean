/-
# Reading a number from a text

Two functions of JavaScript read numbers.  `Number(text)` takes a whole text: white
space around a decimal literal with a fraction and an exponent, or a hexadecimal,
octal or binary literal, or nothing at all.  `parseInt(text, 10)` takes the decimal
digits a text begins with, after white space and a sign, and ignores the rest.
Both give the number nearest to what they have read.

Where the first gives a positive integer, `parseInt_eq_iff` says for which texts the
second gives the same.
-/

import LedgerEngine.Common.JsString
import LedgerEngine.Common.Nearest
import Mathlib.Data.List.DropRight
import Mathlib.Data.List.TakeWhile

namespace LedgerEngine

/-- A JavaScript number; its two zeros are one here. -/
inductive JsNumber : Type
  | nan
  | infinity (negative : Bool)
  | finite (value : ℚ)
  deriving DecidableEq

namespace JsNumber

open Rounding (nearest Negligible)

/-- The distance of the numbers is at least `2^-1074`. -/
abbrev leastExponent : ℤ := -1074

/-- The number nearest to a rational: 53 bits, and infinite from `2^1024` on. -/
def ofRat (x : ℚ) : JsNumber :=
  let size := nearest 53 leastExponent |x|
  if 2 ^ 1024 ≤ size then .infinity (decide (x < 0))
  else .finite (if x < 0 then -size else size)

/-! ### Units -/

/-- White space and line terminators. -/
def isStrWhiteSpaceChar (u : UInt16) : Bool :=
  (9 ≤ u && u ≤ 13) || u == 0x20 || u == 0xA0 || u == 0x1680 || (0x2000 ≤ u && u ≤ 0x200A) ||
    u == 0x2028 || u == 0x2029 || u == 0x202F || u == 0x205F || u == 0x3000 || u == 0xFEFF

def trimStart (s : JsString) : JsString := s.dropWhile isStrWhiteSpaceChar

def trim (s : JsString) : JsString := (trimStart s).rdropWhile isStrWhiteSpaceChar

def isDigit (u : UInt16) : Bool := 48 ≤ u && u ≤ 57

/-- Decimal digits. -/
def Digits : Type := { ds : JsString // ∀ u ∈ ds, isDigit u = true }
  deriving DecidableEq

/-- The digits a text begins with. -/
def leadingDigits (t : JsString) : Digits :=
  ⟨t.takeWhile isDigit, fun _ h => List.mem_takeWhile_imp h⟩

def Digits.empty : Digits := ⟨[], fun _ h => absurd h List.not_mem_nil⟩

/-- The integer the digits write. -/
def Digits.value (ds : Digits) : ℕ := ds.1.foldl (fun n u => 10 * n + (u.toNat - 48)) 0

/-- What the digits are worth behind a point. -/
def Digits.fraction (ds : Digits) : ℚ := ds.value / 10 ^ ds.1.length

/-- Whether there is a minus sign, and the text behind the sign, if there is one. -/
def readSign : JsString → Bool × JsString
  | 43 :: t => (false, t)
  | 45 :: t => (true, t)
  | t => (false, t)

/-! ### Decimal literals -/

/-- Digits, digits behind a point, and an exponent. -/
structure DecimalLiteral where
  whole : Digits
  fraction : Digits
  exponent : ℤ

namespace DecimalLiteral

def value (l : DecimalLiteral) : ℚ := (l.whole.value + l.fraction.fraction) * 10 ^ l.exponent

/-- The digits behind a point, and the text behind them. -/
def readFraction : JsString → Digits × JsString
  | 46 :: t => (leadingDigits t, t.dropWhile isDigit)
  | t => (.empty, t)

/-- The exponent that is all of the text; without one it is zero. -/
def readExponent : JsString → Option ℤ
  | [] => some 0
  | u :: t =>
      let digits := leadingDigits (readSign t).2
      if (u = 101 ∨ u = 69) ∧ digits.1 ≠ [] ∧ digits.1 = (readSign t).2 then
        some (if (readSign t).1 then -digits.value else digits.value)
      else none

/-- The literal that is all of the text. -/
def read (t : JsString) : Option DecimalLiteral :=
  let whole := leadingDigits t
  let (fraction, rest) := readFraction (t.dropWhile isDigit)
  if whole.1 = [] ∧ fraction.1 = [] then none
  else (readExponent rest).map fun exponent => ⟨whole, fraction, exponent⟩

end DecimalLiteral

/-! ### The two functions -/

/-- The radix of the literals that begin with a zero and this letter. -/
def radixOf (u : UInt16) : Option ℕ :=
  if u = 120 ∨ u = 88 then some 16
  else if u = 111 ∨ u = 79 then some 8
  else if u = 98 ∨ u = 66 then some 2
  else none

/-- The value of a digit in a radix up to 36. -/
def radixDigit (u : UInt16) : ℕ :=
  if 48 ≤ u ∧ u ≤ 57 then u.toNat - 48
  else if 97 ≤ u ∧ u ≤ 122 then u.toNat - 87
  else if 65 ≤ u ∧ u ≤ 90 then u.toNat - 55
  else 36

/-- A hexadecimal, octal or binary literal; its letter says which. -/
def nonDecimal : JsString → Option JsNumber
  | 48 :: u :: ds => (radixOf u).map fun radix =>
      if !ds.isEmpty && ds.all fun d => radixDigit d < radix then
        ofRat (ds.foldl (fun n d => radix * n + radixDigit d) 0 : ℕ)
      else .nan
  | _ => none

/-- A signed decimal literal, or infinity. -/
def decimal (t : JsString) : JsNumber :=
  let (negative, u) := readSign t
  if u = js "Infinity" then .infinity negative
  else match DecimalLiteral.read u with
  | some l => ofRat (if negative then -l.value else l.value)
  | none => .nan

/-- `Number(text)`. -/
def toNumber (s : JsString) : JsNumber :=
  if trim s = [] then .finite 0 else (nonDecimal (trim s)).getD (decimal (trim s))

/-- `parseInt(text, 10)`. -/
def parseInt (s : JsString) : JsNumber :=
  let (negative, t) := readSign (trimStart s)
  let digits := leadingDigits t
  if digits.1 = [] then .nan
  else ofRat (if negative then -digits.value else digits.value)

/-- The text is, between white space, a decimal literal that begins with a digit, at
most behind a plus sign, with no exponent but zero and a negligible fraction. -/
def Plain (s : JsString) : Prop :=
  (readSign (trim s)).1 = false ∧ ∃ l ∈ DecimalLiteral.read (readSign (trim s)).2,
    l.whole.1 ≠ [] ∧ l.exponent = 0 ∧ Negligible 53 l.whole.value l.fraction.fraction

instance (s : JsString) : Decidable (Plain s) :=
  inferInstanceAs (Decidable (_ ∧ ∃ l ∈ DecimalLiteral.read (readSign (trim s)).2, _))

/-! ### Numbers -/

section OfRat

variable {x : ℚ} {v : ℚ}

theorem ofRat_eq_finite_iff (hx : 0 ≤ x) :
    ofRat x = .finite v ↔ nearest 53 leastExponent x = v ∧ v < 2 ^ 1024 := by
  unfold ofRat
  dsimp only
  rw [abs_of_nonneg hx, if_neg (not_lt.2 hx)]
  split_ifs with hlarge
  · refine iff_of_false nofun ?_
    rintro ⟨rfl, hlt⟩
    exact absurd hlarge (not_le.2 hlt)
  · constructor
    · rintro ⟨⟩
      exact ⟨rfl, not_le.1 hlarge⟩
    · rintro ⟨rfl, -⟩
      rfl

/-- Below `2^53` the integers are numbers. -/
theorem ofRat_natCast {n : ℕ} (hn : n < 2 ^ 53) : ofRat n = .finite n := by
  have hfits := Rounding.roundNat_eq_iff.2 (Rounding.fits_of_le (p := 53) (by decide) hn.le)
  rw [ofRat_eq_finite_iff (Nat.cast_nonneg n), Rounding.nearest_natCast (by decide) (by decide),
    hfits]
  refine ⟨rfl, ?_⟩
  have hlt : (n : ℚ) < 2 ^ 53 := by exact_mod_cast hn
  exact hlt.trans_le (pow_le_pow_right₀ one_le_two (by decide))

/-- Only a positive number is read as one. -/
theorem pos_of_ofRat (h : ofRat x = .finite v) (hv : 0 < v) : 0 < x := by
  by_contra hx
  rcases (not_lt.1 hx).eq_or_lt with rfl | hneg
  · have hzero := ofRat_natCast (n := 0) (by decide)
    rw [Nat.cast_zero, h] at hzero
    exact hv.ne' (JsNumber.finite.inj hzero)
  · have hsize := Rounding.nearest_nonneg 53 leastExponent (abs_nonneg x)
    unfold ofRat at h
    dsimp only at h
    rw [if_pos hneg] at h
    split_ifs at h
    obtain rfl := JsNumber.finite.inj h
    linarith

end OfRat

/-! ### Texts -/

section Text

variable {s t w : JsString} {u : UInt16}

theorem isDigit_eq_false (h : isStrWhiteSpaceChar u = true) : isDigit u = false := by
  simp only [isStrWhiteSpaceChar, Bool.or_eq_true, Bool.and_eq_true, decide_eq_true_eq,
    beq_iff_eq, UInt16.le_iff_toNat_le, ← UInt16.toNat_inj, UInt16.toNat_ofNat] at h
  simp only [isDigit, Bool.and_eq_false_iff, decide_eq_false_iff_not, UInt16.le_iff_toNat_le,
    UInt16.toNat_ofNat]
  omega

/-- The white space behind a text. -/
theorem exists_trimStart_eq (s : JsString) :
    ∃ w, trimStart s = trim s ++ w ∧ ∀ u ∈ w, isStrWhiteSpaceChar u = true :=
  ⟨(trimStart s).rtakeWhile isStrWhiteSpaceChar, List.rdropWhile_append_rtakeWhile.symm,
    fun _ h => List.mem_rtakeWhile_imp h⟩

theorem readSign_append (ht : t ≠ []) (w : JsString) :
    readSign (t ++ w) = ((readSign t).1, (readSign t).2 ++ w) := by
  cases t with
  | nil => exact absurd rfl ht
  | cons u t =>
      rw [List.cons_append]
      by_cases hplus : u = 43
      · subst hplus
        rfl
      · by_cases hminus : u = 45
        · subst hminus
          rfl
        · simp [readSign, hplus, hminus]

theorem leadingDigits_append (hw : ∀ u ∈ w, isStrWhiteSpaceChar u = true) :
    leadingDigits (t ++ w) = leadingDigits t := by
  have hnone : w.takeWhile isDigit = [] := by
    cases w with
    | nil => rfl
    | cons u w =>
        rw [List.takeWhile_cons, isDigit_eq_false (hw u List.mem_cons_self)]
        rfl
  refine Subtype.ext ?_
  show (t ++ w).takeWhile isDigit = t.takeWhile isDigit
  rw [List.takeWhile_append, hnone, List.append_nil]
  split_ifs with hall
  · exact ((List.takeWhile_prefix isDigit).eq_of_length hall).symm
  · rfl

/-- **White space behind the text changes nothing** for `parseInt` either. -/
theorem parseInt_eq (hs : trim s ≠ []) :
    parseInt s =
      if (leadingDigits (readSign (trim s)).2).1 = [] then .nan
      else ofRat (if (readSign (trim s)).1 then -(leadingDigits (readSign (trim s)).2).value
        else (leadingDigits (readSign (trim s)).2).value) := by
  obtain ⟨w, hw, hspace⟩ := exists_trimStart_eq s
  unfold parseInt
  rw [hw, readSign_append hs]
  dsimp only
  rw [leadingDigits_append hspace]

end Text

/-! ### Digits -/

namespace Digits

/-- Reading on digits after the number `n`. -/
theorem foldl_lt (ds : JsString) (hds : ∀ u ∈ ds, isDigit u = true) (n : ℕ) :
    ds.foldl (fun n u => 10 * n + (u.toNat - 48)) n < (n + 1) * 10 ^ ds.length := by
  induction ds generalizing n with
  | nil => simp
  | cons u ds ih =>
      obtain ⟨hu, hrest⟩ := List.forall_mem_cons.1 hds
      simp only [isDigit, Bool.and_eq_true, decide_eq_true_eq, UInt16.le_iff_toNat_le,
        UInt16.toNat_ofNat] at hu
      rw [List.foldl_cons, List.length_cons]
      calc ds.foldl (fun n u => 10 * n + (u.toNat - 48)) (10 * n + (u.toNat - 48))
          < (10 * n + (u.toNat - 48) + 1) * 10 ^ ds.length := ih hrest _
        _ ≤ (n + 1) * 10 * 10 ^ ds.length := Nat.mul_le_mul_right _ (by omega)
        _ = (n + 1) * 10 ^ (ds.length + 1) := by rw [mul_assoc, pow_succ']

theorem value_lt (ds : Digits) : ds.value < 10 ^ ds.1.length := by
  have h := foldl_lt ds.1 ds.2 0
  rwa [zero_add, one_mul] at h

theorem fraction_nonneg (ds : Digits) : 0 ≤ ds.fraction :=
  div_nonneg (Nat.cast_nonneg _) (by positivity)

theorem fraction_lt_one (ds : Digits) : ds.fraction < 1 := by
  unfold fraction
  rw [div_lt_one (by positivity)]
  exact_mod_cast ds.value_lt

end Digits

theorem DecimalLiteral.value_nonneg (l : DecimalLiteral) : 0 ≤ l.value :=
  mul_nonneg (add_nonneg (Nat.cast_nonneg _) l.fraction.fraction_nonneg)
    (zpow_pos (by norm_num) _).le

theorem DecimalLiteral.whole_of_read {t : JsString} {l : DecimalLiteral} (h : read t = some l) :
    l.whole = leadingDigits t := by
  unfold read at h
  dsimp only at h
  split_ifs at h
  obtain ⟨exponent, -, rfl⟩ := Option.map_eq_some_iff.1 h
  rfl

/-! ### Agreement -/

section Agreement

variable {s t : JsString} {v : ℤ}

/-- A positive number is read from a literal without a minus sign. -/
theorem exists_read_of_decimal (h : decimal t = .finite v) (hv : 1 ≤ v) :
    (readSign t).1 = false ∧
      ∃ l, DecimalLiteral.read (readSign t).2 = some l ∧ ofRat l.value = .finite v := by
  have hpos : (0 : ℚ) < v := by exact_mod_cast hv
  unfold decimal at h
  generalize readSign t = signed at h ⊢
  obtain ⟨negative, u⟩ := signed
  dsimp only at h ⊢
  by_cases hinfinity : u = js "Infinity"
  · rw [if_pos hinfinity] at h
    cases h
  rw [if_neg hinfinity] at h
  cases hread : DecimalLiteral.read u with
  | none =>
      rw [hread] at h
      cases h
  | some l =>
      rw [hread] at h
      dsimp only at h
      cases negative with
      | false => exact ⟨rfl, l, rfl, h⟩
      | true =>
          rw [if_pos rfl] at h
          have hneg := pos_of_ofRat h hpos
          linarith [l.value_nonneg]

/-- The letter of a prefix does not go on with a decimal literal. -/
theorem isDigit_of_radixOf {u : UInt16} (h : (radixOf u).isSome) :
    isDigit u = false ∧ u ≠ 46 ∧ u ≠ 101 ∧ u ≠ 69 := by
  unfold radixOf at h
  split_ifs at h with h₁ h₂ h₃
  · rcases h₁ with rfl | rfl <;> decide
  · rcases h₂ with rfl | rfl <;> decide
  · rcases h₃ with rfl | rfl <;> decide
  · cases h

/-- `parseInt` reads the zero of a prefix. -/
theorem parseInt_of_nonDecimal (h : (nonDecimal (trim s)).isSome) :
    parseInt s = .finite 0 ∧ ¬Plain s := by
  unfold nonDecimal at h
  split at h
  · rename_i u ds htrim
    rw [Option.isSome_map] at h
    obtain ⟨hdigit, hpoint, he, hE⟩ := isDigit_of_radixOf h
    have hsign : readSign (trim s) = (false, 48 :: u :: ds) := by rw [htrim]; rfl
    have hzero : ∀ d ∈ [48], isDigit d = true := List.forall_mem_singleton.2 rfl
    have hdigits : leadingDigits (48 :: u :: ds) = ⟨[48], hzero⟩ := by
      refine Subtype.ext ?_
      show List.takeWhile isDigit (48 :: u :: ds) = [48]
      rw [List.takeWhile_cons_of_pos (by decide), List.takeWhile_cons_of_neg (by simp [hdigit])]
    have hread : DecimalLiteral.read (48 :: u :: ds) = none := by
      have hdrop : List.dropWhile isDigit (48 :: u :: ds) = u :: ds := by
        rw [List.dropWhile_cons_of_pos (by decide), List.dropWhile_cons_of_neg (by simp [hdigit])]
      have hfraction : DecimalLiteral.readFraction (u :: ds) = (.empty, u :: ds) := by
        simp [DecimalLiteral.readFraction, hpoint]
      simp [DecimalLiteral.read, hdrop, hfraction, DecimalLiteral.readExponent, he, hE]
    constructor
    · rw [parseInt_eq (by rw [htrim]; exact List.cons_ne_nil _ _), hsign]
      dsimp only
      rw [hdigits, if_neg (List.cons_ne_nil _ _), if_neg Bool.false_ne_true]
      exact ofRat_natCast (n := 0) (by decide)
    · rintro ⟨-, l, hl, -⟩
      rw [hsign, hread] at hl
      cases hl
  · cases h

/-- **Where the two functions agree.**  A text that `Number` reads as a positive integer
is read the same by `parseInt` exactly when it is plain. -/
theorem parseInt_eq_iff (h : toNumber s = .finite v) (hv : 1 ≤ v) :
    parseInt s = .finite v ↔ Plain s := by
  have hpos : (0 : ℚ) < v := by exact_mod_cast hv
  unfold toNumber at h
  split_ifs at h with hempty
  · exact absurd (JsNumber.finite.inj h) hpos.ne
  cases hliteral : nonDecimal (trim s) with
  | some x =>
      obtain ⟨hzero, hplain⟩ := parseInt_of_nonDecimal (by rw [hliteral]; rfl)
      rw [hzero]
      exact iff_of_false (fun h => hpos.ne (JsNumber.finite.inj h)) hplain
  | none =>
      rw [hliteral] at h
      obtain ⟨hsign, l, hread, hl⟩ := exists_read_of_decimal h hv
      have hplain : Plain s ↔
          l.whole.1 ≠ [] ∧ l.exponent = 0 ∧ Negligible 53 l.whole.value l.fraction.fraction := by
        unfold Plain
        rw [hread, and_iff_right hsign]
        simp
      rw [hplain, parseInt_eq hempty, hsign, if_neg Bool.false_ne_true,
        ← DecimalLiteral.whole_of_read hread]
      split_ifs with hwhole
      · exact iff_of_false nofun fun h => h.1 hwhole
      · rw [ofRat_eq_finite_iff l.value_nonneg] at hl
        rw [ofRat_eq_finite_iff (Nat.cast_nonneg _), and_iff_left hl.2, and_iff_right hwhole]
        exact Rounding.nearest_eq_iff_scaled (by decide) (by decide) l.fraction.fraction_nonneg
          l.fraction.fraction_lt_one hl.1 hv

/-- Decimal digits are plain, however many. -/
theorem plain_of_digits (hs : s ≠ []) (hdigits : ∀ u ∈ s, isDigit u = true) : Plain s := by
  have hnot : ∀ u ∈ s, ¬isStrWhiteSpaceChar u = true := by
    intro u hu hspace
    have hdigit := hdigits u hu
    rw [isDigit_eq_false hspace] at hdigit
    cases hdigit
  have htrim : trim s = s := by
    have hstart : trimStart s = s := by
      cases s with
      | nil => rfl
      | cons u s => exact List.dropWhile_cons_of_neg (hnot u List.mem_cons_self)
    unfold trim
    rw [hstart, List.rdropWhile_eq_self_iff]
    exact fun _ => hnot _ (List.getLast_mem _)
  have hsign : readSign s = (false, s) := by
    cases s with
    | nil => rfl
    | cons u s =>
        have hdigit := hdigits u List.mem_cons_self
        have hplus : u ≠ 43 := by rintro rfl; cases hdigit
        have hminus : u ≠ 45 := by rintro rfl; cases hdigit
        simp [readSign, hplus, hminus]
  have hlead : leadingDigits s = ⟨s, hdigits⟩ :=
    Subtype.ext (List.takeWhile_eq_self_iff.2 hdigits)
  have hread : DecimalLiteral.read s = some ⟨⟨s, hdigits⟩, .empty, 0⟩ := by
    simp [DecimalLiteral.read, hlead, List.dropWhile_eq_nil_iff.2 hdigits,
      DecimalLiteral.readFraction, DecimalLiteral.readExponent, hs]
  have hnegligible : ∀ n, Negligible 53 n (Digits.fraction .empty) := by
    intro n
    have hzero : Digits.fraction .empty = 0 := zero_div _
    rw [hzero]
    unfold Negligible
    split_ifs
    · exact Or.inl (by norm_num)
    · exact Or.inl rfl
  unfold Plain
  rw [htrim, hsign, hread]
  exact ⟨rfl, _, rfl, hs, rfl, hnegligible _⟩

end Agreement

end JsNumber
end LedgerEngine
