/-
# The number with a bounded significand that is nearest to a rational

`Rounding` rounds integers.  A text may denote any rational, and a floating-point
number is then the multiple of the distance `gap` at its size that is nearest, a
tie going to the even significand (`nearest`).  The distance is at least `2^e`, so
numbers below the smallest size are multiples of that.

An integer is rounded as `Rounding` rounds it (`nearest_natCast`).  A fraction
behind an integer mostly rounds off: `nearest_add_eq_iff` says exactly when the
number is that of the integer alone.
-/

import LedgerEngine.Common.Rounding
import Mathlib.Algebra.Order.Field.Power
import Mathlib.Data.Int.Log
import Mathlib.Data.Nat.Log
import Mathlib.Data.Rat.Floor
import Mathlib.Tactic.FieldSimp
import Mathlib.Tactic.NormNum
import Mathlib.Tactic.Positivity

namespace LedgerEngine
namespace Rounding

/-- The nearest integer, a tie to the even one. -/
def halfEven (q : ℚ) : ℤ :=
  if q - ⌊q⌋ < 1 / 2 ∨ q - ⌊q⌋ = 1 / 2 ∧ Even ⌊q⌋ then ⌊q⌋ else ⌊q⌋ + 1

/-- The distance of the numbers with `p` bits that are as large as `x`, at least `2^e`. -/
def gap (p : ℕ) (e : ℤ) (x : ℚ) : ℚ := 2 ^ max (Int.log 2 x + 1 - p) e

/-- The number with `p` bits that is nearest to `x`, a tie to the even significand. -/
def nearest (p : ℕ) (e : ℤ) (x : ℚ) : ℚ := halfEven (x / gap p e x) * gap p e x

section HalfEven

variable {q t : ℚ} {z : ℤ}

/-- An integer and a fraction. -/
theorem halfEven_add (h₀ : 0 ≤ t) (h₁ : t < 1) :
    halfEven (z + t) = if t < 1 / 2 ∨ t = 1 / 2 ∧ Even z then z else z + 1 := by
  have hfloor : ⌊(z : ℚ) + t⌋ = z := by
    rw [Int.floor_intCast_add, Int.floor_eq_zero_iff.2 ⟨h₀, h₁⟩, add_zero]
  unfold halfEven
  rw [hfloor, add_sub_cancel_left]

theorem halfEven_intCast (z : ℤ) : halfEven z = z := by
  have h := halfEven_add (z := z) le_rfl zero_lt_one
  rw [add_zero] at h
  rw [h, if_pos (Or.inl (by norm_num))]

/-- **The integer is at most a half away.** -/
theorem abs_halfEven_sub_le (q : ℚ) : |(halfEven q : ℚ) - q| ≤ 1 / 2 := by
  have hle := Int.floor_le q
  have hlt := Int.lt_floor_add_one q
  unfold halfEven
  rw [abs_le]
  split_ifs with h
  · rcases h with h | ⟨h, -⟩ <;> constructor <;> linarith
  · rw [not_or] at h
    have hhalf : 1 / 2 ≤ q - ⌊q⌋ := not_lt.1 h.1
    push_cast
    constructor <;> linarith

end HalfEven

section Nearest

variable {p : ℕ} {e : ℤ} {x : ℚ}

theorem gap_pos (p : ℕ) (e : ℤ) (x : ℚ) : 0 < gap p e x := zpow_pos two_pos _

theorem nearest_nonneg (p : ℕ) (e : ℤ) (hx : 0 ≤ x) : 0 ≤ nearest p e x := by
  have hfloor : 0 ≤ ⌊x / gap p e x⌋ := Int.floor_nonneg.2 (div_nonneg hx (gap_pos p e x).le)
  have hround : 0 ≤ halfEven (x / gap p e x) := by
    unfold halfEven
    split_ifs <;> omega
  exact mul_nonneg (by exact_mod_cast hround) (gap_pos p e x).le

/-- **Rounding moves a number by half its distance at most.** -/
theorem abs_nearest_sub_le (p : ℕ) (e : ℤ) (x : ℚ) : |nearest p e x - x| ≤ gap p e x / 2 := by
  have hpos := gap_pos p e x
  have hscale : nearest p e x - x = (halfEven (x / gap p e x) - x / gap p e x) * gap p e x := by
    unfold nearest
    field_simp
  rw [hscale, abs_mul, abs_of_pos hpos]
  have h := mul_le_mul_of_nonneg_right (abs_halfEven_sub_le (x / gap p e x)) hpos.le
  linarith

/-- Numbers that have bits behind the point are less than half their size apart, or half
of one. -/
theorem gap_le (hp : 2 ≤ p) (he : e ≤ -1) (hx : 0 ≤ x) : gap p e x ≤ max x 1 / 2 := by
  have hone : (1 : ℚ) / 2 = 2 ^ (-1 : ℤ) := by norm_num
  unfold gap
  rcases le_total (Int.log 2 x + 1 - p) e with hsmall | hlarge
  · rw [max_eq_right hsmall]
    calc (2 : ℚ) ^ e ≤ 2 ^ (-1 : ℤ) := zpow_le_zpow_right₀ one_le_two he
      _ = 1 / 2 := hone.symm
      _ ≤ max x 1 / 2 := by linarith [le_max_right x 1]
  · rw [max_eq_left hlarge]
    have hexp : Int.log 2 x + 1 - p ≤ Int.log 2 x + -1 := by omega
    rcases hx.eq_or_lt with rfl | hpos
    · calc (2 : ℚ) ^ (Int.log 2 (0 : ℚ) + 1 - p) ≤ 2 ^ (Int.log 2 (0 : ℚ) + -1) :=
            zpow_le_zpow_right₀ one_le_two hexp
        _ = 1 / 2 := by rw [Int.log_zero_right, zero_add, hone]
        _ ≤ max 0 1 / 2 := by norm_num
    · have hlog : (2 : ℚ) ^ Int.log 2 x ≤ x := by
        exact_mod_cast Int.zpow_log_le_self (b := 2) one_lt_two hpos
      calc (2 : ℚ) ^ (Int.log 2 x + 1 - p) ≤ 2 ^ (Int.log 2 x + -1) :=
            zpow_le_zpow_right₀ one_le_two hexp
        _ = 2 ^ Int.log 2 x / 2 := by rw [zpow_add₀ two_ne_zero, ← hone]; ring
        _ ≤ max x 1 / 2 := by linarith [le_max_left x 1]

/-- The number is at most a quarter of its size away, or a quarter of one. -/
theorem abs_nearest_sub_le_quarter (hp : 2 ≤ p) (he : e ≤ -1) (hx : 0 ≤ x) :
    |nearest p e x - x| ≤ max x 1 / 4 := by
  have h := abs_nearest_sub_le p e x
  have hgap := gap_le hp he hx
  linarith

end Nearest

/-! ### An integer and a fraction -/

/-- The fraction behind the integer does not move it to another number with `p` bits. -/
def Negligible (p n : ℕ) (f : ℚ) : Prop :=
  if n < 2 ^ p then f < 1 / 2 ∨ f = 1 / 2 ∧ Even n
  else f = 0 ∨ 2 * (n % (2 * ulp p n)) ≠ ulp p n

instance (p n : ℕ) (f : ℚ) : Decidable (Negligible p n f) :=
  inferInstanceAs (Decidable (ite _ _ _))

section Fraction

variable {p n : ℕ} {e : ℤ} {f : ℚ}

/-- The fraction does not change the size. -/
theorem log_natCast_add (hn : n ≠ 0) (h₀ : 0 ≤ f) (h₁ : f < 1) :
    Int.log 2 ((n : ℚ) + f) = n.log2 := by
  have hfloor : ⌊(n : ℚ) + f⌋₊ = n := by
    rw [Nat.floor_eq_iff (by positivity)]
    constructor <;> linarith
  have hone : (1 : ℚ) ≤ n + f := by
    have : (1 : ℚ) ≤ n := by exact_mod_cast Nat.one_le_iff_ne_zero.2 hn
    linarith
  rw [Int.log_of_one_le_right 2 hone, hfloor, Nat.log2_eq_log_two]

/-- From `2^(p-1)` on the distance is that of the integers. -/
theorem gap_natCast_add (he : e ≤ 0) (h₀ : 0 ≤ f) (h₁ : f < 1) (hn : 2 ^ (p - 1) ≤ n) :
    gap p e (n + f) = ulp p n := by
  have hn₀ : n ≠ 0 := (Nat.two_pow_pos (p - 1)).trans_le hn |>.ne'
  have hlog : p - 1 ≤ n.log2 := (Nat.le_log2 hn₀).2 hn
  unfold gap ulp
  rw [log_natCast_add hn₀ h₀ h₁, max_eq_left (by omega)]
  rw [show (n.log2 : ℤ) + 1 - p = (n.log2 + 1 - p : ℕ) by omega, zpow_natCast]
  push_cast
  rfl

/-- **Rounding an integer and a fraction**, from `2^(p-1)` on. -/
theorem nearest_natCast_add (he : e ≤ 0) (h₀ : 0 ≤ f) (h₁ : f < 1) (hn : 2 ^ (p - 1) ≤ n) :
    nearest p e (n + f) =
      if 2 * ((n % ulp p n : ℕ) + f) < ulp p n ∨
        2 * ((n % ulp p n : ℕ) + f) = ulp p n ∧ n / ulp p n % 2 = 0
      then (n / ulp p n * ulp p n : ℕ) else ((n / ulp p n + 1) * ulp p n : ℕ) := by
  have hpos := ulp_pos p n
  have hlt := Nat.mod_lt n hpos
  have hdm := Nat.div_add_mod n (ulp p n)
  unfold nearest
  rw [gap_natCast_add he h₀ h₁ hn]
  generalize n / ulp p n = q at *
  generalize n % ulp p n = r at *
  generalize ulp p n = u at *
  have hu : (0 : ℚ) < u := by exact_mod_cast hpos
  have hr : (r : ℚ) + 1 ≤ u := by exact_mod_cast hlt
  have hdiv : ((n : ℚ) + f) / u = (q : ℤ) + (r + f) / u := by
    rw [← hdm]
    push_cast
    field_simp
    ring
  have hfraction : ((r : ℚ) + f) / u < 1 := by
    rw [div_lt_one hu]
    linarith
  have hhalf : ((r : ℚ) + f) / u < 1 / 2 ↔ 2 * (r + f) < u := by
    rw [div_lt_iff₀ hu]
    constructor <;> intro h <;> linarith
  have htie : ((r : ℚ) + f) / u = 1 / 2 ↔ 2 * (r + f) = u := by
    rw [div_eq_iff hu.ne']
    constructor <;> intro h <;> linarith
  rw [hdiv, halfEven_add (by positivity) hfraction]
  simp only [hhalf, htie, Int.even_coe_nat, Nat.even_iff]
  split_ifs <;> push_cast <;> rfl

/-- **An integer is rounded to the number with `p` bits** that is nearest. -/
theorem nearest_natCast (hp : 0 < p) (he : e ≤ 0) (n : ℕ) :
    nearest p e n = roundNat p n := by
  rcases Nat.lt_or_ge n (2 ^ p) with hlt | hge
  · -- the integer is a multiple of the distance
    have hlog : Int.log 2 (n : ℚ) + 1 - p ≤ 0 := by
      rw [Int.log_natCast, ← Nat.log2_eq_log_two]
      by_cases hn : n = 0
      · subst hn
        simp
        omega
      · have := (Nat.log2_lt hn).2 hlt
        omega
    obtain ⟨k, hk⟩ : ∃ k : ℕ, max (Int.log 2 (n : ℚ) + 1 - p) e = -(k : ℤ) :=
      ⟨(-max (Int.log 2 (n : ℚ) + 1 - p) e).toNat, by omega⟩
    have hgap : gap p e n = (2 ^ k)⁻¹ := by
      unfold gap
      rw [hk, zpow_neg, zpow_natCast]
    have hmultiple : (n : ℚ) / gap p e n = ((n * 2 ^ k : ℕ) : ℤ) := by
      rw [hgap, div_inv_eq_mul]
      push_cast
      rfl
    rw [roundNat_eq_iff.2 (fits_of_le hp hlt.le)]
    unfold nearest
    rw [hmultiple, halfEven_intCast, ← hmultiple, div_mul_cancel₀ _ (gap_pos p e n).ne']
  · have hpow : 2 ^ (p - 1) ≤ n := (Nat.pow_le_pow_right two_pos (Nat.sub_le p 1)).trans hge
    have h := nearest_natCast_add (f := 0) he le_rfl zero_lt_one hpow
    rw [add_zero] at h
    rw [h]
    unfold roundNat
    simp only [add_zero]
    norm_cast

/-- Below `2^(p-1)` the result is an integer only if it is near one. -/
theorem nearest_add_eq_iff_of_lt (hp : 2 ≤ p) (he : e ≤ -1) (h₀ : 0 ≤ f) (h₁ : f < 1)
    (hn : n < 2 ^ (p - 1)) {v : ℤ} (hv : nearest p e (n + f) = v) :
    nearest p e (n + f) = n ↔ f < 1 / 2 ∨ f = 1 / 2 ∧ Even n := by
  have hgap : gap p e (n + f) ≤ 1 / 2 := by
    by_cases hz : n = 0
    · subst hz
      rw [Nat.cast_zero, zero_add]
      have h := gap_le hp he h₀
      rwa [max_eq_right h₁.le] at h
    · have hlog : n.log2 < p - 1 := (Nat.log2_lt hz).2 hn
      calc gap p e (n + f) = 2 ^ max ((n.log2 : ℤ) + 1 - p) e := by
            rw [gap, log_natCast_add hz h₀ h₁]
        _ ≤ 2 ^ (-1 : ℤ) := zpow_le_zpow_right₀ one_le_two (by omega)
        _ = 1 / 2 := by norm_num
  have hnear := abs_nearest_sub_le p e ((n : ℚ) + f)
  rw [hv] at hnear ⊢
  obtain ⟨hlo, hhi⟩ := abs_le.1 hnear
  constructor
  · intro h
    rw [h] at hlo
    exact Or.inl (by linarith)
  · intro h
    have hle : f ≤ 1 / 2 := h.elim le_of_lt fun h => h.1.le
    have hbelow : (n : ℤ) - 1 < v := by
      have : (((n : ℤ) - 1 : ℤ) : ℚ) < v := by
        push_cast
        linarith
      exact_mod_cast this
    have habove : v < (n : ℤ) + 1 := by
      have : (v : ℚ) < ((n : ℤ) + 1 : ℤ) := by
        push_cast
        linarith
      exact_mod_cast this
    have : v = n := by omega
    rw [this, Int.cast_natCast]

/-- From there to `2^p` the numbers are the integers. -/
theorem nearest_add_eq_iff_of_le (hp : 0 < p) (he : e ≤ 0) (h₀ : 0 ≤ f) (h₁ : f < 1)
    (hn : 2 ^ (p - 1) ≤ n) (hlt : n < 2 ^ p) :
    nearest p e (n + f) = n ↔ f < 1 / 2 ∨ f = 1 / 2 ∧ Even n := by
  rw [nearest_natCast_add he h₀ h₁ hn, ulp_of_lt hp hlt, Nat.mod_one, Nat.div_one, Nat.even_iff]
  have hhalf : 2 * (((0 : ℕ) : ℚ) + f) < ((1 : ℕ) : ℚ) ↔ f < 1 / 2 := by
    push_cast
    constructor <;> intro h <;> linarith
  have htie : 2 * (((0 : ℕ) : ℚ) + f) = ((1 : ℕ) : ℚ) ↔ f = 1 / 2 := by
    push_cast
    constructor <;> intro h <;> linarith
  rw [← hhalf, ← htie]
  split_ifs with h
  · exact iff_of_true (by push_cast; ring) h
  · refine iff_of_false (fun heq => ?_) h
    push_cast at heq
    linarith

section Half

variable {r w : ℕ}

/-- A remainder and a fraction below half an even distance. -/
theorem lt_half_iff (h₀ : 0 ≤ f) (h₁ : f < 1) :
    2 * ((r : ℚ) + f) < (2 * w : ℕ) ↔ 2 * r < 2 * w := by
  constructor
  · intro h
    have : (r : ℚ) < w := by
      push_cast at h
      linarith
    have : r < w := by exact_mod_cast this
    omega
  · intro h
    have : (r : ℚ) + 1 ≤ w := by exact_mod_cast (show r + 1 ≤ w by omega)
    push_cast
    linarith

/-- Half an even distance is an integer, so a tie is one without the fraction. -/
theorem eq_half_iff (h₀ : 0 ≤ f) (h₁ : f < 1) :
    2 * ((r : ℚ) + f) = (2 * w : ℕ) ↔ 2 * r = 2 * w ∧ f = 0 := by
  constructor
  · intro h
    push_cast at h
    have hlow : (r : ℚ) ≤ w := by linarith
    have hhigh : (w : ℚ) < r + 1 := by linarith
    have hle : r ≤ w := by exact_mod_cast hlow
    have hlt : w < r + 1 := by exact_mod_cast hhigh
    obtain rfl : r = w := by omega
    exact ⟨rfl, by linarith⟩
  · rintro ⟨h, rfl⟩
    have : (r : ℚ) = w := by exact_mod_cast (show r = w by omega)
    push_cast
    linarith

end Half

/-- From `2^p` on an integer that is a tie may be pushed over it. -/
theorem nearest_add_eq_iff_of_ge (hp : 0 < p) (he : e ≤ 0) (h₀ : 0 ≤ f) (h₁ : f < 1)
    (hn : 2 ^ p ≤ n) :
    nearest p e (n + f) = nearest p e n ↔ f = 0 ∨ 2 * (n % (2 * ulp p n)) ≠ ulp p n := by
  have hpow : 2 ^ (p - 1) ≤ n := (Nat.pow_le_pow_right two_pos (Nat.sub_le p 1)).trans hn
  have hn₀ : n ≠ 0 := ((Nat.two_pow_pos p).trans_le hn).ne'
  have hlog : p ≤ n.log2 := (Nat.le_log2 hn₀).2 hn
  obtain ⟨w, hw⟩ : ∃ w, ulp p n = 2 * w := by
    refine ⟨2 ^ (n.log2 - p), ?_⟩
    rw [ulp, ← pow_succ']
    congr 1
    omega
  have hpos := ulp_pos p n
  have hlt := Nat.mod_lt n hpos
  have hmod : n % (2 * ulp p n) = n % ulp p n + ulp p n * (n / ulp p n % 2) := by
    rw [mul_comm 2, Nat.mod_mul]
  rw [nearest_natCast_add he h₀ h₁ hpow, nearest_natCast hp he, roundNat, hmod]
  generalize n / ulp p n = q at *
  generalize n % ulp p n = r at *
  generalize ulp p n = u at *
  subst hw
  simp only [lt_half_iff h₀ h₁, eq_half_iff h₀ h₁]
  by_cases hf : f = 0
  · simp [hf]
  · have hdown : (2 * r < 2 * w ∨ (2 * r = 2 * w ∧ f = 0) ∧ q % 2 = 0) ↔ 2 * r < 2 * w :=
      ⟨fun h => h.elim id fun h => absurd h.1.2 hf, Or.inl⟩
    simp only [hdown]
    by_cases heven : 2 * r = 2 * w ∧ q % 2 = 0
    · refine iff_of_false (fun h => ?_) ?_
      · rw [if_neg heven.1.not_lt, if_pos (Or.inr heven)] at h
        have : (q + 1) * (2 * w) = q * (2 * w) := by exact_mod_cast h
        rw [add_mul] at this
        omega
      · rw [heven.2, mul_zero, add_zero]
        exact fun h => h.elim hf fun h => h heven.1
    · refine iff_of_true ?_ (Or.inr fun h => ?_)
      · by_cases hlow : 2 * r < 2 * w
        · rw [if_pos hlow, if_pos (Or.inl hlow)]
        · rw [if_neg hlow, if_neg (not_or.2 ⟨hlow, heven⟩)]
      · rcases Nat.mod_two_eq_zero_or_one q with hq | hq
        · rw [hq, mul_zero, add_zero] at h
          exact heven ⟨h, hq⟩
        · rw [hq, mul_one] at h
          omega

/-- **A fraction rounds off exactly when it is negligible**, where the result is an
integer. -/
theorem nearest_add_eq_iff (hp : 2 ≤ p) (he : e ≤ -1) (h₀ : 0 ≤ f) (h₁ : f < 1) {v : ℤ}
    (hv : nearest p e (n + f) = v) :
    nearest p e (n + f) = nearest p e n ↔ Negligible p n f := by
  unfold Negligible
  split_ifs with hlt
  · have hself : nearest p e n = n := by
      rw [nearest_natCast (by omega) (by omega), roundNat_eq_iff.2 (fits_of_le (by omega) hlt.le)]
    rw [hself]
    rcases Nat.lt_or_ge n (2 ^ (p - 1)) with hsmall | hlarge
    · exact nearest_add_eq_iff_of_lt hp he h₀ h₁ hsmall hv
    · exact nearest_add_eq_iff_of_le (by omega) (by omega) h₀ h₁ hlarge hlt
  · exact nearest_add_eq_iff_of_ge (by omega) (by omega) h₀ h₁ (Nat.not_lt.1 hlt)

/-! ### A power of ten -/

/-- **Scaling by a power of ten** gives another number, unless it is by `10^0`. -/
theorem nearest_eq_iff_scaled (hp : 2 ≤ p) (he : e ≤ -1) (h₀ : 0 ≤ f) (h₁ : f < 1) {k v : ℤ}
    (hv : nearest p e ((n + f) * 10 ^ k) = v) (hone : 1 ≤ v) :
    nearest p e n = v ↔ k = 0 ∧ Negligible p n f := by
  by_cases hk : k = 0
  · subst hk
    rw [zpow_zero, mul_one] at hv
    rw [and_iff_right rfl, ← nearest_add_eq_iff hp he h₀ h₁ hv, hv]
    exact eq_comm
  · refine iff_of_false (fun heq => ?_) fun h => hk h.1
    have hn : (0 : ℚ) ≤ n := Nat.cast_nonneg n
    have hone' : (1 : ℚ) ≤ v := by exact_mod_cast hone
    have hpow : (0 : ℚ) < 10 ^ k := zpow_pos (by norm_num) k
    have hself := abs_le.1 (abs_nearest_sub_le_quarter hp he hn)
    have hscaled := abs_le.1 (abs_nearest_sub_le_quarter hp he
      (mul_nonneg (add_nonneg hn h₀) hpow.le))
    rw [heq] at hself
    rw [hv] at hscaled
    have hn₁ : (1 : ℚ) ≤ n := by
      by_contra hlt
      rw [max_eq_right (not_le.1 hlt).le] at hself
      have hzero : n = 0 := by
        have : (n : ℚ) < 1 := not_le.1 hlt
        have : n < 1 := by exact_mod_cast this
        omega
      rw [hzero, Nat.cast_zero] at hself
      linarith [hself.2]
    rw [max_eq_left hn₁] at hself
    -- the result is about as large as the integer, but it is scaled by ten at least
    rcases lt_or_gt_of_ne hk with hneg | hpos
    · have hten : (10 : ℚ) ^ k ≤ 1 / 10 := by
        calc (10 : ℚ) ^ k ≤ 10 ^ (-1 : ℤ) := zpow_le_zpow_right₀ (by norm_num) (by omega)
          _ = 1 / 10 := by norm_num
      have hsmall : ((n : ℚ) + f) * 10 ^ k ≤ (n + f) * (1 / 10) :=
        mul_le_mul_of_nonneg_left hten (add_nonneg hn h₀)
      rcases max_cases (((n : ℚ) + f) * 10 ^ k) 1 with ⟨hmax, -⟩ | ⟨hmax, -⟩
      · rw [hmax] at hscaled
        linarith [hscaled.2, hself.1]
      · rw [hmax] at hscaled
        linarith [hscaled.2, hself.1]
    · have hten : (10 : ℚ) ≤ 10 ^ k := by
        calc (10 : ℚ) = 10 ^ (1 : ℤ) := (zpow_one _).symm
          _ ≤ 10 ^ k := zpow_le_zpow_right₀ (by norm_num) (by omega)
      have hlarge : ((n : ℚ) + f) * 10 ≤ (n + f) * 10 ^ k :=
        mul_le_mul_of_nonneg_left hten (add_nonneg hn h₀)
      rw [max_eq_left (by linarith)] at hscaled
      linarith [hscaled.1, hself.2]

end Fraction

end Rounding
end LedgerEngine
