/-
# Integers with a bounded significand

A binary floating-point number with `p` bits of significand that is an integer
is `± m · 2^k` with `m < 2^p` (`Fits`).  `roundNat p n` is the nearest of them
to `n`, a tie going to the even significand: with `2^k` the distance of the
numbers of `n`'s size (`ulp`), it rounds `n / 2^k`.

That is what rounding is to do: the result fits (`fits_roundNat`), no number
that fits is nearer (`roundNat_nearest`), and exactly the numbers that fit are
kept (`roundNat_eq_iff`), so everything up to `2^p` is (`fits_of_le`).  `round`
is the same on integers with their sign.
-/

import Mathlib.Algebra.Order.Ring.Int
import Mathlib.Tactic.Linarith
import Mathlib.Tactic.Ring

namespace LedgerEngine
namespace Rounding

/-- `n` has a significand of `p` bits. -/
def Fits (p n : ℕ) : Prop := ∃ m k, m < 2 ^ p ∧ n = m * 2 ^ k

/-- The distance of the numbers with `p` bits that are as large as `n`. -/
def ulp (p n : ℕ) : ℕ := 2 ^ (n.log2 + 1 - p)

/-- The nearest number with `p` bits, a tie to the even significand. -/
def roundNat (p n : ℕ) : ℕ :=
  let q := n / ulp p n
  let r := n % ulp p n
  if 2 * r < ulp p n ∨ 2 * r = ulp p n ∧ q % 2 = 0 then q * ulp p n else (q + 1) * ulp p n

variable {p n : ℕ}

theorem ulp_pos (p n : ℕ) : 0 < ulp p n := Nat.two_pow_pos _

/-- A number's significand at its own distance has `p` bits. -/
theorem div_ulp_lt (p n : ℕ) : n / ulp p n < 2 ^ p := by
  have hsize : n < 2 ^ (n.log2 + 1) := Nat.lt_log2_self
  have hexp : 2 ^ (n.log2 + 1) ≤ 2 ^ p * ulp p n := by
    rw [ulp, ← pow_add]
    exact Nat.pow_le_pow_right (by omega) (by omega)
  rw [Nat.div_lt_iff_lt_mul (ulp_pos p n)]
  omega

/-- A large number's significand has no fewer. -/
theorem le_div_ulp (hp₀ : 0 < p) (h : 2 ^ p ≤ n) : 2 ^ p ≤ 2 * (n / ulp p n) := by
  have hn : n ≠ 0 := by
    have := Nat.two_pow_pos p
    omega
  have hp : p ≤ n.log2 := (Nat.le_log2 hn).2 h
  have hself : 2 ^ n.log2 ≤ n := Nat.log2_self_le hn
  have hhalf : 2 ^ p * ulp p n = 2 * 2 ^ n.log2 := by
    rw [ulp, ← pow_add, ← pow_succ']
    congr 1
    omega
  have hdiv : 2 ^ n.log2 / ulp p n ≤ n / ulp p n := Nat.div_le_div_right hself
  have heq : 2 * (2 ^ n.log2 / ulp p n) = 2 ^ p := by
    have hdvd : ulp p n ∣ 2 ^ n.log2 := pow_dvd_pow 2 (by omega)
    obtain ⟨c, hc⟩ := hdvd
    rw [hc, Nat.mul_div_cancel_left c (ulp_pos p n)]
    have : ulp p n * (2 * c) = ulp p n * 2 ^ p := by
      rw [mul_comm _ (2 ^ p), hhalf, hc]
      ring
    exact Nat.eq_of_mul_eq_mul_left (ulp_pos p n) this
  omega

/-- The numbers that fit are the multiples of their distance. -/
theorem fits_iff_dvd : Fits p n ↔ ulp p n ∣ n := by
  constructor
  · rintro ⟨m, k, hm, rfl⟩
    by_cases hz : m * 2 ^ k = 0
    · rw [hz]
      exact dvd_zero _
    have hlt : m * 2 ^ k < 2 ^ (p + k) := by
      rw [pow_add]
      exact Nat.mul_lt_mul_of_pos_right hm (Nat.two_pow_pos k)
    have hlog : (m * 2 ^ k).log2 < p + k := (Nat.log2_lt hz).2 hlt
    exact Dvd.dvd.mul_left (pow_dvd_pow 2 (by omega)) m
  · rintro ⟨c, hc⟩
    have hdiv : n / ulp p n = c := Nat.div_eq_of_eq_mul_right (ulp_pos p n) hc
    refine ⟨c, n.log2 + 1 - p, ?_, by rw [mul_comm]; exact hc⟩
    rw [← hdiv]
    exact div_ulp_lt p n

/-- Everything up to `2^p` fits. -/
theorem fits_of_le (hp : 0 < p) (h : n ≤ 2 ^ p) : Fits p n := by
  rcases Nat.lt_or_ge n (2 ^ p) with hlt | hge
  · exact ⟨n, 0, hlt, by ring⟩
  · refine ⟨1, p, ?_, by omega⟩
    exact Nat.one_lt_two_pow hp.ne'

/-- **Rounding keeps exactly the numbers that fit.** -/
theorem roundNat_eq_iff : roundNat p n = n ↔ Fits p n := by
  rw [fits_iff_dvd, Nat.dvd_iff_mod_eq_zero]
  have hdm := Nat.div_add_mod n (ulp p n)
  have hlt := Nat.mod_lt n (ulp_pos p n)
  have hpos := ulp_pos p n
  rw [mul_comm] at hdm
  unfold roundNat
  dsimp only
  constructor
  · intro h
    split_ifs at h
    · omega
    · rw [add_mul, one_mul] at h
      omega
  · intro h
    rw [h, if_pos (Or.inl (by omega))]
    omega

/-- **The result of rounding fits.** -/
theorem fits_roundNat (hp : 0 < p) (n : ℕ) : Fits p (roundNat p n) := by
  have hq := div_ulp_lt p n
  unfold roundNat
  dsimp only
  split_ifs
  · exact ⟨_, _, hq, rfl⟩
  · rcases Nat.lt_or_ge (n / ulp p n + 1) (2 ^ p) with hlt | hge
    · exact ⟨_, _, hlt, rfl⟩
    · -- a carry into the next power of two
      refine ⟨1, p + (n.log2 + 1 - p), Nat.one_lt_two_pow hp.ne', ?_⟩
      have : n / ulp p n + 1 = 2 ^ p := by omega
      rw [this, pow_add, one_mul, ulp]

/-- Numbers below `2^p` are one apart. -/
theorem ulp_of_lt (hp : 0 < p) (h : n < 2 ^ p) : ulp p n = 1 := by
  have hexp : n.log2 + 1 - p = 0 := by
    by_cases hz : n = 0
    · subst hz
      simp
      omega
    · have := (Nat.log2_lt hz).2 h
      omega
  rw [ulp, hexp, pow_zero]

/-- Between two neighbours nothing fits. -/
theorem succ_mul_ulp_le {w : ℕ} (hp : 0 < p) (hw : Fits p w)
    (hlo : n / ulp p n * ulp p n < w) : (n / ulp p n + 1) * ulp p n ≤ w := by
  have hdvd : ulp p n ∣ w := by
    rcases Nat.lt_or_ge n (2 ^ p) with hlt | hge
    · rw [ulp_of_lt hp hlt]
      exact one_dvd w
    · -- `w` is at least as large as the power of two below `n`
      have hw₀ : w ≠ 0 := by omega
      have hn : n ≠ 0 := by
        have := Nat.two_pow_pos p
        omega
      have hpn : p ≤ n.log2 := (Nat.le_log2 hn).2 hge
      have hpow : 2 ^ n.log2 ≤ w := by
        have hlarge := Nat.mul_le_mul_right (ulp p n) (le_div_ulp hp hge)
        have hself : 2 ^ p * ulp p n = 2 * 2 ^ n.log2 := by
          rw [ulp, ← pow_add, ← pow_succ']
          congr 1
          omega
        rw [hself, mul_assoc] at hlarge
        omega
      have hlog : n.log2 ≤ w.log2 := (Nat.le_log2 hw₀).2 hpow
      exact (pow_dvd_pow 2 (by omega)).trans (fits_iff_dvd.1 hw)
  obtain ⟨c, rfl⟩ := hdvd
  rw [mul_comm (ulp p n) c] at hlo ⊢
  have hlt : n / ulp p n < c := Nat.lt_of_mul_lt_mul_right hlo
  exact Nat.mul_le_mul_right _ hlt

/-- **No number that fits is nearer** than the one `roundNat` gives. -/
theorem roundNat_nearest {w : ℕ} (hp : 0 < p) (hw : Fits p w) (n : ℕ) :
    |(n : ℤ) - roundNat p n| ≤ |(n : ℤ) - w| := by
  have hdm := Nat.div_add_mod n (ulp p n)
  have hlt := Nat.mod_lt n (ulp_pos p n)
  rw [mul_comm] at hdm
  -- `w` is at most the neighbour below or at least the one above
  have hside : w ≤ n / ulp p n * ulp p n ∨ n / ulp p n * ulp p n + ulp p n ≤ w := by
    rcases Nat.lt_or_ge (n / ulp p n * ulp p n) w with hlo | hlo
    · have := succ_mul_ulp_le hp hw hlo
      rw [add_mul, one_mul] at this
      exact Or.inr this
    · exact Or.inl hlo
  unfold roundNat
  dsimp only
  rw [add_mul, one_mul]
  generalize n / ulp p n * ulp p n = below at *
  rw [abs_le]
  rcases abs_cases ((n : ℤ) - w) with ⟨habs, hsgn⟩ | ⟨habs, hsgn⟩ <;> rw [habs] <;> split_ifs <;>
    constructor <;> omega

/-- A number that is too large is not rounded to one that is not. -/
theorem le_roundNat (hp : 0 < p) (h : 2 ^ p ≤ n) : 2 ^ p ≤ roundNat p n := by
  have hfits : Fits p (2 ^ p) := ⟨1, p, Nat.one_lt_two_pow (by omega), (one_mul _).symm⟩
  have hnearest := roundNat_nearest hp hfits n
  have hle : ((2 ^ p : ℕ) : ℤ) ≤ n := by exact_mod_cast h
  rw [abs_of_nonneg (by omega : (0 : ℤ) ≤ n - (2 ^ p : ℕ))] at hnearest
  have := (abs_le.1 hnearest).2
  omega

/-! ### With a sign -/

/-- `z` has a significand of `p` bits. -/
def FitsInt (p : ℕ) (z : ℤ) : Prop := Fits p z.natAbs

/-- The nearest integer with `p` bits, its sign kept. -/
def round (p : ℕ) (z : ℤ) : ℤ := z.sign * roundNat p z.natAbs

/-- **Rounding keeps exactly the integers that fit.** -/
theorem round_eq_iff {z : ℤ} : round p z = z ↔ FitsInt p z := by
  have hsign : z = z.sign * z.natAbs := (Int.sign_mul_natAbs z).symm
  unfold FitsInt round
  rw [← roundNat_eq_iff]
  constructor
  · intro h
    have habs := congrArg Int.natAbs h
    rw [Int.natAbs_mul, Int.natAbs_natCast] at habs
    by_cases hz : z = 0
    · subst hz
      rw [roundNat_eq_iff]
      exact ⟨0, 0, Nat.two_pow_pos p, rfl⟩
    · rwa [Int.natAbs_sign_of_ne_zero hz, one_mul] at habs
  · intro h
    rw [h]
    exact hsign.symm

/-- **The result of rounding fits.** -/
theorem fitsInt_round (hp : 0 < p) (z : ℤ) : FitsInt p (round p z) := by
  unfold FitsInt round
  rw [Int.natAbs_mul, Int.natAbs_natCast]
  by_cases hz : z = 0
  · subst hz
    exact ⟨0, 0, Nat.two_pow_pos p, by simp⟩
  · rw [Int.natAbs_sign_of_ne_zero hz, one_mul]
    exact fits_roundNat hp _

/-- Rounding keeps the sign. -/
theorem round_nonneg {z : ℤ} (h : 0 ≤ z) : 0 ≤ round p z :=
  mul_nonneg (Int.sign_nonneg_iff.2 h) (Int.natCast_nonneg _)

theorem le_round (hp : 0 < p) {z : ℤ} (h : 2 ^ p ≤ z) : 2 ^ p ≤ round p z := by
  have hpos : 0 < z := lt_of_lt_of_le (by positivity) h
  obtain ⟨n, rfl⟩ := Int.eq_ofNat_of_zero_le hpos.le
  have hn : 2 ^ p ≤ n := by exact_mod_cast h
  have hsign : (n : ℤ).sign = 1 := Int.sign_eq_one_of_pos hpos
  rw [round, hsign, one_mul, Int.natAbs_natCast]
  exact_mod_cast le_roundNat hp hn

theorem fitsInt_of_le (hp : 0 < p) {z : ℤ} (h : |z| ≤ 2 ^ p) : FitsInt p z := by
  refine fits_of_le hp ?_
  have : ((z.natAbs : ℕ) : ℤ) ≤ 2 ^ p := by rwa [Int.natCast_natAbs]
  exact_mod_cast this

end Rounding
end LedgerEngine
