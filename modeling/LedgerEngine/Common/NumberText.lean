/-
# The text of a number

`Number::toString`, which `JSON.stringify` writes a number with, for numbers that are
integers.  The digits written are the fewest that read back as the number
(`shortest`), the rest is zeros, and from 22 digits on the text has an exponent.

So the text is not that of the exact integer beyond `2^53`, but reading it and
rounding gives the number again (`round_shortest`): different numbers have
different texts (`toString_injective`).
-/

import LedgerEngine.Common.JsString
import LedgerEngine.Common.Rounding
import Mathlib.Data.List.TakeWhile
import Mathlib.Data.Nat.Digits.Defs

namespace LedgerEngine
namespace NumberText

open Rounding (Fits FitsInt fits_of_le le_roundNat roundNat roundNat_eq_iff)

/-! ### Digits -/

/-- The decimal digits, the most significant first. -/
def digits (n : ℕ) : List ℕ := (Nat.digits 10 n).reverse

def digitUnit (d : ℕ) : UInt16 := (48 + d).toUInt16

def text (ds : List ℕ) : JsString := ds.map digitUnit

theorem toNat_digitUnit {d : ℕ} (h : d < 10) : (digitUnit d).toNat = 48 + d := by
  rw [digitUnit, Nat.toUInt16_eq, UInt16.toNat_ofNat']
  omega

theorem text_injective {ds ds' : List ℕ} (h : ∀ d ∈ ds, d < 10) (h' : ∀ d ∈ ds', d < 10)
    (he : text ds = text ds') : ds = ds' := by
  have hread : ∀ l : List ℕ, (∀ d ∈ l, d < 10) → (text l).map (fun u => u.toNat - 48) = l := by
    intro l hl
    rw [text, List.map_map]
    refine (List.map_congr_left fun d hd => ?_).trans (List.map_id l)
    rw [Function.comp_apply, toNat_digitUnit (hl d hd)]
    exact Nat.add_sub_cancel_left 48 d
  rw [← hread ds h, ← hread ds' h', he]

theorem digits_lt {n d : ℕ} (h : d ∈ digits n) : d < 10 :=
  Nat.digits_lt_base (by decide) (List.mem_reverse.1 h)

theorem digits_injective {n m : ℕ} (h : digits n = digits m) : n = m :=
  Nat.digits_inj_iff.1 (List.reverse_injective h)

/-- The digits without the zeros at the end. -/
def significant (n : ℕ) : List ℕ := ((Nat.digits 10 n).dropWhile fun d => d = 0).reverse

theorem significant_lt {n d : ℕ} (h : d ∈ significant n) : d < 10 :=
  Nat.digits_lt_base (by decide)
    ((List.dropWhile_sublist _).subset (List.mem_reverse.1 h))

/-- The significant digits and the number of all digits say which number it is. -/
theorem eq_of_significant {n m : ℕ} (hs : significant n = significant m)
    (hl : (digits n).length = (digits m).length) : n = m := by
  have hzeros : ∀ n, (Nat.digits 10 n).takeWhile (fun d => d = 0) =
      List.replicate ((digits n).length - (significant n).length) 0 := by
    intro n
    refine List.eq_replicate_iff.2 ⟨?_, fun d hd => by simpa using List.mem_takeWhile_imp hd⟩
    have hsplit := congrArg List.length
      (List.takeWhile_append_dropWhile (p := fun d : ℕ => decide (d = 0)) (l := Nat.digits 10 n))
    rw [List.length_append] at hsplit
    rw [digits, significant, List.length_reverse, List.length_reverse]
    omega
  refine Nat.digits_inj_iff (b := 10).1 ?_
  rw [← List.takeWhile_append_dropWhile (p := fun d : ℕ => decide (d = 0)) (l := Nat.digits 10 n),
    ← List.takeWhile_append_dropWhile (p := fun d : ℕ => decide (d = 0)) (l := Nat.digits 10 m),
    hzeros, hzeros, hl, hs, List.reverse_injective hs]

/-! ### The digits written -/

/-- Of the multiples of `10^e` around `x`, the nearer one if it reads back as `x`, or
the other one if that does; where they are as near, first the one with an even
significand. -/
def candidate (x e : ℕ) : Option ℕ :=
  let s := x / 10 ^ e
  let below := s * 10 ^ e
  let above := (s + 1) * 10 ^ e
  let both := if 2 * (x - below) < 10 ^ e ∨ 2 * (x - below) = 10 ^ e ∧ s % 2 = 0
    then [below, above] else [above, below]
  both.find? fun c => roundNat 53 c = x

/-- The number with the fewest significant digits that reads back as `x`. -/
def shortest (x : ℕ) : ℕ :=
  ((List.range (digits x).length).reverse.findSome? (candidate x)).getD x

theorem shortest_eq_or (x : ℕ) : shortest x = x ∨ roundNat 53 (shortest x) = x := by
  unfold shortest
  cases hfound : (List.range (digits x).length).reverse.findSome? (candidate x) with
  | none => exact Or.inl rfl
  | some c =>
      obtain ⟨e, -, hc⟩ := List.exists_of_findSome?_eq_some hfound
      have hread := List.find?_some hc
      exact Or.inr (of_decide_eq_true hread)

/-- **The digits read back as the number.** -/
theorem round_shortest {x : ℕ} (h : Fits 53 x) : roundNat 53 (shortest x) = x := by
  rcases shortest_eq_or x with heq | hround
  · rw [heq]
    exact roundNat_eq_iff.2 h
  · exact hround

/-- The digits are those of the number where these are no more than `2^53`. -/
theorem shortest_of_lt {x : ℕ} (h : x < 2 ^ 53) : shortest x = x := by
  have hx : roundNat 53 (shortest x) = x := round_shortest (fits_of_le (by decide) h.le)
  have hlt : shortest x < 2 ^ 53 := by
    by_contra hge
    have := le_roundNat (by decide : 0 < 53) (not_lt.1 hge)
    omega
  rwa [roundNat_eq_iff.2 (fits_of_le (by decide) hlt.le)] at hx

/-- And those of a larger number are a larger one. -/
theorem le_shortest {x : ℕ} (h : 2 ^ 53 ≤ x) : 2 ^ 53 ≤ shortest x := by
  rcases shortest_eq_or x with heq | hround
  · rwa [heq]
  · by_contra hlt
    rw [roundNat_eq_iff.2 (fits_of_le (by decide) (not_le.1 hlt).le)] at hround
    omega

/-! ### The text -/

/-- The significant digits, a point after the first. -/
def mantissa : List ℕ → JsString
  | d :: rest@(_ :: _) => digitUnit d :: 46 :: text rest
  | ds => text ds

/-- All digits, or from 22 on the significant ones with an exponent. -/
def write (n : ℕ) : JsString :=
  if (digits n).length ≤ 21 then text (digits n)
  else mantissa (significant n) ++ 101 :: 43 :: text (digits ((digits n).length - 1))

/-- `Number::toString` of a number that is the integer `n`. -/
def toString (n : ℤ) : JsString :=
  if n = 0 then [48]
  else if n < 0 then 45 :: write (shortest n.natAbs)
  else write (shortest n.natAbs)

/-- The integer the text says. -/
def written (n : ℤ) : ℤ := n.sign * shortest n.natAbs

/-- A text without an exponent says it digit by digit. -/
theorem toString_eq_digits {n : ℤ} (hn : 0 < n)
    (h : (digits (shortest n.natAbs)).length ≤ 21) :
    toString n = text (digits (written n).natAbs) := by
  rw [toString, if_neg hn.ne', if_neg hn.not_gt, write, if_pos h, written,
    Int.sign_eq_one_of_pos hn, one_mul, Int.natAbs_natCast]

example : toString 5000 = js "5000" := by decide +kernel
example : toString (2 ^ 53 + 2) = js "9007199254740994" := by decide +kernel
example : toString (2 ^ 66) = js "73786976294838210000" := by decide +kernel
example : toString (-2 ^ 70) = js "-1.1805916207174113e+21" := by decide +kernel

/-- There is no sign before the text of a number that is not negative. -/
theorem written_nonneg {n : ℤ} (h : 0 ≤ n) : 0 ≤ written n :=
  mul_nonneg (Int.sign_nonneg_iff.2 h) (Int.natCast_nonneg _)

/-- **The text reads back as the number.** -/
theorem round_written {n : ℤ} (h : FitsInt 53 n) : Rounding.round 53 (written n) = n := by
  by_cases hn : n = 0
  · subst hn
    rfl
  have hread : roundNat 53 (shortest n.natAbs) = n.natAbs := round_shortest h
  have hpos : 0 < shortest n.natAbs := by
    by_contra hzero
    have hzero : shortest n.natAbs = 0 := by omega
    rw [hzero, roundNat_eq_iff.2 (fits_of_le (by decide) (by decide))] at hread
    omega
  have hsign : (written n).sign = n.sign := by
    rw [written, Int.sign_mul, Int.sign_sign, Int.sign_natCast_of_ne_zero hpos.ne', mul_one]
  have habs : (written n).natAbs = shortest n.natAbs := by
    rw [written, Int.natAbs_mul, Int.natAbs_sign_of_ne_zero hn, one_mul, Int.natAbs_natCast]
  rw [Rounding.round, hsign, habs, hread]
  exact Int.sign_mul_natAbs n

/-- **Below `2^53` the text says the number itself.** -/
theorem written_of_lt {n : ℤ} (h : |n| < 2 ^ 53) : written n = n := by
  have habs : n.natAbs < 2 ^ 53 := by
    have : ((n.natAbs : ℕ) : ℤ) < 2 ^ 53 := by rwa [Int.natCast_natAbs]
    exact_mod_cast this
  rw [written, shortest_of_lt habs]
  exact Int.sign_mul_natAbs n

/-- From there on it says no less. -/
theorem le_written {n : ℤ} (h : 2 ^ 53 ≤ n) : 2 ^ 53 ≤ written n := by
  have hpos : 0 < n := lt_of_lt_of_le (by decide) h
  obtain ⟨x, rfl⟩ := Int.eq_ofNat_of_zero_le hpos.le
  have hx : 2 ^ 53 ≤ x := by exact_mod_cast h
  rw [written, Int.sign_eq_one_of_pos hpos, one_mul, Int.natAbs_natCast]
  exact_mod_cast le_shortest hx

/-- A unit of the text of a number. -/
def IsNumberUnit (u : UInt16) : Prop := 48 ≤ u ∧ u ≤ 57 ∨ u = 43 ∨ u = 45 ∨ u = 46 ∨ u = 101

theorem digitUnit_range {d : ℕ} (h : d < 10) : 48 ≤ digitUnit d ∧ digitUnit d ≤ 57 := by
  rw [UInt16.le_iff_toNat_le, UInt16.le_iff_toNat_le, toNat_digitUnit h]
  exact ⟨Nat.le_add_right 48 d, show 48 + d ≤ 57 by omega⟩

theorem text_range {ds : List ℕ} (h : ∀ d ∈ ds, d < 10) {u : UInt16} (hu : u ∈ text ds) :
    48 ≤ u ∧ u ≤ 57 := by
  obtain ⟨d, hd, rfl⟩ := List.mem_map.1 hu
  exact digitUnit_range (h d hd)

theorem mantissa_range {ds : List ℕ} (h : ∀ d ∈ ds, d < 10) {u : UInt16} (hu : u ∈ mantissa ds) :
    48 ≤ u ∧ u ≤ 57 ∨ u = 46 := by
  unfold mantissa at hu
  split at hu
  · rcases List.mem_cons.1 hu with rfl | hu
    · exact Or.inl (digitUnit_range (h _ (List.mem_cons_self ..)))
    rcases List.mem_cons.1 hu with rfl | hu
    · exact Or.inr rfl
    · exact Or.inl (text_range (fun d hd => h d (List.mem_cons_of_mem _ hd)) hu)
  · exact Or.inl (text_range h hu)

theorem mantissa_injective {ds ds' : List ℕ} (h : ∀ d ∈ ds, d < 10) (h' : ∀ d ∈ ds', d < 10)
    (he : mantissa ds = mantissa ds') : ds = ds' := by
  have hpoint : ∀ (ds : List ℕ) (d r : ℕ) (rest : List ℕ), (∀ d ∈ ds, d < 10) →
      text ds = mantissa (d :: r :: rest) → False := by
    intro ds d r rest hds he
    have hmem : (46 : UInt16) ∈ text ds := he ▸ List.mem_cons_of_mem _ (List.mem_cons_self ..)
    exact absurd (text_range hds hmem).1 (by decide)
  rcases ds with - | ⟨d, - | ⟨r, rest⟩⟩ <;> rcases ds' with - | ⟨d', - | ⟨r', rest'⟩⟩
  all_goals first
    | exact text_injective h h' he
    | exact (hpoint _ _ _ _ h he).elim
    | exact (hpoint _ _ _ _ h' he.symm).elim
    | skip
  obtain ⟨hd, hrest⟩ := List.cons.inj he
  refine text_injective h h' ?_
  show digitUnit d :: text (r :: rest) = digitUnit d' :: text (r' :: rest')
  rw [hd, (List.cons.inj hrest).2]

theorem write_injective {n m : ℕ} (h : write n = write m) : n = m := by
  have hdigits : ∀ n : ℕ, ∀ d ∈ digits n, d < 10 := fun n d hd => digits_lt hd
  have hmixed : ∀ (n : ℕ) (s t : JsString), text (digits n) = s ++ 101 :: t → False := by
    intro n s t he
    have hmem : (101 : UInt16) ∈ text (digits n) :=
      he ▸ List.mem_append_right s (List.mem_cons_self ..)
    exact absurd (text_range (hdigits n) hmem).2 (by decide)
  unfold write at h
  split_ifs at h with hn hm hm
  · exact digits_injective (text_injective (hdigits n) (hdigits m) h)
  · exact (hmixed n _ _ h).elim
  · exact (hmixed m _ _ h.symm).elim
  · -- there is one `e` in each text
    have hmantissa : (101 : UInt16) ∉ mantissa (significant n) := fun hmem => by
      rcases mantissa_range (fun _ => significant_lt) hmem with h | h
      · exact absurd h.2 (by decide)
      · exact absurd h (by decide)
    have hexponent : (101 : UInt16) ∉ 43 :: text (digits ((digits n).length - 1)) := fun hmem => by
      rcases List.mem_cons.1 hmem with h | h
      · exact absurd h (by decide)
      · exact absurd (text_range (hdigits _) h).2 (by decide)
    obtain ⟨hs, -, he⟩ := (List.append_cons_inj_of_notMem hmantissa hexponent).1 h
    have hlength := digits_injective
      (text_injective (hdigits _) (hdigits _) (List.cons.inj he).2)
    refine eq_of_significant ?_ (by omega)
    exact mantissa_injective (fun _ => significant_lt) (fun _ => significant_lt) hs

theorem write_unit {n : ℕ} {u : UInt16} (h : u ∈ write n) : IsNumberUnit u := by
  unfold write at h
  split_ifs at h
  · exact Or.inl (text_range (fun _ => digits_lt) h)
  rcases List.mem_append.1 h with h | h
  · rcases mantissa_range (fun _ => significant_lt) h with h | h
    · exact Or.inl h
    · exact Or.inr (Or.inr (Or.inr (Or.inl h)))
  rcases List.mem_cons.1 h with rfl | h
  · exact Or.inr (Or.inr (Or.inr (Or.inr rfl)))
  rcases List.mem_cons.1 h with rfl | h
  · exact Or.inr (Or.inl rfl)
  · exact Or.inl (text_range (fun _ => digits_lt) h)

/-- What the text of a number is made of. -/
theorem toString_unit {n : ℤ} {u : UInt16} (h : u ∈ toString n) : IsNumberUnit u := by
  unfold toString at h
  split_ifs at h
  · rw [List.mem_singleton.1 h]
    exact Or.inl (by decide)
  · rcases List.mem_cons.1 h with rfl | h
    · exact Or.inr (Or.inr (Or.inl rfl))
    · exact write_unit h
  · exact write_unit h

/-- **Different positive numbers have different texts.** -/
theorem toString_injective {n m : ℤ} (hn : 0 < n) (hm : 0 < m) (hfn : FitsInt 53 n)
    (hfm : FitsInt 53 m) (h : toString n = toString m) : n = m := by
  unfold toString at h
  rw [if_neg hn.ne', if_neg hn.not_gt, if_neg hm.ne', if_neg hm.not_gt] at h
  have hshortest := write_injective h
  have habs : n.natAbs = m.natAbs := by
    rw [← round_shortest hfn, ← round_shortest hfm, hshortest]
  omega

end NumberText
end LedgerEngine
