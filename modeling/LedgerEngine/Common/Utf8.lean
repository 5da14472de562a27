/-
# Strings as bytes

A string given to a hash is encoded in UTF-8.  Its code units are read as
characters first: a high and a low surrogate in a row are one, a surrogate on its
own becomes U+FFFD (`toChars`).  So two strings may have the same bytes, but not
where no surrogate is on its own (`WellFormed`, `utf8_injective`).
-/

import LedgerEngine.Common.JsString

namespace LedgerEngine
namespace Utf8

/-- A high surrogate. -/
def isHigh (u : UInt16) : Bool := 0xD800 ≤ u && u ≤ 0xDBFF

/-- A low surrogate. -/
def isLow (u : UInt16) : Bool := 0xDC00 ≤ u && u ≤ 0xDFFF

/-- The two units are one character beyond the basic plane. -/
def isPair (u v : UInt16) : Bool := isHigh u && isLow v

/-- A unit that is not half of a pair. -/
def Plain (u : UInt16) : Prop := isHigh u = false ∧ isLow u = false

instance (u : UInt16) : Decidable (Plain u) :=
  inferInstanceAs (Decidable (isHigh u = false ∧ isLow u = false))

/-! ### Characters -/

/-- The character of a unit that is no half of a pair; U+FFFD for half of one. -/
def unitChar (u : UInt16) : Char :=
  if Plain u then Char.ofNat u.toNat else Char.ofNat 0xFFFD

/-- The character of a pair. -/
def pairChar (u v : UInt16) : Char :=
  Char.ofNat (0x10000 + (u.toNat - 0xD800) * 0x400 + (v.toNat - 0xDC00))

/-- The characters a string is encoded as. -/
def toChars : JsString → List Char
  | [] => []
  | [u] => [unitChar u]
  | u :: v :: rest =>
      if isPair u v then pairChar u v :: toChars rest else unitChar u :: toChars (v :: rest)

/-- The bytes of a string. -/
def utf8 (s : JsString) : ByteArray := (String.ofList (toChars s)).toByteArray

/-- No surrogate is on its own. -/
def WellFormed : JsString → Prop
  | [] => True
  | [u] => Plain u
  | u :: v :: rest => if isPair u v then WellFormed rest else Plain u ∧ WellFormed (v :: rest)

theorem not_isPair_of_plain {u v : UInt16} (h : Plain u) : isPair u v = false := by
  rw [isPair, h.1, Bool.false_and]

/-- A unit that is no half of a pair does not touch what follows it. -/
theorem wellFormed_cons {u : UInt16} (h : Plain u) (t : JsString) :
    WellFormed (u :: t) ↔ WellFormed t := by
  cases t with
  | nil => exact iff_of_true h trivial
  | cons v t =>
      rw [WellFormed, not_isPair_of_plain h, if_neg Bool.false_ne_true]
      exact and_iff_right h

theorem wellFormed_append {s : JsString} (h : ∀ u ∈ s, Plain u) (t : JsString) :
    WellFormed (s ++ t) ↔ WellFormed t := by
  induction s with
  | nil => exact Iff.rfl
  | cons u s ih =>
      rw [List.cons_append, wellFormed_cons (h u (List.mem_cons_self ..))]
      exact ih fun v hv => h v (List.mem_cons_of_mem _ hv)

/-! ### Reading characters back -/

/-- The code units of a character. -/
def charUnits (c : Char) : JsString :=
  if c.toNat < 0x10000 then [c.toNat.toUInt16]
  else [(0xD800 + (c.toNat - 0x10000) / 0x400).toUInt16,
    (0xDC00 + (c.toNat - 0x10000) % 0x400).toUInt16]

theorem toNat_ofNat {n : ℕ} (h : n.isValidChar) : (Char.ofNat n).toNat = n := by
  rw [Char.ofNat, dif_pos h]
  rfl

theorem charUnits_unitChar {u : UInt16} (h : Plain u) : charUnits (unitChar u) = [u] := by
  have hlt := u.toNat_lt
  have hvalid : u.toNat.isValidChar := by
    obtain ⟨hhigh, hlow⟩ := h
    simp only [isHigh, isLow, Bool.and_eq_false_iff, decide_eq_false_iff_not,
      UInt16.le_iff_toNat_le, UInt16.toNat_ofNat] at hhigh hlow
    unfold Nat.isValidChar
    omega
  rw [unitChar, if_pos h, charUnits, toNat_ofNat hvalid, if_pos (by omega)]
  simp

theorem charUnits_pairChar {u v : UInt16} (h : isPair u v = true) :
    charUnits (pairChar u v) = [u, v] := by
  simp only [isPair, isHigh, isLow, Bool.and_eq_true, decide_eq_true_eq,
    UInt16.le_iff_toNat_le, UInt16.toNat_ofNat] at h
  obtain ⟨⟨hu, hu'⟩, hv, hv'⟩ := h
  have hvalid : (0x10000 + (u.toNat - 0xD800) * 0x400 + (v.toNat - 0xDC00)).isValidChar := by
    unfold Nat.isValidChar
    omega
  rw [pairChar, charUnits, toNat_ofNat hvalid, if_neg (by omega)]
  have hhigh : 0xD800 +
      (0x10000 + (u.toNat - 0xD800) * 0x400 + (v.toNat - 0xDC00) - 0x10000) / 0x400 = u.toNat := by
    omega
  have hlow : 0xDC00 +
      (0x10000 + (u.toNat - 0xD800) * 0x400 + (v.toNat - 0xDC00) - 0x10000) % 0x400 = v.toNat := by
    omega
  rw [hhigh, hlow]
  simp

/-- **The characters give a well-formed string back.** -/
theorem flatMap_charUnits {s : JsString} (h : WellFormed s) :
    (toChars s).flatMap charUnits = s := by
  induction s using toChars.induct with
  | case1 => rfl
  | case2 u => simp [toChars, charUnits_unitChar h]
  | case3 u v rest hpair ih =>
      rw [WellFormed, if_pos hpair] at h
      rw [toChars, if_pos hpair, List.flatMap_cons, charUnits_pairChar hpair, ih h]
      rfl
  | case4 u v rest hpair ih =>
      rw [WellFormed, if_neg hpair] at h
      rw [toChars, if_neg hpair, List.flatMap_cons, charUnits_unitChar h.1, ih h.2]
      rfl

/-- **Well-formed strings with the same bytes are the same.** -/
theorem utf8_injective {s t : JsString} (hs : WellFormed s) (ht : WellFormed t)
    (h : utf8 s = utf8 t) : s = t := by
  have hchars : toChars s = toChars t := by
    have hlist := congrArg String.toList (String.toByteArray_inj.1 h)
    rwa [String.toList_ofList, String.toList_ofList] at hlist
  rw [← flatMap_charUnits hs, ← flatMap_charUnits ht, hchars]

end Utf8
end LedgerEngine
