/-
# Strings, uuids and instants

A JavaScript string is a list of UTF-16 code units, unpaired surrogates
included; request bodies carry such strings.  A text column is taken to keep the
string it is given; of an unpaired surrogate the driver sends U+FFFD, which is not
modelled.  A `uuid` column compares and
returns its values in one spelling, lower case, whatever spelling a request
used: `Uuid` is the type of such spellings and `Uuid.ofText` the conversion a
query parameter goes through.  A `Date` is its time value, milliseconds since
the epoch.
-/

import Mathlib.Data.Int.Notation
import Mathlib.Data.List.Basic
import Mathlib.Tactic.SplitIfs

namespace LedgerEngine

/-- A JavaScript string: its UTF-16 code units. -/
abbrev JsString := List UInt16

/-- The code units of a literal over the basic plane. -/
def js (s : String) : JsString := s.toList.map fun c => c.toNat.toUInt16

/-- The time value of a `Date`, and a `timestamptz` to the same precision. -/
abbrev Time := ℤ

/-- `A` to `Z` mapped to `a` to `z`, other code units kept. -/
def lowerUnit (u : UInt16) : UInt16 := if 65 ≤ u ∧ u ≤ 90 then u + 32 else u

theorem lowerUnit_lowerUnit (u : UInt16) : lowerUnit (lowerUnit u) = lowerUnit u := by
  unfold lowerUnit
  split_ifs with h₁ h₂ <;> try rfl
  simp only [UInt16.le_iff_toNat_le, UInt16.toNat_add, UInt16.toNat_ofNat] at h₁ h₂
  omega

/-- A hexadecimal digit in either case. -/
def isHexDigit (u : UInt16) : Bool :=
  (48 ≤ u && u ≤ 57) || (65 ≤ u && u ≤ 70) || (97 ≤ u && u ≤ 102)

/-- 36 code units, hyphens at 8, 13, 18 and 23, hexadecimal digits of either case
elsewhere. -/
def isHyphenated (s : JsString) : Bool :=
  s.length == 36 &&
    s.zipIdx.all fun (u, i) => if i ∈ [8, 13, 18, 23] then u == 45 else isHexDigit u

/-- The code unit at `i` is there and passes the test. -/
def unitAt (s : JsString) (i : ℕ) (test : UInt16 → Bool) : Bool := s[i]?.any test

/-- `@IsUUID()`, the expression `all` of `validator`: a version from 1 to 8 at 14 and a
variant of 8, 9, a or b at 19, or one of the two uuids that have neither. -/
def isUuid (s : JsString) : Bool :=
  isHyphenated s &&
      (unitAt s 14 fun u => 49 ≤ u && u ≤ 56) &&
      (unitAt s 19 fun u => lowerUnit u ∈ [56, 57, 97, 98]) ||
    s.map lowerUnit = js "00000000-0000-0000-0000-000000000000" ||
    s.map lowerUnit = js "ffffffff-ffff-ffff-ffff-ffffffffffff"

example : isUuid (js "0f8fad5b-d9cb-469f-a165-70867728950E") = true := by decide
example : isUuid (js "0f8fad5b-d9cb-969f-a165-70867728950e") = false := by decide
example : isUuid (js "0f8fad5b-d9cb-469f-c165-70867728950e") = false := by decide

/-- `/^[A-Z]{3}$/` with `@Length(3, 3)`: what the DTOs accept as a currency. -/
def isCurrency (s : JsString) : Bool := s.length == 3 && s.all fun u => 65 ≤ u && u ≤ 90

/-- A value of a `uuid` column, in the spelling PostgreSQL returns it. -/
structure Uuid where
  text : JsString
  canonical : text.map lowerUnit = text
  deriving DecidableEq

namespace Uuid

/-- A query parameter compared with a `uuid` column is first put in the
column's own spelling. -/
def ofText (s : JsString) : Uuid where
  text := s.map lowerUnit
  canonical := by
    rw [List.map_map]
    exact List.map_congr_left fun u _ => lowerUnit_lowerUnit u

@[simp] theorem text_ofText (s : JsString) : (ofText s).text = s.map lowerUnit := rfl

/-- Sending a stored uuid back finds the same value. -/
@[simp] theorem ofText_text (u : Uuid) : ofText u.text = u := by
  obtain ⟨text, canonical⟩ := u
  simp [ofText, canonical]

/-- A request's string that *is* the stored spelling denotes that uuid. -/
theorem ofText_eq_of_text_eq {u : Uuid} {s : JsString} (h : u.text = s) : ofText s = u :=
  h ▸ ofText_text u

/-- The order of a `uuid` column: by the spelling, code unit by code unit. -/
def le (u v : Uuid) : Bool := decide (u.text ≤ v.text)

end Uuid

end LedgerEngine
