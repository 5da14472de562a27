/-
# The text of a JSON value

`JSON.stringify` without indentation.  A string is quoted unit by unit: quotes,
backslashes and control characters are escaped, and so is a surrogate on its own,
so that the text is always well formed (`wellFormed_stringify`).

Every text can be read back: after a quoted string comes what follows it
(`Reads`), after a number or a name a comma or a brace.  So two objects of scalars
with the same text have the same members in the same order
(`stringify_injective`).
-/

import LedgerEngine.Common.Json
import LedgerEngine.Common.NumberText
import LedgerEngine.Common.Utf8

namespace LedgerEngine
namespace Stringify

open NumberText (IsNumberUnit)
open Rounding (FitsInt)
open Utf8 (Plain isHigh isLow isPair WellFormed wellFormed_cons wellFormed_append)

/-! ### Strings -/

/-- A hexadecimal digit in lower case. -/
def hexUnit (d : ℕ) : UInt16 := (if d < 10 then 48 + d else 87 + d).toUInt16

/-- `\uXXXX`. -/
def unicodeEscape (u : UInt16) : JsString :=
  [92, 117, hexUnit (u.toNat / 4096), hexUnit (u.toNat / 256 % 16), hexUnit (u.toNat / 16 % 16),
    hexUnit (u.toNat % 16)]

/-- A unit that is no half of a pair, as it stands between quotes. -/
def quoteUnit (u : UInt16) : JsString :=
  if u = 8 then [92, 98]
  else if u = 9 then [92, 116]
  else if u = 10 then [92, 110]
  else if u = 12 then [92, 102]
  else if u = 13 then [92, 114]
  else if u = 34 then [92, 34]
  else if u = 92 then [92, 92]
  else if u < 32 ∨ ¬ Plain u then unicodeEscape u
  else [u]

/-- A string as it stands between quotes. -/
def quoteBody : JsString → JsString
  | [] => []
  | [u] => quoteUnit u
  | u :: v :: rest =>
      if isPair u v then u :: v :: quoteBody rest else quoteUnit u ++ quoteBody (v :: rest)

def quote (s : JsString) : JsString := 34 :: (quoteBody s ++ [34])

/-! ### Values -/

mutual

/-- `JSON.stringify`. -/
def stringify : Json → JsString
  | .null => js "null"
  | .bool b => if b then js "true" else js "false"
  | .num n => NumberText.toString n
  | .str s => quote s
  | .arr items => 91 :: (stringifyItems items ++ [93])
  | .obj fields => 123 :: (stringifyFields fields ++ [125])

def stringifyItems : List Json → JsString
  | [] => []
  | [j] => stringify j
  | j :: rest => stringify j ++ 44 :: stringifyItems rest

def stringifyFields : List (JsString × Json) → JsString
  | [] => []
  | [(name, j)] => quote name ++ 58 :: stringify j
  | (name, j) :: rest => quote name ++ 58 :: (stringify j ++ 44 :: stringifyFields rest)

end

example : stringify (.obj [(js "a\"b", .num 12), (js "c", .arr [.str [0xD83D, 0xDE00, 0xD800, 10],
    .null])]) = js "\x7b\"a\\\"b\":12,\"c\":[\"" ++ [0xD83D, 0xDE00] ++ js "\\ud800\\n\",null]\x7d" := by
  decide +kernel

/-! ### The text is well formed -/

/-- A scalar: `null`, a string, or a positive number that JavaScript has. -/
def Scalar : Json → Prop
  | .null => True
  | .str _ => True
  | .num n => 0 < n ∧ FitsInt 53 n
  | _ => False

theorem plain_of_lt {u : UInt16} (h : u < 0xD800) : Plain u := by
  have hlt : u.toNat < 0xD800 := UInt16.lt_iff_toNat_lt.1 h
  unfold Plain isHigh isLow
  simp only [Bool.and_eq_false_iff, decide_eq_false_iff_not, UInt16.le_iff_toNat_le,
    UInt16.toNat_ofNat]
  omega

/-- A text of units below the surrogates. -/
theorem plain_of_all {s : JsString} (h : (s.all fun u => u < 0xD800) = true) : ∀ u ∈ s, Plain u :=
  fun u hu => plain_of_lt (of_decide_eq_true (List.all_eq_true.1 h u hu))

theorem toNat_hexUnit {d : ℕ} (h : d < 16) :
    (hexUnit d).toNat = if d < 10 then 48 + d else 87 + d := by
  rw [hexUnit, Nat.toUInt16_eq, UInt16.toNat_ofNat']
  split_ifs <;> omega

theorem plain_hexUnit {d : ℕ} (h : d < 16) : Plain (hexUnit d) := by
  refine plain_of_lt (UInt16.lt_iff_toNat_lt.2 ?_)
  rw [toNat_hexUnit h]
  show _ < 0xD800
  split_ifs <;> omega

theorem plain_unicodeEscape (u : UInt16) : ∀ v ∈ unicodeEscape u, Plain v := by
  have hlt := u.toNat_lt
  simp only [unicodeEscape, List.forall_mem_cons, List.not_mem_nil, false_implies, implies_true,
    and_true]
  refine ⟨by decide, by decide, plain_hexUnit (by omega), plain_hexUnit (by omega),
    plain_hexUnit (by omega), plain_hexUnit (by omega)⟩

theorem plain_quoteUnit (u : UInt16) : ∀ v ∈ quoteUnit u, Plain v := by
  unfold quoteUnit
  split_ifs with h₁ h₂ h₃ h₄ h₅ h₆ h₇ h₈
  · exact plain_of_all (by decide)
  · exact plain_of_all (by decide)
  · exact plain_of_all (by decide)
  · exact plain_of_all (by decide)
  · exact plain_of_all (by decide)
  · exact plain_of_all (by decide)
  · exact plain_of_all (by decide)
  · exact plain_unicodeEscape u
  · intro v hv
    obtain rfl := List.mem_singleton.1 hv
    exact not_not.1 fun h => h₈ (Or.inr h)

/-- What a string is quoted to is well formed, whatever the string. -/
theorem wellFormed_quoteBody (s t : JsString) : WellFormed (quoteBody s ++ t) ↔ WellFormed t := by
  induction s using quoteBody.induct with
  | case1 => exact Iff.rfl
  | case2 u => exact wellFormed_append (plain_quoteUnit u) t
  | case3 u v rest hpair ih =>
      rw [quoteBody, if_pos hpair, List.cons_append, List.cons_append, WellFormed, if_pos hpair]
      exact ih
  | case4 u v rest hpair ih =>
      rw [quoteBody, if_neg hpair, List.append_assoc, wellFormed_append (plain_quoteUnit u)]
      exact ih

theorem wellFormed_quote (s t : JsString) : WellFormed (quote s ++ t) ↔ WellFormed t := by
  rw [quote, List.cons_append, List.append_assoc, wellFormed_cons (by decide),
    wellFormed_quoteBody]
  exact wellFormed_cons (by decide) t

theorem wellFormed_scalar {j : Json} (h : Scalar j) (t : JsString) :
    WellFormed (stringify j ++ t) ↔ WellFormed t := by
  cases j with
  | null => exact wellFormed_append (plain_of_all (by decide)) t
  | str s => exact wellFormed_quote s t
  | num n =>
      refine wellFormed_append (fun u hu => plain_of_lt ?_) t
      rcases NumberText.toString_unit hu with h | rfl | rfl | rfl | rfl
      · exact UInt16.lt_of_le_of_lt h.2 (by decide)
      · decide
      · decide
      · decide
      · decide
  | bool | arr | obj => exact h.elim

/-- A name and its value. -/
def member (f : JsString × Json) : JsString := quote f.1 ++ 58 :: stringify f.2

theorem stringifyFields_singleton (f : JsString × Json) : stringifyFields [f] = member f := by
  rw [stringifyFields, member]

theorem stringifyFields_cons_cons (f g : JsString × Json) (rest : List (JsString × Json)) :
    stringifyFields (f :: g :: rest) = member f ++ 44 :: stringifyFields (g :: rest) := by
  rw [stringifyFields, member, List.append_assoc, List.cons_append]
  exact fun h => List.cons_ne_nil _ _ h

theorem wellFormed_member {f : JsString × Json} (h : Scalar f.2) (t : JsString) :
    WellFormed (member f ++ t) ↔ WellFormed t := by
  rw [member, List.append_assoc, wellFormed_quote, List.cons_append, wellFormed_cons (by decide),
    wellFormed_scalar h]

theorem wellFormed_stringifyFields {fields : List (JsString × Json)}
    (h : ∀ f ∈ fields, Scalar f.2) (t : JsString) :
    WellFormed (stringifyFields fields ++ t) ↔ WellFormed t := by
  induction fields with
  | nil => rw [stringifyFields, List.nil_append]
  | cons f rest ih =>
      have hf := h f (List.mem_cons_self ..)
      cases rest with
      | nil => rw [stringifyFields_singleton, wellFormed_member hf]
      | cons g rest =>
          rw [stringifyFields_cons_cons, List.append_assoc, List.cons_append, wellFormed_member hf,
            wellFormed_cons (by decide)]
          exact ih fun f' hf' => h f' (List.mem_cons_of_mem _ hf')

/-- **The text of an object of scalars is well formed.** -/
theorem wellFormed_stringify {fields : List (JsString × Json)} (h : ∀ f ∈ fields, Scalar f.2) :
    WellFormed (stringify (.obj fields)) := by
  rw [stringify, wellFormed_cons (by decide), wellFormed_stringifyFields h]
  exact (wellFormed_cons (by decide) []).2 trivial

/-! ### Reading a text back -/

/-- The value of a hexadecimal digit in lower case. -/
def hexValue (u : UInt16) : ℕ := if u.toNat < 58 then u.toNat - 48 else u.toNat - 87

/-- The unit after a backslash, where it is a letter of its own. -/
def unescape (u : UInt16) : UInt16 :=
  if u = 98 then 8 else if u = 116 then 9 else if u = 110 then 10 else if u = 102 then 12
  else if u = 114 then 13 else u

/-- One unit between quotes, and what follows it. -/
def readUnit : JsString → Option (UInt16 × JsString)
  | [] => none
  | u :: rest =>
      if u = 92 then
        match rest with
        | [] => none
        | v :: rest =>
            if v = 117 then
              match rest with
              | a :: b :: c :: d :: rest =>
                  some ((hexValue a * 4096 + hexValue b * 256 + hexValue c * 16 + hexValue d).toUInt16,
                    rest)
              | _ => none
            else some (unescape v, rest)
      else some (u, rest)

/-- A text read up to a closing quote is a string, and what follows the quote. -/
inductive Reads : JsString → JsString → JsString → Prop
  | done (t : JsString) : Reads (34 :: t) [] t
  | unit {text text' s t : JsString} {u : UInt16} (hopen : text.head? ≠ some 34)
      (h : readUnit text = some (u, text')) (hrest : Reads text' s t) : Reads text (u :: s) t

/-- A text is read in one way. -/
theorem Reads.unique {text s s' t t' : JsString} (h : Reads text s t) (h' : Reads text s' t') :
    s = s' ∧ t = t' := by
  induction h generalizing s' with
  | done t =>
      cases h' with
      | done => exact ⟨rfl, rfl⟩
      | unit hopen => exact absurd rfl hopen
  | unit hopen h hrest ih =>
      cases h' with
      | done => exact absurd rfl hopen
      | unit _ h' hrest' =>
          obtain ⟨rfl, rfl⟩ := Prod.mk.inj (Option.some.inj (h.symm.trans h'))
          obtain ⟨rfl, rfl⟩ := ih hrest'
          exact ⟨rfl, rfl⟩

theorem hexValue_hexUnit {d : ℕ} (h : d < 16) : hexValue (hexUnit d) = d := by
  rw [hexValue, toNat_hexUnit h]
  split_ifs <;> omega

theorem readUnit_unicodeEscape (u : UInt16) (t : JsString) :
    readUnit (unicodeEscape u ++ t) = some (u, t) := by
  have hlt := u.toNat_lt
  simp only [unicodeEscape, List.cons_append, List.nil_append, readUnit, if_true]
  rw [hexValue_hexUnit (by omega), hexValue_hexUnit (by omega), hexValue_hexUnit (by omega),
    hexValue_hexUnit (by omega)]
  have hvalue : u.toNat / 4096 * 4096 + u.toNat / 256 % 16 * 256 + u.toNat / 16 % 16 * 16 +
      u.toNat % 16 = u.toNat := by omega
  rw [hvalue]
  simp

/-- **A quoted unit is read as the unit.** -/
theorem readUnit_quoteUnit (u : UInt16) (t : JsString) :
    readUnit (quoteUnit u ++ t) = some (u, t) := by
  unfold quoteUnit
  split_ifs with h₁ h₂ h₃ h₄ h₅ h₆ h₇ h₈
  · rw [h₁]; rfl
  · rw [h₂]; rfl
  · rw [h₃]; rfl
  · rw [h₄]; rfl
  · rw [h₅]; rfl
  · rw [h₆]; rfl
  · rw [h₇]; rfl
  · exact readUnit_unicodeEscape u t
  · exact if_neg h₇

theorem head?_quoteUnit (u : UInt16) (t : JsString) : (quoteUnit u ++ t).head? ≠ some 34 := by
  unfold quoteUnit
  split_ifs with h₁ h₂ h₃ h₄ h₅ h₆ h₇ h₈
  case neg => exact fun h => h₆ (Option.some.inj h)
  all_goals exact of_decide_eq_true rfl

/-- **What a string is quoted to is read as the string.** -/
theorem reads_quoteBody (s t : JsString) : Reads (quoteBody s ++ 34 :: t) s t := by
  have hunit : ∀ (u : UInt16) {text rest : JsString}, Reads text rest t →
      Reads (quoteUnit u ++ text) (u :: rest) t := fun u _ _ hrest =>
    .unit (head?_quoteUnit u _) (readUnit_quoteUnit u _) hrest
  have hsurrogate : ∀ {u : UInt16} {text rest : JsString}, 0xD800 ≤ u → Reads text rest t →
      Reads (u :: text) (u :: rest) t := by
    intro u text rest hu hrest
    have hne : ∀ v : UInt16, v < 0xD800 → u ≠ v := fun v hv h =>
      absurd (h ▸ hu) (UInt16.not_le.2 hv)
    refine .unit (fun h => hne 34 (by decide) (Option.some.inj h)) ?_ hrest
    exact if_neg (hne 92 (by decide))
  induction s using quoteBody.induct with
  | case1 => exact .done t
  | case2 u => exact hunit u (.done t)
  | case3 u v rest hpair ih =>
      rw [quoteBody, if_pos hpair]
      simp only [isPair, isHigh, isLow, Bool.and_eq_true, decide_eq_true_eq] at hpair
      exact hsurrogate hpair.1.1 (hsurrogate (UInt16.le_trans (by decide) hpair.2.1) ih)
  | case4 u v rest hpair ih =>
      rw [quoteBody, if_neg hpair, List.append_assoc]
      exact hunit u ih

/-- **A quoted string says where it ends.** -/
theorem quote_append_inj {s s' t t' : JsString} (h : quote s ++ t = quote s' ++ t') :
    s = s' ∧ t = t' := by
  rw [quote, quote, List.cons_append, List.cons_append, List.append_assoc, List.append_assoc] at h
  have hreads := reads_quoteBody s t
  rw [← List.singleton_append, (List.cons.inj h).2] at hreads
  exact hreads.unique (reads_quoteBody s' t')

/-- A comma or a closing brace comes next. -/
def Delimited (t : JsString) : Prop := ∃ u rest, t = u :: rest ∧ (u = 44 ∨ u = 125)

/-- A number says where it ends, if a delimiter comes next. -/
theorem number_append_inj {a b t t' : JsString} (ha : ∀ u ∈ a, IsNumberUnit u)
    (hb : ∀ u ∈ b, IsNumberUnit u) (ht : Delimited t) (ht' : Delimited t')
    (h : a ++ t = b ++ t') : a = b ∧ t = t' := by
  have hdelimiter : ∀ {u : UInt16}, IsNumberUnit u → ¬ (u = 44 ∨ u = 125) := by
    rintro u hu (rfl | rfl) <;> exact absurd hu (by unfold IsNumberUnit; decide)
  induction a generalizing b with
  | nil =>
      cases b with
      | nil => exact ⟨rfl, h⟩
      | cons v b =>
          obtain ⟨u, rest, rfl, hu⟩ := ht
          obtain ⟨rfl, -⟩ := List.cons.inj h
          exact absurd hu (hdelimiter (hb u (List.mem_cons_self ..)))
  | cons u a ih =>
      cases b with
      | nil =>
          obtain ⟨v, rest, rfl, hv⟩ := ht'
          obtain ⟨rfl, -⟩ := List.cons.inj h
          exact absurd hv (hdelimiter (ha u (List.mem_cons_self ..)))
      | cons v b =>
          obtain ⟨rfl, htail⟩ := List.cons.inj h
          obtain ⟨rfl, rfl⟩ := ih (fun w hw => ha w (List.mem_cons_of_mem _ hw))
            (fun w hw => hb w (List.mem_cons_of_mem _ hw)) htail
          exact ⟨rfl, rfl⟩

/-- A number begins with none of the units that begin a name or a string. -/
theorem number_ne {n : ℤ} {t t' : JsString} {u : UInt16} (ht : Delimited t)
    (hu : u = 34 ∨ u = 110) : u :: t' ≠ NumberText.toString n ++ t := by
  intro h
  have hmem : IsNumberUnit u ∨ u = 44 ∨ u = 125 := by
    cases hn : NumberText.toString n with
    | nil =>
        obtain ⟨v, rest, rfl, hv⟩ := ht
        rw [hn] at h
        exact Or.inr ((List.cons.inj h).1 ▸ hv)
    | cons v rest =>
        rw [hn] at h
        have hv : v ∈ NumberText.toString n := hn ▸ List.mem_cons_self ..
        exact Or.inl ((List.cons.inj h).1 ▸ NumberText.toString_unit hv)
  unfold IsNumberUnit at hmem
  rcases hu with rfl | rfl <;> exact absurd hmem (by decide)

/-- **A scalar says where it ends**, if a delimiter comes next. -/
theorem scalar_append_inj {a b : Json} (ha : Scalar a) (hb : Scalar b) {t t' : JsString}
    (ht : Delimited t) (ht' : Delimited t') (h : stringify a ++ t = stringify b ++ t') :
    a = b ∧ t = t' := by
  cases a with
  | null =>
      cases b with
      | null => exact ⟨rfl, List.append_cancel_left h⟩
      | num m => exact absurd h (number_ne ht' (Or.inr rfl))
      | str s' => exact absurd (List.cons.inj h).1 (by decide)
      | bool | arr | obj => exact hb.elim
  | num n =>
      cases b with
      | null => exact absurd h.symm (number_ne ht (Or.inr rfl))
      | num m =>
          obtain ⟨htext, rfl⟩ := number_append_inj (fun _ => NumberText.toString_unit)
            (fun _ => NumberText.toString_unit) ht ht' h
          obtain rfl := NumberText.toString_injective ha.1 hb.1 ha.2 hb.2 htext
          exact ⟨rfl, rfl⟩
      | str s' => exact absurd h.symm (number_ne ht (Or.inl rfl))
      | bool | arr | obj => exact hb.elim
  | str s =>
      cases b with
      | null => exact absurd (List.cons.inj h).1 (by decide)
      | num m => exact absurd h (number_ne ht' (Or.inl rfl))
      | str s' =>
          obtain ⟨rfl, rfl⟩ := quote_append_inj h
          exact ⟨rfl, rfl⟩
      | bool | arr | obj => exact hb.elim
  | bool | arr | obj => exact ha.elim

theorem member_append_inj {f f' : JsString × Json} (hf : Scalar f.2) (hf' : Scalar f'.2)
    {t t' : JsString} (ht : Delimited t) (ht' : Delimited t')
    (h : member f ++ t = member f' ++ t') : f = f' ∧ t = t' := by
  rw [member, member, List.append_assoc, List.append_assoc] at h
  obtain ⟨hname, hrest⟩ := quote_append_inj h
  obtain ⟨hvalue, rfl⟩ := scalar_append_inj hf hf' ht ht' (List.cons.inj hrest).2
  exact ⟨Prod.ext hname hvalue, rfl⟩

/-- The text of an object's members after the first one. -/
def following : List (JsString × Json) → JsString
  | [] => [125]
  | f :: rest => 44 :: (stringifyFields (f :: rest) ++ [125])

theorem delimited_following (fields : List (JsString × Json)) : Delimited (following fields) := by
  cases fields with
  | nil => exact ⟨125, [], rfl, Or.inr rfl⟩
  | cons f rest => exact ⟨44, _, rfl, Or.inl rfl⟩

theorem stringifyFields_cons (f : JsString × Json) (rest : List (JsString × Json)) :
    stringifyFields (f :: rest) ++ [125] = member f ++ following rest := by
  cases rest with
  | nil => rw [stringifyFields_singleton, following]
  | cons g rest => rw [stringifyFields_cons_cons, following, List.append_assoc, List.cons_append]

/-- **Objects of scalars with the same text have the same members in the same
order.** -/
theorem stringify_injective {fields fields' : List (JsString × Json)}
    (h : ∀ f ∈ fields, Scalar f.2) (h' : ∀ f ∈ fields', Scalar f.2)
    (he : stringify (.obj fields) = stringify (.obj fields')) : fields = fields' := by
  have hmembers : stringifyFields fields ++ [125] = stringifyFields fields' ++ [125] := by
    rw [stringify, stringify] at he
    exact (List.cons.inj he).2
  clear he
  have hopen : ∀ (f : JsString × Json) (rest : List (JsString × Json)),
      stringifyFields [] ++ [125] ≠ stringifyFields (f :: rest) ++ [125] := by
    intro f rest he
    rw [stringifyFields_cons, stringifyFields] at he
    exact absurd (List.cons.inj he).1 (by decide)
  induction fields generalizing fields' with
  | nil =>
      cases fields' with
      | nil => rfl
      | cons f' rest' => exact absurd hmembers (hopen f' rest')
  | cons f rest ih =>
      cases fields' with
      | nil => exact absurd hmembers.symm (hopen f rest)
      | cons f' rest' =>
          rw [stringifyFields_cons, stringifyFields_cons] at hmembers
          obtain ⟨rfl, hrest⟩ := member_append_inj (h f (List.mem_cons_self ..))
            (h' f' (List.mem_cons_self ..)) (delimited_following rest) (delimited_following rest')
            hmembers
          have hfollowing : rest = rest' := by
            cases rest with
            | nil =>
                cases rest' with
                | nil => rfl
                | cons g' rest' => exact absurd (List.cons.inj hrest).1 (by decide)
            | cons g rest =>
                cases rest' with
                | nil => exact absurd (List.cons.inj hrest).1 (by decide)
                | cons g' rest' =>
                    exact ih (fun x hx => h x (List.mem_cons_of_mem _ hx))
                      (fun x hx => h' x (List.mem_cons_of_mem _ hx)) (List.cons.inj hrest).2
          rw [hfollowing]

end Stringify
end LedgerEngine
