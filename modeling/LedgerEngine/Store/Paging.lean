/-
# Pages of a sorted query

A `SELECT … ORDER BY key DESC LIMIT take OFFSET skip` may return rows of one key
in any order, and in another one each time it is run.  `Descending` is an order it
may return the rows in, `OrderBy` says which it takes for every list of rows, and
`page` is what `LIMIT` and `OFFSET` leave of it.

A client walks through the pages of `l` rows until one is empty (`Collected`).
Whatever orders the queries take, it has each row once **if and only if** rows of
one key are on one page (`complete_iff`).  Where they are, the first `n` pages are
the first `n * l` rows of any order (`walked_perm`); where a page ends between two
rows of one key, a later query may exchange the two.
-/

import Mathlib.Data.List.Nodup
import Mathlib.Data.List.Sort
import Mathlib.Order.Basic
import Mathlib.Tactic.Ring

namespace LedgerEngine
namespace Paging

variable {ρ α ε : Type}

/-! ### Orders -/

/-- An order `ORDER BY key DESC` may return the rows in. -/
structure Descending (key : ρ → ℤ) (rows : List ρ) where
  list : List ρ
  perm : list.Perm rows
  sorted : list.Pairwise fun a b => key b ≤ key a

/-- How one query sorts: the order it takes for each list of rows. -/
abbrev OrderBy (key : ρ → ℤ) : Type := ∀ rows : List ρ, Descending key rows

/-- Rows of one key stay in the order they had. -/
def OrderBy.stable (key : ρ → ℤ) : OrderBy key := fun rows =>
  ⟨rows.mergeSort fun a b => key b ≤ key a, List.mergeSort_perm _ _, by
    have h : (rows.mergeSort fun a b => key b ≤ key a).Pairwise
        fun a b => decide (key b ≤ key a) = true :=
      List.pairwise_mergeSort (fun a b c hab hbc => by simp only [decide_eq_true_eq] at *; omega)
        (fun a b => by simp only [Bool.or_eq_true, decide_eq_true_eq]; omega) rows
    simpa using h⟩

variable {key : ρ → ℤ} {rows : List ρ} {l : ℕ}

/-- Some query takes a given order. -/
theorem OrderBy.exists_eq (o : Descending key rows) : ∃ s : OrderBy key, s rows = o := by
  classical
  refine ⟨fun rows' => if h : rows' = rows then h ▸ o else OrderBy.stable key rows', ?_⟩
  simp

/-! ### The place of a row -/

/-- How many rows come before every row of key `t`. -/
def newer (key : ρ → ℤ) (rows : List ρ) (t : ℤ) : ℕ := rows.countP fun r => t < key r

/-- How many rows have come with the last row of key `t`. -/
def notOlder (key : ρ → ℤ) (rows : List ρ) (t : ℤ) : ℕ := rows.countP fun r => t ≤ key r

/-- Rows of one key are on one page of `l` rows: the first and the last of them are. -/
def Together (key : ρ → ℤ) (rows : List ρ) (l : ℕ) : Prop :=
  ∀ r ∈ rows, newer key rows (key r) / l = (notOlder key rows (key r) - 1) / l

instance : Decidable (Together key rows l) := List.decidableBAll _ _

/-- Rows that all have one key are together where they fit on one page. -/
theorem together_const (hl : 1 ≤ l) {t : ℤ} (h : ∀ r ∈ rows, key r = t) :
    Together key rows l ↔ rows.length ≤ l := by
  have hnewer : newer key rows t = 0 := by
    rw [newer, List.countP_eq_zero]
    intro r hr
    simp [h r hr]
  have hold : notOlder key rows t = rows.length := by
    rw [notOlder, List.countP_eq_length]
    intro r hr
    simp [h r hr]
  have hone : ∀ r ∈ rows, (newer key rows (key r) / l = (notOlder key rows (key r) - 1) / l ↔
      rows.length ≤ l) := by
    intro r hr
    rw [h r hr, hnewer, hold, Nat.zero_div, eq_comm, Nat.div_eq_zero_iff]
    omega
  constructor
  · intro htogether
    cases hrows : rows with
    | nil => exact Nat.zero_le l
    | cons r rest =>
        have hr : r ∈ rows := hrows ▸ List.mem_cons_self ..
        rw [← hrows]
        exact (hone r hr).1 (htogether r hr)
  · intro hle r hr
    exact (hone r hr).2 hle

/-- In a descending list the rows above a threshold come first. -/
theorem threshold {L : List ρ} (hL : L.Pairwise fun a b => key b ≤ key a) {P : ℤ → Prop}
    [DecidablePred P] (hP : ∀ s t, s ≤ t → P s → P t) {i : ℕ} (hi : i < L.length) :
    P (key L[i]) ↔ i < L.countP fun r => P (key r) := by
  induction L generalizing i with
  | nil => exact absurd hi (Nat.not_lt_zero i)
  | cons a L ih =>
      obtain ⟨ha, hL⟩ := List.pairwise_cons.1 hL
      by_cases hPa : P (key a)
      · rw [List.countP_cons_of_pos (by simpa using hPa)]
        cases i with
        | zero => simpa using hPa
        | succ i =>
            rw [List.getElem_cons_succ, ih hL (by simpa using hi)]
            omega
      · have hnone : ∀ r ∈ L, ¬ P (key r) := fun r hr h => hPa (hP _ _ (ha r hr) h)
        have hcount : L.countP (fun r => P (key r)) = 0 := by
          rw [List.countP_eq_zero]
          simpa using hnone
        rw [List.countP_cons_of_neg (by simpa using hPa), hcount]
        cases i with
        | zero => simpa using hPa
        | succ i => simpa using hnone _ (List.getElem_mem _)

namespace Descending

variable (o : Descending key rows) {t : ℤ} {i : ℕ}

theorem length_eq : o.list.length = rows.length := o.perm.length_eq

theorem lt_key_iff (hi : i < o.list.length) : t < key o.list[i] ↔ i < newer key rows t := by
  rw [threshold o.sorted (P := fun s => t < s) (fun _ _ h h' => lt_of_lt_of_le h' h) hi]
  unfold newer
  rw [o.perm.countP_eq]

theorem le_key_iff (hi : i < o.list.length) : t ≤ key o.list[i] ↔ i < notOlder key rows t := by
  rw [threshold o.sorted (P := fun s => t ≤ s) (fun _ _ h h' => h'.trans h) hi]
  unfold notOlder
  rw [o.perm.countP_eq]

/-- A row of key `t` stands after the newer ones and before the older ones. -/
theorem key_eq_iff (hi : i < o.list.length) :
    key o.list[i] = t ↔ newer key rows t ≤ i ∧ i < notOlder key rows t := by
  rw [← o.le_key_iff hi, ← not_lt, ← o.lt_key_iff hi]
  omega

/-- The rows before the first of key `t` are the newer ones. -/
theorem take_newer : o.list.take (newer key rows t) = o.list.filter fun r => t < key r := by
  have hsplit := List.take_append_drop (newer key rows t) o.list
  have htake : (o.list.take (newer key rows t)).filter (fun r => t < key r) =
      o.list.take (newer key rows t) := by
    rw [List.filter_eq_self]
    intro r hr
    obtain ⟨i, hi, rfl⟩ := List.mem_iff_getElem.1 hr
    rw [List.length_take] at hi
    rw [List.getElem_take, decide_eq_true_eq, o.lt_key_iff (by omega)]
    omega
  have hdrop : (o.list.drop (newer key rows t)).filter (fun r => t < key r) = [] := by
    rw [List.filter_eq_nil_iff]
    intro r hr
    obtain ⟨i, hi, rfl⟩ := List.mem_iff_getElem.1 hr
    rw [List.length_drop] at hi
    rw [List.getElem_drop, decide_eq_true_eq, o.lt_key_iff (by omega)]
    omega
  conv_rhs => rw [← hsplit, List.filter_append, htake, hdrop, List.append_nil]

/-- Two rows of one key exchanged. -/
theorem exists_swap (hn : rows.Nodup) {x y : ρ} (hx : x ∈ rows) (hy : y ∈ rows)
    (hxy : key x = key y) : ∃ o' : Descending key rows,
      ∀ (i : ℕ) (hi : i < o.list.length) (hi' : i < o'.list.length),
        o.list[i] = y → o'.list[i] = x := by
  classical
  have hkey : ∀ r, key (Equiv.swap x y r) = key r := fun r => by
    rw [Equiv.swap_apply_def]
    split_ifs with h h
    · rw [h, hxy]
    · rw [h, hxy]
    · rfl
  have hn' : (o.list.map (Equiv.swap x y)).Nodup :=
    (o.perm.nodup_iff.2 hn).map (Equiv.swap x y).injective
  have hmem : ∀ r, Equiv.swap x y r ∈ rows ↔ r ∈ rows := fun r => by
    rw [Equiv.swap_apply_def]
    split_ifs with h h
    · simp [h, hx, hy]
    · simp [h, hx, hy]
    · rfl
  refine ⟨⟨o.list.map (Equiv.swap x y), (List.perm_ext_iff_of_nodup hn' hn).2 fun r => ?_, ?_⟩, ?_⟩
  · rw [List.mem_map]
    constructor
    · rintro ⟨r', hr', rfl⟩
      exact (hmem r').2 (o.perm.mem_iff.1 hr')
    · intro hr
      exact ⟨Equiv.swap x y r, o.perm.mem_iff.2 ((hmem r).2 hr), Equiv.swap_apply_self ..⟩
  · rw [List.pairwise_map]
    simpa only [hkey] using o.sorted
  · intro i hi hi' h
    rw [List.getElem_map, h, Equiv.swap_apply_right]

end Descending

/-! ### The rows added last -/

/-- The first `n` rows of a list are each newer than all rows after them. -/
def Latest (key : ρ → ℤ) : ℕ → List ρ → Prop
  | 0, _ => True
  | _ + 1, [] => True
  | n + 1, r :: rest => (∀ r' ∈ rest, key r' < key r) ∧ Latest key n rest

instance Latest.decidable (key : ρ → ℤ) : (n : ℕ) → (rows : List ρ) → Decidable (Latest key n rows)
  | 0, _ => isTrue trivial
  | _ + 1, [] => isTrue trivial
  | n + 1, r :: rest =>
      have := Latest.decidable key n rest
      inferInstanceAs (Decidable ((∀ r' ∈ rest, key r' < key r) ∧ Latest key n rest))

/-- Rows newer than all after them come first in every order. -/
theorem take_eq_of_latest {n : ℕ} (h : Latest key n rows) (o : Descending key rows) :
    o.list.take n = rows.take n := by
  induction n generalizing rows with
  | zero => simp
  | succ n ih =>
      obtain ⟨list, perm, sorted⟩ := o
      cases rows with
      | nil => simp [perm.eq_nil]
      | cons r rest =>
          obtain ⟨hnew, hrest⟩ := h
          cases list with
          | nil => exact absurd perm.nil_eq (List.cons_ne_nil r rest).symm
          | cons x xs =>
              obtain ⟨hx, hxs⟩ := List.pairwise_cons.1 sorted
              have hhead : x = r := by
                rcases List.mem_cons.1 (perm.mem_iff.1 (List.mem_cons_self ..)) with he | hmem
                · exact he
                · rcases List.mem_cons.1 (perm.mem_iff.2 (List.mem_cons_self ..)) with he | hr
                  · exact he.symm
                  · exact absurd (hx r hr) (not_le.2 (hnew x hmem))
              subst hhead
              rw [List.take_succ_cons, List.take_succ_cons]
              exact congrArg _ (ih hrest ⟨xs, perm.cons_inv, hxs⟩)

/-- **The first `n` rows of every order are the first `n` of the list if and only if**
each of these is newer than all rows after it. -/
theorem take_eq_iff_latest {view : ρ → α} (hn : (rows.map view).Nodup) (n : ℕ) :
    (∀ o : Descending key rows, (o.list.take n).map view = (rows.take n).map view) ↔
      Latest key n rows := by
  refine ⟨fun h => ?_, fun h o => congrArg _ (take_eq_of_latest h o)⟩
  induction n generalizing rows with
  | zero => trivial
  | succ n ih =>
      cases rows with
      | nil => trivial
      | cons r rest =>
          have hnew : ∀ r' ∈ rest, key r' < key r := by
            intro r' hr'
            by_contra hle
            rw [not_lt] at hle
            have o := OrderBy.stable key (r :: rest)
            have hpos : ∀ o : Descending key (r :: rest), 0 < o.list.length := fun o => by
              rw [o.length_eq]
              exact Nat.succ_pos _
            have hfirst : ∀ (o : Descending key (r :: rest)) (hpos : 0 < o.list.length),
                o.list[0] = r := fun o hpos => by
              have hget := congrArg (fun l => l[0]?) (h o)
              simp only [List.getElem?_map, List.getElem?_take_of_lt (Nat.succ_pos n),
                List.getElem?_cons_zero, Option.map_some] at hget
              rw [List.getElem?_eq_getElem hpos, Option.map_some] at hget
              exact List.inj_on_of_nodup_map hn (o.perm.mem_iff.1 (List.getElem_mem _))
                (List.mem_cons_self ..) (Option.some.inj hget)
            -- the first row is not older than `r'`, so the two may be exchanged
            have hkey : key r' = key r := by
              refine le_antisymm ?_ hle
              obtain ⟨j, hj, hget⟩ := List.mem_iff_getElem.1
                (o.perm.mem_iff.2 (List.mem_cons_of_mem r hr'))
              rcases Nat.eq_zero_or_pos j with rfl | hj₀
              · rw [hfirst o (hpos o)] at hget
                exact le_of_eq (congrArg key hget.symm)
              · have hle := List.pairwise_iff_getElem.1 o.sorted 0 j (hpos o) hj hj₀
                rwa [hfirst o (hpos o), hget] at hle
            have hnodup : (r :: rest).Nodup := List.Nodup.of_map view hn
            obtain ⟨o', hswap⟩ := o.exists_swap hnodup (List.mem_cons_of_mem r hr')
              (List.mem_cons_self ..) hkey
            have hr := (hswap 0 (hpos o) (hpos o') (hfirst o (hpos o))).symm.trans
              (hfirst o' (hpos o'))
            exact (List.nodup_cons.1 hnodup).1 (hr ▸ hr')
          refine ⟨hnew, ih (List.nodup_cons.1 hn).2 fun o => ?_⟩
          have hcons := h ⟨r :: o.list, o.perm.cons r, List.pairwise_cons.2
            ⟨fun r' hr' => (hnew r' (o.perm.mem_iff.1 hr')).le, o.sorted⟩⟩
          rw [List.take_succ_cons, List.take_succ_cons] at hcons
          exact (List.cons.inj hcons).2

/-! ### Pages -/

/-- `LIMIT take OFFSET skip`. -/
def page (list : List ρ) (skip take : ℕ) : List ρ := (list.drop skip).take take

/-- What the first `n` pages of `l` rows give, the `k`th cut out of `lists k`. -/
def walked (lists : ℕ → List ρ) (l n : ℕ) : List ρ :=
  (List.range n).flatMap fun k => page (lists k) (k * l) l

theorem walked_succ (lists : ℕ → List ρ) (l n : ℕ) :
    walked lists l (n + 1) = walked lists l n ++ page (lists n) (n * l) l := by
  rw [walked, List.range_succ, List.flatMap_append, List.flatMap_singleton, walked]

/-- A page is empty from the number of rows on. -/
theorem page_eq_nil_iff (hl : 1 ≤ l) (list : List ρ) (skip : ℕ) :
    page list skip l = [] ↔ list.length ≤ skip := by
  rw [page, List.take_eq_nil_iff, List.drop_eq_nil_iff]
  omega

/-- A row is on the page its place is on. -/
theorem mem_page {list : List ρ} {i k : ℕ} (hi : i < list.length) (hk : k * l ≤ i)
    (hk' : i < (k + 1) * l) : list[i] ∈ page list (k * l) l := by
  have hlt : i - k * l < l := by
    rw [Nat.succ_mul] at hk'
    omega
  have hget : (page list (k * l) l)[i - k * l]? = some list[i] := by
    rw [page, List.getElem?_take_of_lt hlt, List.getElem?_drop, Nat.add_sub_cancel' hk,
      List.getElem?_eq_getElem hi]
  exact List.mem_of_getElem? hget

/-- A client that asks for page `k` and the pages after it has `rows` when the
first empty one comes. -/
inductive Collected (pages : ℕ → Except ε (List α)) : ℕ → List α → Prop
  | done {k : ℕ} (h : pages k = .ok []) : Collected pages k []
  | more {k : ℕ} {page rest : List α} (h : pages k = .ok page) (hne : page ≠ [])
      (hrest : Collected pages (k + 1) rest) : Collected pages k (page ++ rest)

namespace Collected

variable {pages : ℕ → Except ε (List α)} {k : ℕ} {all : List α}

/-- What was collected are the pages up to an empty one. -/
theorem exists_pages (h : Collected pages k all) : ∃ n, pages (k + n) = .ok [] ∧
    ∀ seg : ℕ → List α, (∀ j, pages j = .ok (seg j)) →
      all = (List.range' k n).flatMap seg := by
  induction h with
  | done h => exact ⟨0, h, fun seg _ => rfl⟩
  | @more k page rest h hne hrest ih =>
      obtain ⟨n, hn, hall⟩ := ih
      refine ⟨n + 1, by rwa [Nat.add_right_comm] at hn, fun seg hseg => ?_⟩
      have hpage : page = seg k := Except.ok.inj (h.symm.trans (hseg k))
      rw [List.range'_succ, List.flatMap_cons, ← hall seg hseg, hpage]

/-- Pages before the first empty one are collected. -/
theorem of_pages {seg : ℕ → List α} (hseg : ∀ j, pages j = .ok (seg j)) {n : ℕ}
    (hne : ∀ j < n, seg (k + j) ≠ []) (hn : seg (k + n) = []) :
    Collected pages k ((List.range' k n).flatMap seg) := by
  induction n generalizing k with
  | zero =>
      refine done ?_
      rw [hseg]
      exact congrArg _ hn
  | succ n ih =>
      rw [List.range'_succ, List.flatMap_cons]
      refine more (hseg k) (hne 0 (Nat.succ_pos n)) (ih (fun j hj => ?_) ?_)
      · rw [Nat.add_right_comm]
        exact hne (j + 1) (Nat.succ_lt_succ hj)
      · rw [Nat.add_right_comm]
        exact hn

end Collected

/-! ### Walking through the pages -/

/-- Two orders have the same rows on the pages before a page's end. -/
theorem take_perm (h : Together key rows l) (hl : 1 ≤ l) (o o' : Descending key rows) (k : ℕ) :
    (o.list.take (k * l)).Perm (o'.list.take (k * l)) := by
  rcases Nat.lt_or_ge (k * l) o.list.length with hlt | hge
  · -- the row after the end is the first of its key, in either order
    have hmem : o.list[k * l] ∈ rows := o.perm.mem_iff.1 (List.getElem_mem hlt)
    obtain ⟨hnewer, hold⟩ := (o.key_eq_iff hlt).1 rfl
    have htogether := h _ hmem
    have hfirst : newer key rows (key o.list[k * l]) = k * l := by
      refine le_antisymm hnewer ?_
      have hpage : k ≤ (notOlder key rows (key o.list[k * l]) - 1) / l := by
        rw [Nat.le_div_iff_mul_le hl]
        omega
      rw [← htogether, Nat.le_div_iff_mul_le hl] at hpage
      exact hpage
    have htake := o.take_newer (t := key o.list[k * l])
    have htake' := o'.take_newer (t := key o.list[k * l])
    rw [hfirst] at htake htake'
    rw [htake, htake']
    exact (o.perm.trans o'.perm.symm).filter _
  · have hge' : o'.list.length ≤ k * l := by rwa [o'.length_eq, ← o.length_eq]
    rw [List.take_of_length_le hge, List.take_of_length_le hge']
    exact o.perm.trans o'.perm.symm

/-- **Where rows of one key are together, the first `n` pages are the first rows of
any order.** -/
theorem walked_perm (h : Together key rows l) (hl : 1 ≤ l) (orders : ℕ → Descending key rows)
    (n : ℕ) (o : Descending key rows) :
    (walked (fun k => (orders k).list) l n).Perm (o.list.take (n * l)) := by
  induction n generalizing o with
  | zero => simp [walked]
  | succ n ih =>
      rw [walked_succ]
      have hnext : (orders n).list.take (n * l) ++ page (orders n).list (n * l) l =
          (orders n).list.take ((n + 1) * l) := by
        rw [page, Nat.succ_mul, List.take_add]
      exact ((ih (orders n)).append_right _).trans (hnext ▸ take_perm h hl (orders n) o (n + 1))

/-- Where rows of one key are not together, a page ends between two of them. -/
theorem exists_boundary (hl : 1 ≤ l) (h : ¬ Together key rows l) : ∃ t k,
    newer key rows t < (k + 1) * l ∧ (k + 1) * l < notOlder key rows t := by
  unfold Together at h
  push Not at h
  obtain ⟨r, hr, hne⟩ := h
  have hle : newer key rows (key r) ≤ notOlder key rows (key r) - 1 := by
    obtain ⟨i, hi, hget⟩ := List.mem_iff_getElem.1
      ((OrderBy.stable key rows).perm.mem_iff.2 hr)
    have hplace := ((OrderBy.stable key rows).key_eq_iff hi).1 (congrArg key hget)
    omega
  have hlt : newer key rows (key r) / l < (notOlder key rows (key r) - 1) / l :=
    lt_of_le_of_ne (Nat.div_le_div_right hle) hne
  obtain ⟨k, hk⟩ := Nat.exists_eq_succ_of_ne_zero (Nat.ne_zero_of_lt hlt)
  refine ⟨key r, k, ?_, ?_⟩
  · rw [hk, Nat.div_lt_iff_lt_mul hl] at hlt
    exact hlt
  · have hmul : (k + 1) * l ≤ notOlder key rows (key r) - 1 :=
      (Nat.le_div_iff_mul_le hl).1 (le_of_eq hk.symm)
    have hpos : 0 < (k + 1) * l := Nat.mul_pos (Nat.succ_pos k) hl
    omega

variable {view : ρ → α}

/-- Where rows of one key are together, every walk ends with each row once. -/
theorem collected_of_together (h : Together key rows l) (hl : 1 ≤ l) (sorts : ℕ → OrderBy key) :
    ∃ all, Collected (ε := ε) (fun k => .ok ((page (sorts k rows).list (k * l) l).map view)) 0 all ∧
      all.Perm (rows.map view) := by
  set seg : ℕ → List ρ := fun k => page (sorts k rows).list (k * l) l
  have hexists : ∃ n, seg n = [] := by
    refine ⟨rows.length, (page_eq_nil_iff hl _ _).2 ?_⟩
    rw [Descending.length_eq]
    exact Nat.le_mul_of_pos_right _ hl
  classical
  obtain ⟨hend, hbefore⟩ := (Nat.find_eq_iff hexists).1 rfl
  refine ⟨_, Collected.of_pages (n := Nat.find hexists) (fun j => rfl) (fun j hj => ?_) ?_, ?_⟩
  · rw [Nat.zero_add]
    exact mt List.map_eq_nil_iff.1 (hbefore j hj)
  · rw [Nat.zero_add]
    exact congrArg (List.map view) hend
  · have hwalked := walked_perm h hl (fun k => sorts k rows) (Nat.find hexists)
      (sorts (Nat.find hexists) rows)
    rw [List.take_of_length_le ((page_eq_nil_iff hl _ _).1 hend)] at hwalked
    rw [← List.range_eq_range', ← List.map_flatMap]
    exact (hwalked.trans (sorts _ rows).perm).map view

/-- Where they are not, a walk gives a row twice: the query for the page after the
end takes the order with the two rows exchanged. -/
theorem together_of_collected (hn : (rows.map view).Nodup) (hl : 1 ≤ l)
    (h : ∀ sorts : ℕ → OrderBy key, ∃ all,
      Collected (ε := ε) (fun k => .ok ((page (sorts k rows).list (k * l) l).map view)) 0 all ∧
        all.Perm (rows.map view)) :
    Together key rows l := by
  by_contra hsplit
  obtain ⟨t, k, hlo, hhi⟩ := exists_boundary hl hsplit
  have o := OrderBy.stable key rows
  have hlen : notOlder key rows t ≤ o.list.length := by
    rw [o.length_eq]
    exact List.countP_le_length
  have hi : (k + 1) * l - 1 < o.list.length := by omega
  have hi' : (k + 1) * l < o.list.length := by omega
  have hx : key o.list[(k + 1) * l - 1] = t := (o.key_eq_iff hi).2 (by omega)
  have hy : key o.list[(k + 1) * l] = t := (o.key_eq_iff hi').2 (by omega)
  obtain ⟨o', hswap⟩ := o.exists_swap (List.Nodup.of_map _ hn)
    (o.perm.mem_iff.1 (List.getElem_mem hi)) (o.perm.mem_iff.1 (List.getElem_mem hi'))
    (hx.trans hy.symm)
  obtain ⟨s, hs⟩ := OrderBy.exists_eq o
  obtain ⟨s', hs'⟩ := OrderBy.exists_eq o'
  obtain ⟨all, hall, hperm⟩ := h fun j => if j = k + 1 then s' else s
  obtain ⟨n, hend, hall⟩ := hall.exists_pages
  -- the walk has come past both pages
  have hnil := List.map_eq_nil_iff.1 (Except.ok.inj hend)
  rw [Nat.zero_add, page_eq_nil_iff hl, Descending.length_eq, ← o.length_eq] at hnil
  have hkn : k + 1 < n := lt_of_mul_lt_mul_right (lt_of_lt_of_le hi' hnil) (Nat.zero_le l)
  have hflat := hall _ fun j => rfl
  have hnodup := hperm.nodup_iff.2 hn
  rw [hflat, ← List.range_eq_range', List.nodup_flatMap, List.pairwise_iff_getElem] at hnodup
  have hdisjoint := hnodup.2 k (k + 1) (by simpa using Nat.lt_of_succ_lt hkn) (by simpa using hkn)
    (Nat.lt_succ_self k)
  simp only [Function.onFun, List.getElem_range, if_neg (Nat.succ_ne_self k).symm, if_true, hs,
    hs'] at hdisjoint
  -- and both have the row that was last on the first of them
  have hsucc : (k + 1) * l = k * l + l := Nat.succ_mul k l
  have hsucc' : (k + 1 + 1) * l = (k + 1) * l + l := Nat.succ_mul (k + 1) l
  have hlast : o.list[(k + 1) * l - 1] ∈ page o.list (k * l) l :=
    mem_page hi (by omega) (by omega)
  have hi'' : (k + 1) * l < o'.list.length := by rwa [o'.length_eq, ← o.length_eq]
  have hfirst : o'.list[(k + 1) * l] ∈ page o'.list ((k + 1) * l) l :=
    mem_page hi'' le_rfl (by omega)
  rw [hswap _ hi' hi'' rfl] at hfirst
  exact hdisjoint (List.mem_map_of_mem hlast) (List.mem_map_of_mem hfirst)

/-- **A walk gives each row once, whatever orders its queries take, if and only if
rows of one key are on one page.** -/
theorem complete_iff (hn : (rows.map view).Nodup) (hl : 1 ≤ l) :
    (∀ sorts : ℕ → OrderBy key, ∃ all,
      Collected (ε := ε) (fun k => .ok ((page (sorts k rows).list (k * l) l).map view)) 0 all ∧
        all.Perm (rows.map view)) ↔
      Together key rows l :=
  ⟨together_of_collected hn hl, fun h => collected_of_together h hl⟩

end Paging
end LedgerEngine
