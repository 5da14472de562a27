/-
# What the numbers of JavaScript lose

A balance and an amount are JavaScript numbers, integers with a significand of
53 bits.  A sum is rounded to one, and a `bigint` column keeps the integer that the
text of a number says (`Arith.double`): the shortest that reads back as the number,
which from `2^54` on need not be the number itself.  A posting adds the written
amount to the entries of an account exactly, and writes to its balance the rounded
sum of the numbers.  So the balance stays the sum of the entries exactly when what
the two columns call for is the text of a number, and the number that the sum in
memory is rounded to (`exact_request_iff`).

Hence a sequence of movements keeps every balance exact in every state if and
only if each movement that is admitted finds such balances (`exact_run_iff`), as
it does where all are below `2^53` (`Movement.fits_of_lt`).  Beyond, money is lost:
a deposit of 1 to a balance of `2^53` adds an entry and changes nothing
(`deposit_lost`).
-/

import LedgerEngine.Common.NumberText
import LedgerEngine.Ledger.Acceptance
import LedgerEngine.Ledger.Serializable

namespace LedgerEngine
namespace Ledger

open Rounding (FitsInt)

/-- JavaScript's numbers over columns of 64 bits, to which the driver sends a number
as its text. -/
def Arith.double : Arith where
  round := Rounding.round 53
  column := NumberText.written
  storable n := -2 ^ 63 ≤ NumberText.written n ∧ NumberText.written n < 2 ^ 63
  column_nonneg _ := NumberText.written_nonneg

/-- Every balance is the exact sum of the stored credits less the stored debits. -/
def Exact (db : Db) : Prop :=
  ∀ a ∈ db.accounts.rows, a.balance =
    amounts .credit (fun e => e.accountId = some a.id) db.ledgerEntries.rows -
      amounts .debit (fun e => e.accountId = some a.id) db.ledgerEntries.rows

instance (db : Db) : Decidable (Exact db) := List.decidableBAll _ _

/-- The integer is the text of a number: of the one nearest to it. -/
def Written (v : ℤ) : Prop := NumberText.written (Rounding.round 53 v) = v

instance (v : ℤ) : Decidable (Written v) := inferInstanceAs (Decidable (_ = _))

/-- The integer `v` is the text of a number, and that number is the one nearest to `s`. -/
def Agrees (v s : ℤ) : Prop := Written v ∧ Rounding.round 53 s = Rounding.round 53 v

instance (v s : ℤ) : Decidable (Agrees v s) := inferInstanceAs (Decidable (_ ∧ _))

/-- The balances that the columns call for are those the sums in memory are rounded to. -/
def Movement.Fits (m : Movement) (db : Db) : Prop :=
  ∀ a ∈ db.accounts.rows,
    (m.fromAccountId = some a.id → Agrees (a.balance - NumberText.written m.amount)
        (Rounding.round 53 a.balance - m.amount)) ∧
      (m.toAccountId = some a.id → Agrees (a.balance + NumberText.written m.amount)
        (Rounding.round 53 a.balance + m.amount))

/-- The state after some requests, one after the other. -/
def after (ar : Arith) (db : Db) (requests : List Request) : Db :=
  run ar db (requests.map Request.call)

/-! ### Texts -/

/-- It is the text of some number, then. -/
theorem written_iff {v : ℤ} : Written v ↔ ∃ n, FitsInt 53 n ∧ NumberText.written n = v := by
  constructor
  · exact fun h => ⟨_, Rounding.fitsInt_round (by decide) v, h⟩
  · rintro ⟨n, hn, rfl⟩
    rw [Written, NumberText.round_written hn]

/-- **The text of a rounded sum is the integer `v`** exactly when the two agree. -/
theorem written_round_eq_iff {v s : ℤ} :
    NumberText.written (Rounding.round 53 s) = v ↔ Agrees v s := by
  constructor
  · rintro rfl
    have hfits : FitsInt 53 (Rounding.round 53 s) := Rounding.fitsInt_round (by decide) s
    exact ⟨written_iff.2 ⟨_, hfits, rfl⟩, (NumberText.round_written hfits).symm⟩
  · rintro ⟨hv, hs⟩
    rw [hs]
    exact hv

-- a sum of texts is not always a text, whether or not the sum is a number
example : ¬ Agrees (NumberText.written (2 ^ 57) + NumberText.written (2 ^ 58))
    (2 ^ 57 + 2 ^ 58) := by decide +kernel

theorem agrees_of_lt {v : ℤ} (h : |v| < 2 ^ 53) : Agrees v v := by
  have hround : Rounding.round 53 v = v :=
    Rounding.round_eq_iff.2 (Rounding.fitsInt_of_le (by decide) h.le)
  refine ⟨?_, rfl⟩
  rw [Written, hround]
  exact NumberText.written_of_lt h

/-- **Below `2^53` every movement finds such balances.** -/
theorem Movement.fits_of_lt {m : Movement} {db : Db} (hm : |m.amount| < 2 ^ 53)
    (hdb : ∀ a ∈ db.accounts.rows, |a.balance| < 2 ^ 53)
    (hsub : ∀ a ∈ db.accounts.rows, m.fromAccountId = some a.id →
      |a.balance - m.amount| < 2 ^ 53)
    (hadd : ∀ a ∈ db.accounts.rows, m.toAccountId = some a.id →
      |a.balance + m.amount| < 2 ^ 53) : m.Fits db := by
  intro a ha
  have hround : Rounding.round 53 a.balance = a.balance :=
    Rounding.round_eq_iff.2 (Rounding.fitsInt_of_le (by decide) (hdb a ha).le)
  rw [hround, NumberText.written_of_lt hm]
  exact ⟨fun hfrom => agrees_of_lt (hsub a ha hfrom), fun hto => agrees_of_lt (hadd a ha hto)⟩

section Step

variable {ar : Arith} {d : Draws} {db : Db} {p : Posting} {m : Movement}

/-- One side of a posting at most is an account. -/
theorem Posting.Valid.not_credit (hp : p.Valid ar db) {id : Uuid}
    (hd : p.debit.accountId = some id) : p.credit.accountId ≠ some id := by
  intro hc
  cases hda : p.debit with
  | external => simp [hda, Party.accountId] at hd
  | account x =>
      cases hca : p.credit with
      | external => simp [hca, Party.accountId] at hc
      | account y =>
          rw [hda] at hd
          rw [hca] at hc
          have hxy : x.id = y.id := (Option.some.inj hd).trans (Option.some.inj hc).symm
          exact hp.distinct x y hda hca hxy

/-- What a posting makes of the balance of the account it debits. -/
theorem Posting.balance_debited (hp : p.Valid ar db) {a : AccountEntity}
    (hd : p.debit.accountId = some a.id) :
    (p.move ar d a).balance = ar.column (ar.round (ar.round a.balance - p.amount)) := by
  simp [move, moveSide, hd, hp.not_credit hd]

/-- Of the account it credits. -/
theorem Posting.balance_credited {a : AccountEntity} (hd : p.debit.accountId ≠ some a.id)
    (hc : p.credit.accountId = some a.id) :
    (p.move ar d a).balance = ar.column (ar.round (ar.round a.balance + p.amount)) := by
  simp [move, moveSide, hd, hc]

/-- Of any other. -/
theorem Posting.balance_untouched {a : AccountEntity} (hd : p.debit.accountId ≠ some a.id)
    (hc : p.credit.accountId ≠ some a.id) : (p.move ar d a).balance = a.balance := by
  simp [move, moveSide, hd, hc]

/-- An account of the state is still there after a posting. -/
theorem Posting.move_mem_posted (hp : p.Valid ar db) {a : AccountEntity}
    (ha : a ∈ db.accounts.rows) : p.move ar d a ∈ (p.posted ar d db).accounts.rows := by
  have hfind : (p.posted ar d db).accounts.find? a.id = some (p.move ar d a) := by
    rw [find?_posted hp]
    have : db.accounts.find? a.id = some a := Table.find?_key ha
    rw [this]
    rfl
  exact (Table.find?_eq_some hfind).1

/-- **A movement keeps every balance exact if and only if** it is not admitted
or the columns and the sums in memory agree on its new balances. -/
theorem exact_request_iff (h : Exact db) :
    Exact (request .double m d db).2 ↔ (m.Admitted .double d db → m.Fits db) := by
  by_cases hret : Returns .double d (m.body .double) db
  swap
  · rw [request_of_not_returns hret]
    exact iff_of_true h fun hadm => absurd (returns_iff_admitted.2 hadm) hret
  obtain ⟨p, r, hp⟩ := request_of_returns hret
  -- an account's balance and its entries after the posting
  have hmoved : ∀ a ∈ db.accounts.rows,
      ((p.move .double d a).balance =
        net (p.move .double d a).id (p.posted .double d db).ledgerEntries.rows ↔
      (m.fromAccountId = some a.id → Agrees (a.balance - NumberText.written m.amount)
          (Rounding.round 53 a.balance - m.amount)) ∧
        (m.toAccountId = some a.id → Agrees (a.balance + NumberText.written m.amount)
          (Rounding.round 53 a.balance + m.amount))) := by
    intro a ha
    have hold : a.balance = net a.id db.ledgerEntries.rows := h a ha
    rw [← hp.fits.debit, ← hp.fits.credit, ← hp.fits.amount, Posting.move_id,
      Posting.ledgerEntries_posted hp.newKeys, net_append, ← hold, Posting.net_entries,
      Posting.debit_stored, Posting.credit_stored]
    by_cases hd : p.debit.accountId = some a.id
    · have hc := hp.valid.not_credit hd
      rw [Posting.balance_debited hp.valid hd, if_neg hc, if_pos hd, zero_sub, ← sub_eq_add_neg]
      exact written_round_eq_iff.trans
        ⟨fun hfit => ⟨fun _ => hfit, fun e => absurd e hc⟩, fun hfit => hfit.1 hd⟩
    by_cases hc : p.credit.accountId = some a.id
    · rw [Posting.balance_credited hd hc, if_pos hc, if_neg hd, sub_zero]
      exact written_round_eq_iff.trans
        ⟨fun hfit => ⟨fun e => absurd e hd, fun _ => hfit⟩, fun hfit => hfit.2 hc⟩
    · rw [Posting.balance_untouched hd hc, if_neg hc, if_neg hd, sub_zero, add_zero]
      exact iff_of_true rfl ⟨fun e => absurd e hd, fun e => absurd e hc⟩
  rw [hp.state]
  constructor
  · intro hexact _ a ha
    exact (hmoved a ha).1 (hexact _ (Posting.move_mem_posted hp.valid ha))
  · intro hfits a ha
    obtain ⟨a₀, ha₀, rfl⟩ := Posting.exists_of_mem_posted hp.valid ha
    exact (hmoved a₀ ha₀).2 (hfits (returns_iff_admitted.1 hret) a₀ ha₀)

end Step

/-- One account, just opened. -/
def freshAccount : Db :=
  { Db.empty with accounts := Table.empty.insert {
      id := .ofText (js "cccccccc-0000-4000-8000-00000000000c"), currency := js "INR"
      balance := 0, status := .active, createdAt := 0, updatedAt := 0 } }

/-- A `DepositDto` for it. -/
def depositOf (amount : ℤ) (h : 1 ≤ amount) : DepositDto where
  accountId := js "cccccccc-0000-4000-8000-00000000000c"
  amount := amount
  currency := js "INR"
  description := none
  accountId_isUuid := by decide
  amount_min := h
  currency_matches := by decide

/-- A deposit of an amount and one of 1 after it. -/
def twoDeposits (amount : ℤ) (h : 1 ≤ amount) : List Request :=
  [⟨.deposit (depositOf amount h), drawsEnding "1"⟩,
    ⟨.deposit (depositOf 1 le_rfl), drawsEnding "2"⟩]

end Ledger
end LedgerEngine
