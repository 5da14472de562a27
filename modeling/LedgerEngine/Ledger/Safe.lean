/-
# Safe balances

The balances are JavaScript numbers: below `2^53` a result is exact and is written as it
is, and a larger one is rounded and written as another, but never as less than `2^53`
(`Arith.Precise`).  So while no balance has got there, none has ever been rounded, and the
ledger is what it would be with exact integers (`Safe.serve`).
-/

import LedgerEngine.Ledger.Precision

namespace LedgerEngine

namespace Ledger

/-- Below the limit results and texts are exact, and none that reaches it is rounded or
written below it. -/
structure Arith.Precise (ar : Arith) (limit : ℤ) : Prop where
  below : ∀ n, 0 ≤ n → n < limit → ar.round n = n
  reaches : ∀ n, limit ≤ n → limit ≤ ar.round n
  column_below : ∀ n, 0 ≤ n → n < limit → ar.column n = n
  column_reaches : ∀ n, limit ≤ n → limit ≤ ar.column n

/-- **JavaScript's numbers are precise below `2^53`.** -/
theorem precise_double : Arith.double.Precise (2 ^ 53) where
  below n hn hlt := by
    refine Rounding.round_eq_iff.2 (Rounding.fitsInt_of_le (by omega) ?_)
    rw [abs_of_nonneg hn]
    exact hlt.le
  reaches n hn := Rounding.le_round (by omega) hn
  column_below n hn hlt := NumberText.written_of_lt (by rwa [abs_of_nonneg hn])
  column_reaches n hn := NumberText.le_written hn

/-- Every balance is below the limit. -/
def AllBelow (limit : ℤ) (db : Db) : Prop := ∀ a ∈ db.accounts.rows, a.balance < limit

instance (limit : ℤ) (db : Db) : Decidable (AllBelow limit db) := List.decidableBAll _ _

/-- The ledger is sound, and each amount in it below the limit. -/
structure Safe (limit : ℤ) (db : Db) : Prop extends Sound db where
  amounts : ∀ e ∈ db.ledgerEntries.rows, 0 ≤ e.amount ∧ e.amount < limit

theorem safe_empty (limit : ℤ) : Safe limit .empty :=
  ⟨sound_empty, fun _ h => absurd h List.not_mem_nil⟩

section Safe

variable {ar : Arith} {limit : ℤ} {db : Db} {p : Posting} {d : Draws}

/-- A balance below the limit is read as it is. -/
theorem read_eq_self (har : ar.Precise limit) (hdb : Safe limit db) (hbelow : AllBelow limit db)
    {a : AccountEntity} (ha : a ∈ db.accounts.rows) : Posting.read ar a = a := by
  have hround : ar.round a.balance = a.balance := har.below _ (hdb.nonneg a ha) (hbelow a ha)
  unfold Posting.read
  rw [hround]

theorem Posting.Reads.row (har : ar.Precise limit) (hdb : Safe limit db)
    (hbelow : AllBelow limit db) {a : AccountEntity} (h : p.Reads ar db (.account a)) :
    a ∈ db.accounts.rows ∧ a.status = .active ∧ a.currency = p.currency := by
  obtain ⟨row, hrow, hread, hstatus, hcurrency⟩ := h a rfl
  obtain ⟨hmem, -⟩ := Table.find?_eq_some hrow
  rw [read_eq_self har hdb hbelow hmem] at hread
  exact ⟨hread ▸ hmem, hstatus, hcurrency⟩

theorem Posting.Reads.exact (har : ar.Precise limit) (hdb : Safe limit db)
    (hbelow : AllBelow limit db) {party : Party} (h : p.Reads ar db party) (storable : ℤ → Bool) :
    p.Reads (.exact storable) db party := by
  rintro a rfl
  obtain ⟨hmem, hstatus, hcurrency⟩ := h.row har hdb hbelow
  exact ⟨a, Table.find?_key hmem, rfl, hstatus, hcurrency⟩

/-- **What the services have checked with rounded numbers holds of the exact ones.** -/
theorem Posting.Valid.exact (har : ar.Precise limit) (hdb : Safe limit db)
    (hbelow : AllBelow limit db) (hp : p.Valid ar db) (storable : ℤ → Bool) :
    p.Valid (.exact storable) db :=
  { hp with
    debit_reads := hp.debit_reads.exact har hdb hbelow storable
    credit_reads := hp.credit_reads.exact har hdb hbelow storable }

/-- The new balance of the account that is credited. -/
theorem Posting.Valid.credited_lt (har : ar.Precise limit) (hdb : Safe limit db)
    (hbelow : AllBelow limit db) (hp : p.Valid ar db) (hposted : AllBelow limit (p.posted ar d db))
    {b : AccountEntity} (hb : p.credit = .account b) : b.balance + p.amount < limit := by
  have hreads : p.Reads ar db (.account b) := hb ▸ hp.credit_reads
  obtain ⟨hmem, -⟩ := hreads.row har hdb hbelow
  have hcredit : p.credit.accountId = some b.id := by rw [hb]; rfl
  have hdebit : p.debit.accountId ≠ some b.id := fun h => hp.not_credit h hcredit
  have hnew := hposted _ (Posting.move_mem_posted hp hmem)
  have hround : ar.round b.balance = b.balance := har.below _ (hdb.nonneg b hmem) (hbelow b hmem)
  rw [Posting.balance_credited hdebit hcredit, hround] at hnew
  by_contra hge
  have := har.column_reaches _ (har.reaches _ (not_lt.1 hge))
  omega

/-- The exact new balance of each side that is an account is below the limit. -/
theorem Posting.Valid.newBalances (har : ar.Precise limit) (hdb : Safe limit db)
    (hbelow : AllBelow limit db) (hp : p.Valid ar db)
    (hposted : AllBelow limit (p.posted ar d db)) :
    (∀ a, p.debit = .account a → 0 ≤ a.balance - p.amount ∧ a.balance - p.amount < limit) ∧
      ∀ b, p.credit = .account b → 0 ≤ b.balance + p.amount ∧ b.balance + p.amount < limit := by
  have hmin := hp.amount_min
  refine ⟨fun a ha => ?_, fun b hb => ?_⟩
  · have hreads : p.Reads ar db (.account a) := ha ▸ hp.debit_reads
    have hlt := hbelow a (hreads.row har hdb hbelow).1
    have hfunds := hp.funds a ha
    omega
  · have hreads : p.Reads ar db (.account b) := hb ▸ hp.credit_reads
    have hnonneg := hdb.nonneg b (hreads.row har hdb hbelow).1
    have hlt := hp.credited_lt har hdb hbelow hposted hb
    omega

/-- **No new balance was rounded** if none has reached the limit. -/
theorem Posting.Valid.accounts_eq (har : ar.Precise limit) (hdb : Safe limit db)
    (hbelow : AllBelow limit db) (hp : p.Valid ar db) (hposted : AllBelow limit (p.posted ar d db))
    (storable : ℤ → Bool) : p.accounts ar = p.accounts (.exact storable) := by
  obtain ⟨hdebited, hcredited⟩ := hp.newBalances har hdb hbelow hposted
  have hdebit : p.debit.withBalance (fun b => ar.round (b - p.amount)) =
      p.debit.withBalance fun b => b - p.amount := by
    cases ha : p.debit with
    | external => rfl
    | account a =>
        have hround : ar.round (a.balance - p.amount) = a.balance - p.amount :=
          har.below _ (hdebited a ha).1 (hdebited a ha).2
        simp only [Party.withBalance, hround]
  have hcredit : p.credit.withBalance (fun b => ar.round (b + p.amount)) =
      p.credit.withBalance fun b => b + p.amount := by
    cases hb : p.credit with
    | external => rfl
    | account b =>
        have hround : ar.round (b.balance + p.amount) = b.balance + p.amount :=
          har.below _ (hcredited b hb).1 (hcredited b hb).2
        simp only [Party.withBalance, hround]
  unfold Posting.accounts
  rw [hdebit, hcredit]
  rfl

/-- None was written as another number. -/
theorem Posting.Valid.column_accounts (har : ar.Precise limit) (hdb : Safe limit db)
    (hbelow : AllBelow limit db) (hp : p.Valid ar db) (hposted : AllBelow limit (p.posted ar d db))
    {a : AccountEntity} (ha : a ∈ p.accounts ar) : ar.column a.balance = a.balance := by
  obtain ⟨hdebited, hcredited⟩ := hp.newBalances har hdb hbelow hposted
  rw [hp.accounts_eq har hdb hbelow hposted fun _ => true] at ha
  rcases List.mem_append.1 ha with ha | ha
  · cases hd : p.debit with
    | external => simp [hd, Party.withBalance] at ha
    | account x =>
        rw [hd, Party.withBalance, List.mem_singleton] at ha
        subst ha
        exact har.column_below _ (hdebited x hd).1 (hdebited x hd).2
  · cases hc : p.credit with
    | external => simp [hc, Party.withBalance] at ha
    | account x =>
        rw [hc, Party.withBalance, List.mem_singleton] at ha
        subst ha
        exact har.column_below _ (hcredited x hc).1 (hcredited x hc).2

/-- The amount of a posting is below the limit: an account has it before or after. -/
theorem Posting.Valid.amount_lt (har : ar.Precise limit) (hdb : Safe limit db)
    (hbelow : AllBelow limit db) (hp : p.Valid ar db)
    (hposted : AllBelow limit (p.posted ar d db)) : p.amount < limit := by
  cases ha : p.debit with
  | account a =>
      have hreads : p.Reads ar db (.account a) := ha ▸ hp.debit_reads
      have hlt := hbelow a (hreads.row har hdb hbelow).1
      have hfunds := hp.funds a ha
      omega
  | external =>
      have hcredit : ∃ b, p.credit = .account b := by
        have hshape := hp.shape
        cases htype : p.type with
        | deposit =>
            rw [Posting.Shaped, htype] at hshape
            exact hshape.2
        | withdrawal =>
            rw [Posting.Shaped, htype] at hshape
            obtain ⟨⟨a, h⟩, -⟩ := hshape
            rw [ha] at h
            cases h
        | transfer =>
            rw [Posting.Shaped, htype] at hshape
            exact hshape.2
      obtain ⟨b, hb⟩ := hcredit
      have hreads : p.Reads ar db (.account b) := hb ▸ hp.credit_reads
      have hnonneg := hdb.nonneg b (hreads.row har hdb hbelow).1
      have hlt := hp.credited_lt har hdb hbelow hposted hb
      omega

/-- **The state is the one exact integers give.** -/
theorem Posting.Valid.posted_eq (har : ar.Precise limit) (hdb : Safe limit db)
    (hbelow : AllBelow limit db) (hp : p.Valid ar db)
    (hposted : AllBelow limit (p.posted ar d db)) :
    p.posted ar d db = p.posted (.exact fun _ => true) d db := by
  have hmin := hp.amount_min
  have hamount : ar.column p.amount = p.amount :=
    har.column_below _ (by omega) (hp.amount_lt har hdb hbelow hposted)
  have hstored : p.stored ar = p := by rw [Posting.stored, hamount]
  have haccounts : (p.accounts ar).foldl
      (fun t a => t.put (storedAccount ar { a with updatedAt := d.startedAt })) db.accounts =
        (p.accounts ar).foldl (fun t a => t.put { a with updatedAt := d.startedAt }) db.accounts :=
    List.foldl_ext _ _ _ fun t a ha => by
      rw [storedAccount, hp.column_accounts har hdb hbelow hposted ha]
  unfold Posting.posted
  rw [haccounts, hstored, hp.accounts_eq har hdb hbelow hposted fun _ => true]
  rfl

theorem Safe.posted (har : ar.Precise limit) (hdb : Safe limit db) (hbelow : AllBelow limit db)
    (hp : p.Valid ar db) (hk : p.NewKeys db d) (hposted : AllBelow limit (p.posted ar d db)) :
    Safe limit (p.posted ar d db) := by
  have hsame := hp.posted_eq har hdb hbelow hposted
  refine ⟨?_, fun e he => ?_⟩
  · rw [hsame]
    exact hdb.toSound.posted (hp.exact har hdb hbelow _) hk
  · rw [hsame, Posting.ledgerEntries_posted hk, Posting.stored_exact] at he
    rcases List.mem_append.1 he with he | he
    · exact hdb.amounts e he
    · have hmin := hp.amount_min
      have hlt := hp.amount_lt har hdb hbelow hposted
      obtain ⟨i, rfl | rfl⟩ := Posting.exists_of_mem_entries he
      · exact ⟨by show 0 ≤ p.amount; omega, hlt⟩
      · exact ⟨by show 0 ≤ p.amount; omega, hlt⟩

/-- **A request that leaves every balance below the limit has rounded none.** -/
theorem Safe.serve (har : ar.Precise limit) (hdb : Safe limit db) (hbelow : AllBelow limit db)
    (call : Call) (hserved : AllBelow limit (serve ar call db).2) :
    Safe limit (serve ar call db).2 := by
  have hs := serve_cases ar call db
  cases hr : Ledger.serve ar call db with
  | mk answer db' =>
      rw [hr] at hs hserved
      cases hs with
      | failed => exact hdb
      | opened _ _ hid => exact ⟨hdb.toSound.open _ _ hid, hdb.amounts⟩
      | moved _ hacc =>
          have hstate := hacc.state
          change AllBelow limit db' at hserved
          subst hstate
          exact hdb.posted har hbelow hacc.valid hacc.newKeys hserved

end Safe

end Ledger
end LedgerEngine
