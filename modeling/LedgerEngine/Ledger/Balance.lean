/-
# Balances are the sums of their ledger entries

With exact integers, the balance of every account is the sum of its credit
entries less the sum of its debit entries, no balance is negative, an account's
entries are in its currency, and for each currency the money inside is what the
external settlement entries say came in (`Balanced`, `balanced_run`).

One posting moves a balance and the entries of the account together
(`Posting.find?_posted`, `Posting.net_entries`), so the difference of the two
never changes, whatever it was: `gap_posted` is that step for any state, and the
same lemma gives concurrent histories their balance.  The currencies need the
accounts an entry names to exist, which the induction carries (`Sound`).
-/

import LedgerEngine.Ledger.Posting
import Mathlib.Tactic.Linarith

namespace LedgerEngine
namespace Ledger

/-! ### Sums over the tables -/

/-- The amounts of the entries of one type that satisfy `P`. -/
def amounts (type : LedgerEntryType) (P : LedgerEntryEntity → Prop) [DecidablePred P]
    (es : List LedgerEntryEntity) : ℤ :=
  ((es.filter fun e => e.entryType = type ∧ P e).map LedgerEntryEntity.amount).sum

/-- The credit entries of an account less its debit entries. -/
def net (accountId : Uuid) (es : List LedgerEntryEntity) : ℤ :=
  amounts .credit (fun e => e.accountId = some accountId) es -
    amounts .debit (fun e => e.accountId = some accountId) es

/-- The debit entries of the external settlement account in a currency less its
credit entries. -/
def settled (currency : JsString) (es : List LedgerEntryEntity) : ℤ :=
  amounts .debit (fun e => e.ledgerAccount = some externalSettlement ∧ e.currency = currency) es -
    amounts .credit (fun e => e.ledgerAccount = some externalSettlement ∧ e.currency = currency) es

/-- The balances of the accounts in a currency. -/
def funds (currency : JsString) (accounts : List AccountEntity) : ℤ :=
  ((accounts.filter fun a => a.currency = currency).map AccountEntity.balance).sum

@[simp] theorem amounts_append (type : LedgerEntryType) (P : LedgerEntryEntity → Prop)
    [DecidablePred P] (es es' : List LedgerEntryEntity) :
    amounts type P (es ++ es') = amounts type P es + amounts type P es' := by
  simp [amounts]

@[simp] theorem net_append (accountId : Uuid) (es es' : List LedgerEntryEntity) :
    net accountId (es ++ es') = net accountId es + net accountId es' := by
  simp only [net, amounts_append]
  ring

@[simp] theorem settled_append (currency : JsString) (es es' : List LedgerEntryEntity) :
    settled currency (es ++ es') = settled currency es + settled currency es' := by
  simp only [settled, amounts_append]
  ring

theorem net_eq_zero {accountId : Uuid} {es : List LedgerEntryEntity}
    (h : ∀ e ∈ es, e.accountId ≠ some accountId) : net accountId es = 0 := by
  have hnil : ∀ type, (es.filter fun e => e.entryType = type ∧ e.accountId = some accountId) = [] :=
    fun type => List.filter_eq_nil_iff.2 fun e he => by simp [h e he]
  rw [net, amounts, amounts, hnil, hnil]
  rfl

/-- A sum over some of the rows as a sum over all of them. -/
theorem funds_eq_sum (currency : JsString) (accounts : List AccountEntity) :
    funds currency accounts =
      (accounts.map fun a => if a.currency = currency then a.balance else 0).sum := by
  unfold funds
  induction accounts with
  | nil => rfl
  | cons a accounts ih =>
      rw [List.filter_cons, List.map_cons, List.sum_cons, ← ih]
      by_cases h : a.currency = currency <;> simp [h]

/-! ### What a posting does to the tables -/

/-- The amount, if the party is an account in the currency. -/
def Party.inside (currency : JsString) (amount : ℤ) : Party → ℤ
  | .account a => if a.currency = currency then amount else 0
  | .external => 0

/-- The amount, if the party is the world outside. -/
def Party.outside (amount : ℤ) : Party → ℤ
  | .account _ => 0
  | .external => amount

namespace Posting

variable {ar : Arith} {d : Draws} {db : Db} {p : Posting}

/-- What one side of a posting makes of an account: its own row is read, changed and
written, any other stays. -/
def moveSide (ar : Arith) (d : Draws) (party : Party) (balance : ℤ → ℤ) (a : AccountEntity) :
    AccountEntity :=
  if party.accountId = some a.id then
    { a with balance := ar.column (balance (ar.round a.balance)), updatedAt := d.startedAt }
  else a

/-- What a posting makes of an account. -/
def move (ar : Arith) (p : Posting) (d : Draws) (a : AccountEntity) : AccountEntity :=
  moveSide ar d p.credit (fun b => ar.round (b + p.amount))
    (moveSide ar d p.debit (fun b => ar.round (b - p.amount)) a)

@[simp] theorem moveSide_id (party : Party) (f : ℤ → ℤ) (a : AccountEntity) :
    (moveSide ar d party f a).id = a.id := by
  unfold moveSide
  split_ifs <;> rfl

@[simp] theorem moveSide_currency (party : Party) (f : ℤ → ℤ) (a : AccountEntity) :
    (moveSide ar d party f a).currency = a.currency := by
  unfold moveSide
  split_ifs <;> rfl

@[simp] theorem move_id (a : AccountEntity) : (p.move ar d a).id = a.id := by simp [move]

@[simp] theorem move_currency (a : AccountEntity) : (p.move ar d a).currency = a.currency := by
  simp [move]

theorem Reads.find? {party : Party} (h : p.Reads ar db party) {id : Uuid}
    (hid : party.accountId = some id) : ∃ row, db.accounts.find? id = some row ∧
      party = .account (read ar row) ∧ row.currency = p.currency := by
  cases party with
  | external => simp [Party.accountId] at hid
  | account a =>
      obtain rfl : a.id = id := Option.some.inj hid
      obtain ⟨row, hrow, rfl, -, hc⟩ := h a rfl
      exact ⟨row, hrow, rfl, hc⟩

/-- One side of a posting saved, a side that was read from the table itself. -/
def saveSide (ar : Arith) (d : Draws) (party : Party) (balance : ℤ → ℤ)
    (t : Table AccountEntity) : Table AccountEntity :=
  (party.withBalance balance).foldl
    (fun t a => t.put (storedAccount ar { a with updatedAt := d.startedAt })) t

theorem accounts_posted : (p.posted ar d db).accounts =
    saveSide ar d p.credit (fun b => ar.round (b + p.amount))
      (saveSide ar d p.debit (fun b => ar.round (b - p.amount)) db.accounts) :=
  List.foldl_append

/-- The side's account is a row of the table, as a locked read gives it. -/
def Held (ar : Arith) (t : Table AccountEntity) (party : Party) : Prop :=
  ∀ a, party = .account a → ∃ row, t.find? a.id = some row ∧ a = read ar row

theorem find?_saveSide {t : Table AccountEntity} {party : Party} (h : Held ar t party)
    (f : ℤ → ℤ) (id : Uuid) :
    (saveSide ar d party f t).find? id = (t.find? id).map (moveSide ar d party f) := by
  cases party with
  | external => cases ht : t.find? id <;> exact ht
  | account a =>
      obtain ⟨row, hrow, rfl⟩ := h a rfl
      simp only [saveSide, Party.withBalance, storedAccount, List.foldl_cons, List.foldl_nil,
        Table.find?_put, AccountEntity.key_eq]
      by_cases hid : (read ar row).id = id
      · subst hid
        rw [if_pos rfl, hrow]
        simp [moveSide, Party.accountId, read]
      · rw [if_neg hid]
        cases hx : t.find? id with
        | none => rfl
        | some x =>
            have hne : (read ar row).id ≠ x.id := fun e => hid (e.trans (Table.find?_eq_some hx).2)
            simp [moveSide, Party.accountId, hne]

theorem Valid.held_debit (hp : p.Valid ar db) : Held ar db.accounts p.debit := fun a ha => by
  obtain ⟨row, hrow, hread, -⟩ := hp.debit_reads a ha
  exact ⟨row, hrow, hread⟩

/-- Saving the debited side leaves the credited one as it was read. -/
theorem Valid.held_credit (hp : p.Valid ar db) (f : ℤ → ℤ) :
    Held ar (saveSide ar d p.debit f db.accounts) p.credit := fun b hb => by
  obtain ⟨row, hrow, hread, -⟩ := hp.credit_reads b hb
  have hid : row.id = b.id := (Table.find?_eq_some hrow).2
  have hne : p.debit.accountId ≠ some row.id := fun h => by
    cases hd : p.debit with
    | external => simp [hd, Party.accountId] at h
    | account a =>
        rw [hd] at h
        exact hp.distinct a b hd hb ((Option.some.inj h).trans hid)
  refine ⟨row, ?_, hread⟩
  rw [find?_saveSide hp.held_debit, hrow, Option.map_some, moveSide, if_neg hne]

/-- **The accounts after a posting**, looked up one by one. -/
theorem find?_posted (hp : p.Valid ar db) (id : Uuid) :
    (p.posted ar d db).accounts.find? id = (db.accounts.find? id).map (p.move ar d) := by
  rw [accounts_posted, find?_saveSide (hp.held_credit _), find?_saveSide hp.held_debit,
    Option.map_map]
  rfl

/-- An account after a posting was an account before. -/
theorem exists_of_mem_posted (hp : p.Valid ar db) {a : AccountEntity}
    (h : a ∈ (p.posted ar d db).accounts.rows) :
    ∃ a₀ ∈ db.accounts.rows, a = p.move ar d a₀ := by
  have hf := Table.find?_key h
  rw [AccountEntity.key_eq, find?_posted hp, Option.map_eq_some_iff] at hf
  obtain ⟨a₀, h₀, rfl⟩ := hf
  exact ⟨a₀, (Table.find?_eq_some h₀).1, rfl⟩

/-- An entry of a posting is in its currency, and on an account in that currency
if it is on an account. -/
theorem Valid.account_of_mem_entries (hp : p.Valid ar db) {e : LedgerEntryEntity}
    (h : e ∈ (p.stored ar).entries d) : e.currency = p.currency ∧ ∀ id, e.accountId = some id →
      ∃ row, db.accounts.find? id = some row ∧ row.currency = p.currency := by
  obtain ⟨i, rfl | rfl⟩ := exists_of_mem_entries h
  · refine ⟨rfl, fun id hid => ?_⟩
    obtain ⟨row, hrow, -, hc⟩ := hp.debit_reads.find? hid
    exact ⟨row, hrow, hc⟩
  · refine ⟨rfl, fun id hid => ?_⟩
    obtain ⟨row, hrow, -, hc⟩ := hp.credit_reads.find? hid
    exact ⟨row, hrow, hc⟩

/-- What the entries of a posting add to an account. -/
theorem net_entries (id : Uuid) :
    net id (p.entries d) = (if p.credit.accountId = some id then p.amount else 0) -
      if p.debit.accountId = some id then p.amount else 0 := by
  cases ht : p.type <;> by_cases hc : p.credit.accountId = some id <;>
    by_cases hd : p.debit.accountId = some id <;>
    simp [net, amounts, entries, newEntries, entryRows, NewLedgerEntry.row, leg, ht, hc, hd]

/-- **No posting overdraws an account**: the debited side had the funds, and a
rounding that keeps the sign of a number does not lose them. -/
theorem Valid.nonneg_move (har : ∀ n, 0 ≤ n → 0 ≤ ar.round n) (hp : p.Valid ar db)
    {a : AccountEntity} (ha : a ∈ db.accounts.rows) (hb : 0 ≤ a.balance) :
    0 ≤ (p.move ar d a).balance := by
  have hmin := hp.amount_min
  have hdebit : 0 ≤ (moveSide ar d p.debit (fun b => ar.round (b - p.amount)) a).balance := by
    unfold moveSide
    split_ifs with hd
    · obtain ⟨row, hrow, hread, -⟩ := hp.debit_reads.find? hd
      obtain rfl := Option.some.inj ((Table.find?_key ha).symm.trans hrow)
      have hfunds : p.amount ≤ ar.round a.balance := hp.funds _ hread
      exact ar.column_nonneg _ (har _ (by linarith))
    · exact hb
  unfold move
  rw [moveSide]
  split_ifs
  · have := har _ hdebit
    exact ar.column_nonneg _ (har _ (by linarith))
  · exact hdebit

/-- No balance of the accounts is negative. -/
theorem Valid.nonneg_posted (har : ∀ n, 0 ≤ n → 0 ≤ ar.round n) (hp : p.Valid ar db)
    (h : ∀ a ∈ db.accounts.rows, 0 ≤ a.balance) :
    ∀ a ∈ (p.posted ar d db).accounts.rows, 0 ≤ a.balance := fun a ha => by
  obtain ⟨a₀, h₀, rfl⟩ := exists_of_mem_posted hp ha
  exact hp.nonneg_move har h₀ (h a₀ h₀)

/-- What the entries of a posting add to the external settlement account. -/
theorem settled_entries (currency : JsString) :
    settled currency (p.entries d) =
      if p.currency = currency then p.debit.outside p.amount - p.credit.outside p.amount
      else 0 := by
  cases ht : p.type <;> cases hc : p.credit <;> cases hd : p.debit <;>
    by_cases hcur : p.currency = currency <;>
    simp [settled, amounts, entries, newEntries, entryRows, NewLedgerEntry.row, leg,
      Party.ledgerAccount, Party.outside, ht, hc, hd, hcur]

/-! ### With exact arithmetic -/

variable {storable : ℤ → Bool}

theorem read_exact (a : AccountEntity) : read (.exact storable) a = a := rfl

/-- What a posting does to a balance is what its entries add to the account. -/
theorem balance_move (a : AccountEntity) :
    (p.move (.exact storable) d a).balance = a.balance + net a.id (p.entries d) := by
  rw [net_entries]
  unfold move
  by_cases hd : p.debit.accountId = some a.id <;> by_cases hc : p.credit.accountId = some a.id <;>
    simp [moveSide, hd, hc]
  ring

/-- What saving one side does to the balances in a currency. -/
theorem funds_saveSide {t : Table AccountEntity} {party : Party}
    (h : Held (.exact storable) t party) (delta : ℤ) (currency : JsString) :
    funds currency (saveSide (.exact storable) d party (fun b => b + delta) t).rows =
      funds currency t.rows + party.inside currency delta := by
  cases party with
  | external => simp [saveSide, Party.withBalance, Party.inside]
  | account a =>
      obtain ⟨row, hrow, rfl⟩ := h a rfl
      have hkey : Keyed.key row = Keyed.key
        { row with balance := row.balance + delta, updatedAt := d.startedAt } := rfl
      have hstored : storedAccount (.exact storable)
          { row with balance := row.balance + delta, updatedAt := d.startedAt } =
          { row with balance := row.balance + delta, updatedAt := d.startedAt } := rfl
      rw [read_exact, saveSide, Party.withBalance, List.foldl_cons, List.foldl_nil, hstored,
        funds_eq_sum, funds_eq_sum, Table.sum_put (Table.find?_eq_some hrow).1 hkey]
      by_cases hc : row.currency = currency
      · simp only [hc, Party.inside, if_true]
        ring
      · simp [hc, Party.inside]

/-- **The money inside a currency moves with the external settlement entries.** -/
theorem funds_posted (hp : p.Valid (.exact storable) db) (currency : JsString) :
    funds currency (p.posted (.exact storable) d db).accounts.rows =
      funds currency db.accounts.rows + settled currency (p.entries d) := by
  rw [accounts_posted, settled_entries]
  simp only [Arith.round_exact, sub_eq_add_neg]
  rw [funds_saveSide (hp.held_credit _), funds_saveSide hp.held_debit]
  have hdc : ∀ a, p.debit = .account a → a.currency = p.currency := fun a ha => by
    obtain ⟨row, -, -, -, hc⟩ := hp.debit_reads a ha
    exact hc
  have hcc : ∀ b, p.credit = .account b → b.currency = p.currency := fun b hb => by
    obtain ⟨row, -, -, -, hc⟩ := hp.credit_reads b hb
    exact hc
  have hshape := hp.shape
  cases ht : p.type with
  | deposit =>
      rw [Shaped, ht] at hshape
      obtain ⟨hd, b, hb⟩ := hshape
      simp [Party.inside, Party.outside, hd, hb, hcc b hb]
  | withdrawal =>
      rw [Shaped, ht] at hshape
      obtain ⟨⟨a, ha⟩, hc⟩ := hshape
      by_cases h : p.currency = currency <;>
        simp [Party.inside, Party.outside, ha, hc, hdc a ha, h]
  | transfer =>
      rw [Shaped, ht] at hshape
      obtain ⟨⟨a, ha⟩, b, hb⟩ := hshape
      by_cases h : p.currency = currency <;>
        simp [Party.inside, Party.outside, ha, hb, hdc a ha, hcc b hb, h]

end Posting

/-! ### The invariant -/

/-- Balances, entries and currencies agree. -/
structure Balanced (db : Db) : Prop where
  /-- A balance is the sum of the account's credit entries less its debit entries. -/
  balance : ∀ a ∈ db.accounts.rows, a.balance =
    amounts .credit (fun e => e.accountId = some a.id) db.ledgerEntries.rows -
      amounts .debit (fun e => e.accountId = some a.id) db.ledgerEntries.rows
  nonneg : ∀ a ∈ db.accounts.rows, 0 ≤ a.balance
  currency : ∀ e ∈ db.ledgerEntries.rows, ∀ a ∈ db.accounts.rows,
    e.accountId = some a.id → e.currency = a.currency
  /-- The money inside is what came in from outside. -/
  external : ∀ currency, funds currency db.accounts.rows = settled currency db.ledgerEntries.rows

/-- `Balanced`, and every entry is on an account that exists. -/
structure Sound (db : Db) : Prop extends Balanced db where
  references : ∀ e ∈ db.ledgerEntries.rows, ∀ id, e.accountId = some id →
    (db.accounts.find? id).isSome

/-- Every entry is on an account that exists. -/
abbrev References (db : Db) : Prop :=
  ∀ e ∈ db.ledgerEntries.rows, ∀ id, e.accountId = some id → (db.accounts.find? id).isSome

theorem references_opened {db : Db} (h : References db) (a : AccountEntity) :
    References { db with accounts := db.accounts.insert a } := by
  intro e he id hacc
  have hold := h e he id hacc
  simp only [Table.find?_insert]
  split_ifs
  · rfl
  · exact hold

theorem references_posted {ar : Arith} {p : Posting} {d : Draws} {db : Db} (h : References db)
    (hp : p.Valid ar db) (hk : p.NewKeys db d) : References (p.posted ar d db) := by
  intro e he id hacc
  rw [Posting.find?_posted hp, Option.isSome_map]
  rw [Posting.ledgerEntries_posted hk] at he
  rcases List.mem_append.1 he with he | he
  · exact h e he id hacc
  · obtain ⟨row, hrow, -⟩ := (hp.account_of_mem_entries he).2 id hacc
    simp [hrow]

/-- A request leaves every entry on an account that exists. -/
theorem references_serve {ar : Arith} {db : Db} (h : References db) (call : Call) :
    References (serve ar call db).2 := by
  have hs := serve_cases ar call db
  cases hr : serve ar call db with
  | mk answer db' =>
      rw [hr] at hs
      cases hs with
      | failed => exact h
      | opened => exact references_opened h _
      | moved _ hacc =>
          rw [hacc.state]
          exact references_posted h hacc.valid hacc.newKeys

/-- What an account's balance differs from the sum of its entries. -/
def gap (db : Db) (id : Uuid) : Option ℤ :=
  (db.accounts.find? id).map fun a => a.balance - net id db.ledgerEntries.rows

/-- **A posting moves a balance and the entries of the account together.** -/
theorem gap_posted {storable : ℤ → Bool} {p : Posting} {d : Draws} {db : Db}
    (hp : p.Valid (.exact storable) db) (hk : p.NewKeys db d) (id : Uuid) :
    gap (p.posted (.exact storable) d db) id = gap db id := by
  unfold gap
  rw [Posting.find?_posted hp, Option.map_map, Posting.ledgerEntries_posted hk,
    Posting.stored_exact, net_append]
  refine Option.map_congr fun a ha => ?_
  have hid : a.id = id := (Table.find?_eq_some ha).2
  simp only [Function.comp_apply, Posting.balance_move, hid]
  ring

theorem net_eq_zero_of_find?_eq_none {db : Db} (h : Sound db) {id : Uuid}
    (hid : db.accounts.find? id = none) : net id db.ledgerEntries.rows = 0 :=
  net_eq_zero fun e he hacc => by
    have := h.references e he id hacc
    simp [hid] at this

theorem sound_empty : Sound Db.empty where
  balance _ h := absurd h List.not_mem_nil
  nonneg _ h := absurd h List.not_mem_nil
  currency _ h := absurd h List.not_mem_nil
  external _ := rfl
  references _ h := absurd h List.not_mem_nil

/-- **A new account keeps the invariant**: it has no money and no entries. -/
theorem Sound.open {db : Db} (h : Sound db) {id : Uuid} (now : Time) (dto : CreateAccountDto)
    (hid : db.accounts.find? id = none) :
    Sound { db with accounts := db.accounts.insert (newAccount id now dto) } where
  balance a ha := by
    rcases (Table.mem_insert hid).1 ha with ha | rfl
    · exact h.balance a ha
    · exact (net_eq_zero_of_find?_eq_none h hid).symm
  nonneg a ha := by
    rcases (Table.mem_insert hid).1 ha with ha | rfl
    · exact h.nonneg a ha
    · exact le_rfl
  currency e he a ha hacc := by
    rcases (Table.mem_insert hid).1 ha with ha | rfl
    · exact h.currency e he a ha hacc
    · have := h.references e he id hacc
      simp [hid] at this
  external currency := by
    rw [← h.external currency, funds_eq_sum, funds_eq_sum, Table.sum_insert hid]
    split_ifs <;> exact add_zero _
  references := references_opened h.references _

/-- **A posting keeps the invariant.** -/
theorem Sound.posted {storable : ℤ → Bool} {p : Posting} {d : Draws} {db : Db} (h : Sound db)
    (hp : p.Valid (.exact storable) db) (hk : p.NewKeys db d) :
    Sound (p.posted (.exact storable) d db) where
  balance a ha := by
    obtain ⟨a₀, h₀, rfl⟩ := Posting.exists_of_mem_posted hp ha
    have hb := h.balance a₀ h₀
    rw [Posting.balance_move, hb, Posting.ledgerEntries_posted hk]
    exact (net_append ..).symm.trans (by rw [Posting.move_id]; rfl)
  nonneg := hp.nonneg_posted (fun _ hn => hn) h.nonneg
  currency e he a ha hacc := by
    obtain ⟨a₀, h₀, rfl⟩ := Posting.exists_of_mem_posted hp ha
    rw [Posting.move_id] at hacc
    rw [Posting.move_currency]
    rw [Posting.ledgerEntries_posted hk] at he
    rcases List.mem_append.1 he with he | he
    · exact h.currency e he a₀ h₀ hacc
    · obtain ⟨hec, hrows⟩ := hp.account_of_mem_entries he
      obtain ⟨row, hrow, hc⟩ := hrows _ hacc
      obtain rfl := Option.some.inj ((Table.find?_key h₀).symm.trans hrow)
      exact hec.trans hc.symm
  external currency := by
    rw [Posting.funds_posted hp, h.external, Posting.ledgerEntries_posted hk,
      Posting.stored_exact, settled_append]
  references := references_posted h.references hp hk

/-- **One request keeps the invariant**, accepted or rejected. -/
theorem Sound.serve {storable : ℤ → Bool} {db : Db} (h : Sound db) (call : Call) :
    Sound (serve (.exact storable) call db).2 := by
  have hs := serve_cases (.exact storable) call db
  cases hr : Ledger.serve (.exact storable) call db with
  | mk answer db' =>
      rw [hr] at hs
      cases hs with
      | failed => exact h
      | opened _ _ hid => exact h.open _ _ hid
      | moved _ hacc =>
          rw [hacc.state]
          exact h.posted hacc.valid hacc.newKeys

/-- A request overdraws no account. -/
theorem nonneg_serve {ar : Arith} (har : ∀ n, 0 ≤ n → 0 ≤ ar.round n) {db : Db}
    (h : ∀ a ∈ db.accounts.rows, 0 ≤ a.balance) (call : Call) :
    ∀ a ∈ (Ledger.serve ar call db).2.accounts.rows, 0 ≤ a.balance := by
  have hs := serve_cases ar call db
  cases hr : Ledger.serve ar call db with
  | mk answer db' =>
      rw [hr] at hs
      cases hs with
      | failed => exact h
      | opened _ _ hid =>
          intro a ha
          rcases (Table.mem_insert hid).1 ha with ha | rfl
          · exact h a ha
          · exact le_rfl
      | moved _ hacc =>
          rw [hacc.state]
          exact hacc.valid.nonneg_posted har h

/-- A movement, accepted or rejected, loses no update of a balance. -/
theorem gap_serve_move {storable : ℤ → Bool} {db : Db} (m : Movement) (d : Draws)
    (faults : List (Option Exception)) (commitFault : Option Exception) (id : Uuid) :
    gap (Ledger.serve (.exact storable) (.move m d faults commitFault) db).2 id = gap db id := by
  have hs := serve_cases (.exact storable) (.move m d faults commitFault) db
  cases hr : Ledger.serve (.exact storable) (.move m d faults commitFault) db with
  | mk answer db' =>
      rw [hr] at hs
      cases hs with
      | failed => rfl
      | opened _ hcall => exact Call.noConfusion hcall
      | moved hcall hacc =>
          rw [hacc.state]
          exact gap_posted hacc.valid hacc.newKeys id

/-- **The ledger is balanced in every state reached** from empty tables, by any
requests, whichever of them are rejected or meet a fault. -/
theorem balanced_run (storable : ℤ → Bool) (calls : List Call) :
    Balanced (run (.exact storable) .empty calls) := by
  suffices h : ∀ db, Sound db → Sound (run (.exact storable) db calls) from
    (h _ sound_empty).toBalanced
  induction calls with
  | nil => exact fun db hdb => hdb
  | cons call calls ih => exact fun db hdb => ih _ (hdb.serve call)

end Ledger
end LedgerEngine
