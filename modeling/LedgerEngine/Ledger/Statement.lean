/-
# The statement of an account

`LedgerService.getAccountStatement` (`src/modules/ledger/ledger.service.ts`)
sorts the entries of an account by `created_at`, which is `now()` at the start of
the database transaction.  The balance changes in another order: that in which
the transactions were granted the account's row lock.  It is held until the
commit, so the entries are in the table in the order in which they were applied
(`accountEntries`), and before each of them the account had the balance of those
before it (`exists_before`).

In any state of any history the statement is that of the last `n` applied entries,
newest first, **if and only if** each of them has a later `created_at` than all
that were applied before it; and then undoing them gives the account's earlier
balances, if none of the numbers, as the service reads them, was rounded
(`statement_shows_iff`).
-/

import LedgerEngine.Ledger.Openings
import LedgerEngine.Ledger.Precision
import LedgerEngine.Store.Paging
import Mathlib.Data.List.Infix

namespace LedgerEngine
namespace Ledger

open Paging (OrderBy Descending Latest)

/-! ### The statement -/

/-- The entries of an account, in the order in which they were applied. -/
def accountEntries (db : Db) (accountId : Uuid) : List LedgerEntryEntity :=
  db.ledgerEntries.rows.filter fun e => e.accountId = some accountId

/-- The entity of an entry: `bigintTransformer.from` reads the amount as a
JavaScript number. -/
def readEntry (ar : Arith) (e : LedgerEntryEntity) : LedgerEntryEntity :=
  { e with amount := ar.round e.amount }

/-- The entries of the account, newest first; the transactions loaded with them are
left out. -/
def getAccountStatement (ar : Arith) (sort : OrderBy LedgerEntryEntity.createdAt) (db : Db)
    (accountId : Uuid) (limit : ℕ) : List LedgerEntryEntity :=
  (Paging.page (sort (accountEntries db accountId)).list 0 limit).map (readEntry ar)

/-- The last `n` entries applied to the balance of an account, newest first. -/
def lastApplied (db : Db) (accountId : Uuid) (n : ℕ) : List LedgerEntryEntity :=
  (accountEntries db accountId).reverse.take n

/-! ### The net of the entries -/

theorem amounts_perm {type : LedgerEntryType} {P : LedgerEntryEntity → Prop} [DecidablePred P]
    {es es' : List LedgerEntryEntity} (h : es.Perm es') : amounts type P es = amounts type P es' :=
  ((h.filter _).map _).sum_eq

theorem net_perm {id : Uuid} {es es' : List LedgerEntryEntity} (h : es.Perm es') :
    net id es = net id es' := by
  rw [net, net, amounts_perm h, amounts_perm h]

/-- The other entries count for nothing. -/
theorem net_filter (id : Uuid) (es : List LedgerEntryEntity) :
    net id (es.filter fun e => e.accountId = some id) = net id es := by
  have hfilter : ∀ type,
      amounts type (fun e => e.accountId = some id) (es.filter fun e => e.accountId = some id) =
        amounts type (fun e => e.accountId = some id) es := by
    intro type
    unfold amounts
    rw [List.filter_filter]
    congr 2
    refine List.filter_congr fun e _ => ?_
    by_cases h : e.accountId = some id <;> simp [h]
  rw [net, net, hfilter, hfilter]

theorem net_accountEntries (db : Db) (id : Uuid) :
    net id (accountEntries db id) = net id db.ledgerEntries.rows := net_filter ..

/-- The entries of an account as the service reads them are among those of the table. -/
theorem map_accountEntries (ar : Arith) (db : Db) (id : Uuid) :
    (accountEntries db id).map (readEntry ar) =
      (db.ledgerEntries.rows.map (readEntry ar)).filter fun e => e.accountId = some id := by
  rw [List.filter_map]
  rfl

/-! ### The order in which entries are applied -/

/-- A posting applies at most one entry to an account. -/
theorem Posting.length_accountEntries {ar : Arith} {db : Db} {p : Posting} {d : Draws}
    (hp : p.Valid ar db) (id : Uuid) :
    (((p.stored ar).entries d).filter fun e => e.accountId = some id).length ≤ 1 := by
  have hsides : ¬ (p.debit.accountId = some id ∧ p.credit.accountId = some id) :=
    fun h => hp.not_credit h.1 h.2
  by_cases hd : p.debit.accountId = some id <;> by_cases hc : p.credit.accountId = some id <;>
    cases ht : p.type <;>
    simp_all [entries, newEntries, entryRows, NewLedgerEntry.row, leg, stored]

/-- **What one request applies to an account**: nothing, or one entry, and then the
account was there before. -/
theorem accountEntries_serve (ar : Arith) (call : Call) (db : Db) (id : Uuid) :
    accountEntries (serve ar call db).2 id = accountEntries db id ∨
      (db.accounts.find? id).isSome ∧
        ∃ e, accountEntries (serve ar call db).2 id = accountEntries db id ++ [e] := by
  have hs := serve_cases ar call db
  cases hr : serve ar call db with
  | mk answer db' =>
      rw [hr] at hs
      cases hs with
      | failed => exact Or.inl rfl
      | opened => exact Or.inl rfl
      | @moved m d _ p _ _ hcall h =>
          have hrows : (p.posted ar d db).ledgerEntries.rows =
              db.ledgerEntries.rows ++ (p.stored ar).entries d :=
            Posting.ledgerEntries_posted h.newKeys
          have happlied : accountEntries db' id = accountEntries db id ++
              ((p.stored ar).entries d).filter fun e => e.accountId = some id := by
            rw [h.state, accountEntries, hrows, List.filter_append]
            rfl
          have hone := Posting.length_accountEntries (d := d) h.valid id
          cases hnew : ((p.stored ar).entries d).filter fun e => e.accountId = some id with
          | nil =>
              rw [hnew, List.append_nil] at happlied
              exact Or.inl happlied
          | cons e rest =>
              rw [hnew, List.length_cons] at hone
              obtain rfl := List.eq_nil_of_length_eq_zero (by omega : rest.length = 0)
              obtain ⟨he, hacc⟩ := List.mem_filter.1 (hnew ▸ List.mem_singleton_self e)
              obtain ⟨row, hrow, -⟩ :=
                (h.valid.account_of_mem_entries he).2 id (of_decide_eq_true hacc)
              rw [hnew] at happlied
              exact Or.inr ⟨by rw [hrow]; rfl, e, happlied⟩

/-- An account with entries exists. -/
theorem isSome_of_accountEntries {db : Db} (h : References db) {id : Uuid}
    (hne : accountEntries db id ≠ []) : (db.accounts.find? id).isSome := by
  obtain ⟨e, he⟩ := List.exists_mem_of_ne_nil _ hne
  obtain ⟨he, hacc⟩ := List.mem_filter.1 he
  exact h e he id (of_decide_eq_true hacc)

section Runs

variable (ar : Arith) (reqs : List Request)

theorem references_openings (events : List Event) :
    References (openings ar reqs events).committed :=
  openings_induction (P := References) (fun _ h => absurd h List.not_mem_nil)
    (fun call _ h => references_serve h call) reqs events

/-- **Before each entry was applied** there was a committed state in which the
account had the entries before it and no others. -/
theorem exists_before {events : List Event} {id : Uuid} {j : ℕ}
    (hid : ((openings ar reqs events).committed.accounts.find? id).isSome)
    (hj : j ≤ (accountEntries (openings ar reqs events).committed id).length) :
    ∃ events', events' <+: events ∧
      ((openings ar reqs events').committed.accounts.find? id).isSome ∧
      accountEntries (openings ar reqs events').committed id =
        (accountEntries (openings ar reqs events).committed id).take j := by
  induction events using List.reverseRecOn generalizing j with
  | nil => exact absurd hid (by simp [openings, TwoPhase.Server.start, Db.empty])
  | append_singleton events event ih =>
      rcases Nat.lt_or_ge j (accountEntries
        (openings ar reqs (events ++ [event])).committed id).length with hlt | hge
      · -- an earlier entry: the state is one of the events before
        have hbefore : ((openings ar reqs events).committed.accounts.find? id).isSome ∧
            j ≤ (accountEntries (openings ar reqs events).committed id).length ∧
            (accountEntries (openings ar reqs (events ++ [event])).committed id).take j =
              (accountEntries (openings ar reqs events).committed id).take j := by
          rcases committed_openings_concat ar reqs events event with hsame | ⟨call, hcall⟩
          · rw [hsame] at hid hlt ⊢
            exact ⟨hid, hlt.le, rfl⟩
          · rw [hcall] at hlt ⊢
            rcases accountEntries_serve ar call (openings ar reqs events).committed id with
              hsame | ⟨hid, e, he⟩
            · rw [hsame] at hlt ⊢
              refine ⟨isSome_of_accountEntries (references_openings ar reqs events) ?_, hlt.le, rfl⟩
              exact List.ne_nil_of_length_pos (by omega)
            · rw [he, List.length_append, List.length_singleton] at hlt
              have hj : j ≤ (accountEntries (openings ar reqs events).committed id).length := by
                omega
              exact ⟨hid, hj, by rw [he, List.take_append_of_le_length hj]⟩
        obtain ⟨hid, hj, htake⟩ := hbefore
        obtain ⟨events', hprefix, hid', hentries⟩ := ih hid hj
        exact ⟨events', hprefix.trans (List.prefix_append ..), hid', hentries.trans htake.symm⟩
      · exact ⟨_, List.prefix_rfl, hid, (List.take_of_length_le hge).symm⟩

end Runs

/-! ### What a statement shows -/

section Shows

variable {reqs : List Request} {events : List Event} {id : Uuid}

/-- Each balance, as the service reads it, is the sum of the entries as it reads them. -/
def ReadsExact (ar : Arith) (db : Db) : Prop :=
  ∀ a ∈ db.accounts.rows,
    (Posting.read ar a).balance = net a.id (db.ledgerEntries.rows.map (readEntry ar))

instance (ar : Arith) (db : Db) : Decidable (ReadsExact ar db) := List.decidableBAll _ _

/-- No number of the history was rounded: the service has read each balance of each
state as the sum of its entries. -/
def Unrounded (reqs : List Request) (events : List Event) : Prop :=
  ∀ events', events' <+: events → ReadsExact .double (openings .double reqs events').committed

instance (reqs : List Request) (events : List Event) : Decidable (Unrounded reqs events) :=
  decidable_of_iff (∀ events' ∈ events.inits,
    ReadsExact .double (openings .double reqs events').committed)
    (forall_congr' fun _ => imp_congr_left (List.mem_inits ..))

/-- The statement's entries undone one after another, from the balance read now, give the
balances the account read before each of them was applied, none of them negative. -/
def Undoes (reqs : List Request) (events : List Event) (id : Uuid)
    (statement : List LedgerEntryEntity) : Prop :=
  ∀ row, (openings .double reqs events).committed.accounts.find? id = some row →
    ∀ k ≤ statement.length, ∃ events', events' <+: events ∧
      ∃ row', (openings .double reqs events').committed.accounts.find? id = some row' ∧
        (accountEntries (openings .double reqs events').committed id).map (readEntry .double) ++
          (statement.take k).reverse =
            (accountEntries (openings .double reqs events).committed id).map
              (readEntry .double) ∧
        (Posting.read .double row').balance =
          (Posting.read .double row).balance - net id (statement.take k) ∧
        0 ≤ (Posting.read .double row').balance

theorem nonneg_openings (reqs : List Request) (events : List Event) :
    ∀ a ∈ (openings .double reqs events).committed.accounts.rows, 0 ≤ a.balance :=
  openings_induction (P := fun db => ∀ a ∈ db.accounts.rows, 0 ≤ a.balance)
    (fun _ h => absurd h List.not_mem_nil)
    (fun call _ h => nonneg_serve (fun _ => Rounding.round_nonneg) h call) reqs events

/-- The balance of an account is the sum of its entries. -/
theorem ReadsExact.balance_eq {ar : Arith} {db : Db} (h : ReadsExact ar db) {row : AccountEntity}
    (hrow : db.accounts.find? id = some row) :
    (Posting.read ar row).balance = net id ((accountEntries db id).map (readEntry ar)) := by
  obtain ⟨hmem, rfl⟩ := Table.find?_eq_some hrow
  rw [map_accountEntries, net_filter]
  exact h row hmem

/-- **The last applied entries undo to the earlier balances.** -/
theorem undoes_lastApplied (h : Unrounded reqs events) (n : ℕ) :
    Undoes reqs events id
      ((lastApplied (openings .double reqs events).committed id n).map (readEntry .double)) := by
  intro row hrow k hk
  set entries := accountEntries (openings .double reqs events).committed id with hentries
  rw [List.length_map] at hk
  have hlast : (lastApplied (openings .double reqs events).committed id n).take k =
      entries.reverse.take k := by
    rw [lastApplied, List.length_take] at hk
    rw [lastApplied, List.take_take, min_eq_left (by omega)]
  obtain ⟨events', hprefix, hid', hbefore⟩ := exists_before .double reqs
    (j := entries.length - k) (by rw [hrow]; rfl) (Nat.sub_le ..)
  obtain ⟨row', hrow'⟩ := Option.isSome_iff_exists.1 hid'
  have hwhole : (accountEntries (openings .double reqs events').committed id).map
        (readEntry .double) ++ ((entries.reverse.take k).map (readEntry .double)).reverse =
      entries.map (readEntry .double) := by
    rw [hbefore, ← List.map_reverse, ← List.map_append, List.reverse_take, List.reverse_reverse,
      List.length_reverse, List.take_append_drop]
  rw [← List.map_take, hlast]
  refine ⟨events', hprefix, row', hrow', hwhole, ?_, ?_⟩
  · have hnow := (h events List.prefix_rfl).balance_eq hrow
    have hthen := (h events' hprefix).balance_eq hrow'
    rw [← hentries, ← hwhole, net_append, ← hthen, net_perm (List.reverse_perm _)] at hnow
    rw [hnow]
    ring
  · exact Rounding.round_nonneg
      (nonneg_openings reqs events' row' (Table.find?_eq_some hrow').1)

/-- The entries as the service reads them are distinct. -/
theorem nodup_readEntry (ar : Arith) (db : Db) (id : Uuid) :
    ((accountEntries db id).reverse.map (readEntry ar)).Nodup := by
  refine List.Nodup.of_map LedgerEntryEntity.id ?_
  rw [List.map_map, List.map_reverse, List.nodup_reverse]
  exact db.ledgerEntries.nodup.sublist (List.filter_sublist.map _)

/-- A statement is that of the last applied entries, whatever order the database
takes for entries of one `created_at`. -/
def ShowsLast (ar : Arith) (db : Db) (id : Uuid) (n : ℕ) : Prop :=
  ∀ sort, getAccountStatement ar sort db id n = (lastApplied db id n).map (readEntry ar)

/-- **The statement is that of the last applied entries if and only if** each of them
has a later `created_at` than all that were applied before it. -/
theorem showsLast_iff (ar : Arith) (db : Db) (id : Uuid) (n : ℕ) :
    ShowsLast ar db id n ↔
      Latest LedgerEntryEntity.createdAt n (accountEntries db id).reverse := by
  rw [← Paging.take_eq_iff_latest (nodup_readEntry ar db id) n]
  constructor
  · intro h o
    obtain ⟨sort, hsort⟩ := OrderBy.exists_eq
      (⟨o.list, o.perm.trans (List.reverse_perm _), o.sorted⟩ :
        Descending LedgerEntryEntity.createdAt (accountEntries db id))
    have hstatement := h sort
    unfold getAccountStatement at hstatement
    rw [hsort] at hstatement
    exact hstatement
  · intro h sort
    let o := sort (accountEntries db id)
    exact h ⟨o.list, o.perm.trans (List.reverse_perm _).symm, o.sorted⟩

end Shows

/-- **In every state of every history the statement of an account is that of its
last `n` applied entries, newest first, if and only if** each of these has a later
`created_at` than all that were applied before it; and then, where no number was
rounded, undoing them gives the account's earlier balances. -/
theorem statement_shows_iff (reqs : List Request) (events : List Event) (id : Uuid) (n : ℕ) :
    (ShowsLast .double (openings .double reqs events).committed id n ↔
      Latest LedgerEntryEntity.createdAt n
        (accountEntries (openings .double reqs events).committed id).reverse) ∧
    (Latest LedgerEntryEntity.createdAt n
        (accountEntries (openings .double reqs events).committed id).reverse →
      Unrounded reqs events →
      ∀ sort, Undoes reqs events id
        (getAccountStatement .double sort (openings .double reqs events).committed id n)) := by
  refine ⟨showsLast_iff .., fun hlatest h sort => ?_⟩
  rw [(showsLast_iff ..).2 hlatest sort]
  exact undoes_lastApplied h n

theorem freshAccount_isUuid : isUuid (js "cccccccc-0000-4000-8000-00000000000c") = true := by
  decide

theorem inr_isCurrency : isCurrency (js "INR") = true := by decide

/-- A `WithdrawDto` for the account of `depositOf`. -/
def withdrawalOf (amount : ℤ) (h : 1 ≤ amount) : WithdrawDto where
  accountId := js "cccccccc-0000-4000-8000-00000000000c"
  amount := amount
  currency := js "INR"
  description := none
  accountId_isUuid := freshAccount_isUuid
  amount_min := h
  currency_matches := inr_isCurrency

/-- A deposit of 100, and a withdrawal of 70 whose transaction starts after its commit. -/
def depositFirst : List Request :=
  [⟨.deposit (depositOf 100 (by decide)), { drawsEnding "1" with startedAt := 1 }⟩,
    ⟨.withdraw (withdrawalOf 70 (by decide)), { drawsEnding "2" with startedAt := 2 }⟩]

/-- One after the other. -/
def oneByOne : List Event :=
  .createAccount (.ofText (js "cccccccc-0000-4000-8000-00000000000c")) 0
      ⟨js "INR", none, inr_isCurrency⟩ ::
    (List.replicate 8 (.step 0) ++ List.replicate 8 (.step 1))

/-- The statement shows both entries, and they undo to the balances 30, 100 and 0. -/
theorem statement_shows_iff_oneByOne :
    (accountEntries (openings .double depositFirst oneByOne).committed
        (.ofText (js "cccccccc-0000-4000-8000-00000000000c"))).map
          (fun e => (e.entryType, e.amount, e.createdAt)) = [(.credit, 100, 1), (.debit, 70, 2)] ∧
      ShowsLast .double (openings .double depositFirst oneByOne).committed
        (.ofText (js "cccccccc-0000-4000-8000-00000000000c")) 2 ∧
      ∀ sort, Undoes depositFirst oneByOne (.ofText (js "cccccccc-0000-4000-8000-00000000000c"))
        (getAccountStatement .double sort (openings .double depositFirst oneByOne).committed
          (.ofText (js "cccccccc-0000-4000-8000-00000000000c")) 2) := by
  have hlatest : Latest LedgerEntryEntity.createdAt 2
      (accountEntries (openings .double depositFirst oneByOne).committed
        (.ofText (js "cccccccc-0000-4000-8000-00000000000c"))).reverse := by decide +kernel
  obtain ⟨hshows, hundoes⟩ := statement_shows_iff depositFirst oneByOne
    (.ofText (js "cccccccc-0000-4000-8000-00000000000c")) 2
  exact ⟨by decide +kernel, hshows.2 hlatest, hundoes hlatest (by decide +kernel)⟩

/-- A withdrawal of 100 whose transaction starts at 1, and a deposit of 100 whose
transaction starts at 2. -/
def withdrawalFirst : List Request :=
  [⟨.withdraw (withdrawalOf 100 (by decide)), { drawsEnding "1" with startedAt := 1 }⟩,
    ⟨.deposit (depositOf 100 (by decide)), { drawsEnding "2" with startedAt := 2 }⟩]

/-- The deposit is granted the lock first, and the withdrawal when it has committed. -/
def depositGranted : List Event :=
  .createAccount (.ofText (js "cccccccc-0000-4000-8000-00000000000c")) 0
      ⟨js "INR", none, inr_isCurrency⟩ ::
    (List.replicate 8 (.step 1) ++ List.replicate 8 (.step 0))

example : (accountEntries (openings .double withdrawalFirst depositGranted).committed
    (.ofText (js "cccccccc-0000-4000-8000-00000000000c"))).map
      (fun e => (e.entryType, e.createdAt)) = [(.credit, 2), (.debit, 1)] := by decide +kernel

/-- **The withdrawal was applied last and its transaction started first**: it is not
the first line of the statement. -/
theorem depositGranted_not_shown :
    ¬ ShowsLast .double (openings .double withdrawalFirst depositGranted).committed
      (.ofText (js "cccccccc-0000-4000-8000-00000000000c")) 1 := by
  rw [showsLast_iff]
  decide +kernel

end Ledger
end LedgerEngine
