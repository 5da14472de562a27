/-
# Movements while accounts are opened

Histories in which accounts are opened between the statements of movements under
way, and transactions are broken off (`openings`).  The movements alone are
serializable because no statement changes which accounts there are; an account
that is opened does.  But a movement that finds no account throws
(`Movement.givesUp`), and an account that is opened changes nothing else a
movement reads, so opening accounts is an instance of
`LedgerEngine.Async.Arrivals`: every state committed on the way is sound and its
transactions, entries and events correspond (`sound_openings`).
-/

import LedgerEngine.Async.Arrivals
import LedgerEngine.Ledger.DoubleEntry
import LedgerEngine.Ledger.Serializable

namespace LedgerEngine
namespace Ledger

/-! ### Histories -/

/-- What happens next: a movement makes its next step or is broken off, or an
account is opened. -/
inductive Event : Type
  | step (i : ℕ)
  | abort (i : ℕ) (e : Exception)
  | createAccount (id : Uuid) (now : Time) (dto : CreateAccountDto)

def Event.apply (ar : Arith) (v : Server) : Event → Server
  | .step i => TwoPhase.step (statements ar) v i
  | .abort i e => v.abort i e
  | .createAccount id now dto =>
      v.arrive (serve ar (.createAccount id now dto none) v.committed).2

/-- The requests start on empty tables, and the events happen one after the other. -/
def openings (ar : Arith) (reqs : List Request) (events : List Event) : Server :=
  events.foldl (Event.apply ar) (.start (reqs.map (Request.transaction ar)) .empty)

/-! ### What an opened account changes -/

/-- A locked read found no row. -/
def Missed : (s : Statement) → s.Res → Prop
  | .findAccountForUpdate _, row => row = none
  | _, _ => False

/-- The second state has the rows of the first, and maybe more accounts. -/
structure Grows (db db' : Db) : Prop where
  accounts : ∀ id, db.accounts.find? id ≠ none → db'.accounts.find? id = db.accounts.find? id
  transactions : ∀ id, db'.transactions.find? id = db.transactions.find? id
  ledgerEntries : ∀ id, db'.ledgerEntries.find? id = db.ledgerEntries.find? id
  outboxEvents : ∀ id, db'.outboxEvents.find? id = db.outboxEvents.find? id

theorem Grows.refl (db : Db) : Grows db db :=
  ⟨fun _ _ => rfl, fun _ => rfl, fun _ => rfl, fun _ => rfl⟩

theorem grows_serve_createAccount (ar : Arith) (id : Uuid) (now : Time) (dto : CreateAccountDto)
    (db : Db) : Grows db (serve ar (.createAccount id now dto none) db).2 := by
  have hs := serve_cases ar (.createAccount id now dto none) db
  cases hr : serve ar (.createAccount id now dto none) db with
  | mk answer db' =>
      rw [hr] at hs
      cases hs with
      | failed => exact Grows.refl db
      | moved hcall => exact absurd hcall (by simp)
      | @opened id' now' dto' _ _ hid =>
          refine ⟨fun id hne => ?_, fun _ => rfl, fun _ => rfl, fun _ => rfl⟩
          rw [Table.find?_insert]
          split_ifs with he
          · exact absurd (he ▸ hid) hne
          · rfl

theorem Grows.apply {db db' : Db} (w : RowWrite) (h : Grows db db') :
    Grows (w.apply db) (w.apply db') := by
  cases w with
  | putAccount a =>
      refine ⟨fun id hne => ?_, h.transactions, h.ledgerEntries, h.outboxEvents⟩
      have hold : db.accounts.find? id ≠ none := by
        intro hnone
        refine hne ?_
        simp only [RowWrite.apply, Table.find?_put, hnone]
        split_ifs <;> rfl
      simp only [RowWrite.apply, Table.find?_put, h.accounts id hold]
  | addTransaction t =>
      refine ⟨h.accounts, fun id => ?_, h.ledgerEntries, h.outboxEvents⟩
      simp only [RowWrite.apply, Table.find?_insert, h.transactions]
  | putTransaction t =>
      refine ⟨h.accounts, fun id => ?_, h.ledgerEntries, h.outboxEvents⟩
      simp only [RowWrite.apply, Table.find?_put, h.transactions]
  | addLedgerEntry e =>
      refine ⟨h.accounts, h.transactions, fun id => ?_, h.outboxEvents⟩
      simp only [RowWrite.apply, Table.find?_insert, h.ledgerEntries]
  | addOutboxEvent e =>
      refine ⟨h.accounts, h.transactions, h.ledgerEntries, fun id => ?_⟩
      simp only [RowWrite.apply, Table.find?_insert, h.outboxEvents]

/-- **An account that is opened changes the answer of a locked read that missed it,
and no other.** -/
theorem arrival_statements (ar : Arith) : TwoPhase.Arrival (statements ar) Grows Missed where
  apply := Grows.apply
  exec {db db'} d s h := by
    cases s with
    | findAccountForUpdate id =>
        by_cases hnone : db.accounts.find? id = none
        · refine Or.inr ⟨none, ?_, rfl⟩
          simp only [statements, exec, hnone, Option.map_none]
        · refine Or.inl ⟨?_, ?_⟩
          · simp only [statements, exec, h.accounts id hnone]
          · simp only [statements, locks, h.accounts id hnone]
    | insertTransaction t =>
        refine Or.inl ⟨?_, rfl⟩
        simp only [statements, exec, h.transactions]
    | insertLedgerEntries es =>
        refine Or.inl ⟨?_, rfl⟩
        simp only [statements, exec, h.ledgerEntries]
    | insertOutboxEvent e =>
        refine Or.inl ⟨?_, rfl⟩
        simp only [statements, exec, h.outboxEvents]
    | saveAccount a => exact Or.inl ⟨rfl, rfl⟩
    | newDate => exact Or.inl ⟨rfl, rfl⟩
    | saveTransaction t => exact Or.inl ⟨rfl, rfl⟩

/-! ### A movement that finds no account throws -/

section Bodies

variable {α β : Type} {ar : Arith} {post : β → Prop}

/-- The rule for a sequence whose first half misses nothing. -/
theorem givesUp_bind {q : Query α} {f : α → Query β} (hq : q.GivesUp Missed fun _ => False)
    (hf : ∀ a, (f a).GivesUp Missed post) : (q.bind f).GivesUp Missed post :=
  hq.bind hf fun _ h => h.elim

/-- A statement other than a locked read. -/
theorem givesUp_await {s : Statement} (hs : ∀ r, ¬ Missed s r) :
    (Prog.await s : Query s.Res).GivesUp Missed fun _ => False :=
  Prog.givesUp_await fun r hr => hs r hr

theorem givesUp_saveAccounts (accounts : List AccountEntity) :
    (saveAccounts accounts).GivesUp Missed fun _ => False := by
  induction accounts with
  | nil => trivial
  | cons a accounts ih => exact givesUp_bind (givesUp_await fun _ h => h) fun _ => ih

theorem givesUp_createEntries (entries : List NewLedgerEntry) :
    (createEntries ar entries).GivesUp Missed fun _ => False := by
  unfold createEntries
  dsimp only
  split_ifs
  · trivial
  · exact givesUp_await fun _ h => h

theorem givesUp_recordMovement (t : NewTransaction) (accounts : List AccountEntity)
    (entries : Uuid → List NewLedgerEntry) :
    (recordMovement ar t accounts entries).GivesUp Missed fun _ => False := by
  refine givesUp_bind (givesUp_await fun _ h => h) fun t => ?_
  refine givesUp_bind (givesUp_saveAccounts accounts) fun _ => ?_
  refine givesUp_bind (givesUp_createEntries _) fun _ => ?_
  refine givesUp_bind (givesUp_await fun _ h => h) fun _ => ?_
  refine givesUp_bind (givesUp_await fun _ h => h) fun _ => ?_
  exact givesUp_bind (givesUp_await fun _ h => h) fun _ => trivial

/-- A check misses nothing. -/
theorem givesUp_assertActiveAccount {a : AccountEntity} {f : Unit → Query β}
    (h : (f ()).GivesUp Missed post) : ((assertActiveAccount a).bind f).GivesUp Missed post := by
  unfold assertActiveAccount
  split_ifs
  · trivial
  · exact h

theorem givesUp_assertCurrency {c c' : JsString} {f : Unit → Query β}
    (h : (f ()).GivesUp Missed post) : ((assertCurrency c c').bind f).GivesUp Missed post := by
  unfold assertCurrency
  split_ifs
  · trivial
  · exact h

theorem givesUp_assertSufficientFunds {balance amount : ℤ} {f : Unit → Query β}
    (h : (f ()).GivesUp Missed post) :
    ((assertSufficientFunds balance amount).bind f).GivesUp Missed post := by
  unfold assertSufficientFunds
  split_ifs
  · trivial
  · exact h

/-- A locked read gives up with no row. -/
theorem givesUp_findAccountForUpdate (id : Uuid) :
    (findAccountForUpdate id).GivesUp Missed fun row => row = none :=
  Prog.givesUp_await fun _ h => h

theorem only_lockRows (ids : List Uuid) :
    (lockRows ids).Only fun rows => rows.length ≤ ids.length := by
  induction ids with
  | nil => exact le_rfl
  | cons id ids ih =>
      have hany : (findAccountForUpdate id).Only fun _ => True := Prog.only_await fun _ => trivial
      refine hany.bind fun row _ => ?_
      refine Prog.Only.bind ih fun rows hrows => ?_
      have hrow : row.toList.length ≤ 1 := by cases row <;> simp
      show (row.toList ++ rows).length ≤ ids.length + 1
      rw [List.length_append]
      omega

/-- **A query for several rows that misses one gives fewer.** -/
theorem givesUp_lockRows (ids : List Uuid) :
    (lockRows ids).GivesUp Missed fun rows => rows.length < ids.length := by
  induction ids with
  | nil => trivial
  | cons id ids ih =>
      refine Prog.GivesUp.bind (givesUp_findAccountForUpdate id) (fun row => ?_) fun row hrow => ?_
      · refine Prog.GivesUp.bind ih (fun rows => trivial) fun rows hrows => ?_
        have hone : row.toList.length ≤ 1 := by cases row <;> simp
        show (row.toList ++ rows).length < ids.length + 1
        rw [List.length_append]
        omega
      · subst hrow
        refine Prog.Only.bind (only_lockRows ids) fun rows hrows => ?_
        show ([] ++ rows).length < ids.length + 1
        rw [List.nil_append]
        omega

theorem givesUp_transfer (dto : TransferDto) :
    (transfer ar dto).GivesUp Missed fun _ => False := by
  unfold transfer
  split_ifs
  · trivial
  dsimp only
  refine Prog.GivesUp.bind (givesUp_lockRows _) (fun rows => ?_) fun rows hrows => ?_
  · split_ifs
    · trivial
    split
    · refine givesUp_assertActiveAccount (givesUp_assertActiveAccount (givesUp_assertCurrency
        (givesUp_assertCurrency (givesUp_assertSufficientFunds ?_))))
      exact givesUp_recordMovement _ _ _
    · trivial
  · -- at most two ids were asked for, so fewer than two rows are there
    have hlength : rows.length ≠ 2 := by
      rw [List.length_insertionSort] at hrows
      have hdedup := List.Sublist.length_le (List.dedup_sublist
        (([dto.fromAccountId, dto.toAccountId].insertionSort (· ≤ ·)).map Uuid.ofText))
      rw [List.length_map, List.length_insertionSort] at hdedup
      simp only [List.length_cons, List.length_nil] at hdedup
      omega
    rw [if_pos hlength]
    trivial

/-- **A movement that misses an account throws.** -/
theorem Movement.givesUp (ar : Arith) (m : Movement) :
    (m.body ar).GivesUp Missed fun _ => False := by
  cases m with
  | deposit dto =>
      refine Prog.GivesUp.bind (givesUp_findAccountForUpdate _) (fun row => ?_) fun row hrow => ?_
      · cases row with
        | none => trivial
        | some a =>
            refine givesUp_assertActiveAccount (givesUp_assertCurrency ?_)
            exact givesUp_recordMovement _ _ _
      · subst hrow
        trivial
  | withdraw dto =>
      refine Prog.GivesUp.bind (givesUp_findAccountForUpdate _) (fun row => ?_) fun row hrow => ?_
      · cases row with
        | none => trivial
        | some a =>
            refine givesUp_assertActiveAccount (givesUp_assertCurrency
              (givesUp_assertSufficientFunds ?_))
            exact givesUp_recordMovement _ _ _
      · subst hrow
        trivial
  | transfer dto => exact givesUp_transfer dto

end Bodies

/-! ### Every committed state -/

theorem openings_concat (ar : Arith) (reqs : List Request) (events : List Event) (event : Event) :
    openings ar reqs (events ++ [event]) = Event.apply ar (openings ar reqs events) event := by
  simp only [openings, List.foldl_append, List.foldl_cons, List.foldl_nil]

/-- An event commits nothing, or what one request alone leaves, and what the
transactions under way have done stands. -/
theorem Event.standing_apply {ar : Arith} {reqs : List Request} {v : Server}
    (hv : TwoPhase.Standing (statements ar) (reqs.map (Request.transaction ar)) v) (event : Event) :
    TwoPhase.Standing (statements ar) (reqs.map (Request.transaction ar)) (event.apply ar v) ∧
      ((event.apply ar v).committed = v.committed ∨
        ∃ call, (event.apply ar v).committed = (serve ar call v.committed).2) := by
  cases event with
  | step i =>
      obtain ⟨hv', hcommitted⟩ := hv.step (lawful_statements ar) i
      refine ⟨hv', ?_⟩
      rcases hcommitted with hsame | ⟨r, hr, hr'⟩
      · exact Or.inl hsame
      · obtain ⟨r, -, rfl⟩ := List.mem_map.1 hr
        refine Or.inr ⟨r.call, ?_⟩
        rw [serve_call]
        exact hr'
  | abort i e =>
      obtain ⟨hv', hcommitted⟩ := hv.abort (lawful_statements ar) i e
      exact ⟨hv', Or.inl hcommitted⟩
  | createAccount id now dto =>
      have hreqs : ∀ r ∈ reqs.map (Request.transaction ar), r.2.GivesUp Missed fun _ => False := by
        intro r hr
        obtain ⟨r, -, rfl⟩ := List.mem_map.1 hr
        exact r.movement.givesUp ar
      exact ⟨hv.arrive (arrival_statements ar) hreqs
        (grows_serve_createAccount ar id now dto v.committed), Or.inr ⟨_, rfl⟩⟩

theorem standing_openings (ar : Arith) (reqs : List Request) (events : List Event) :
    TwoPhase.Standing (statements ar) (reqs.map (Request.transaction ar))
      (openings ar reqs events) := by
  induction events using List.reverseRecOn with
  | nil => exact TwoPhase.standing_start _ _
  | append_singleton events event ih =>
      rw [openings_concat]
      exact (Event.standing_apply ih event).1

/-- **One more event commits nothing, or what one request alone leaves.** -/
theorem committed_openings_concat (ar : Arith) (reqs : List Request) (events : List Event)
    (event : Event) :
    (openings ar reqs (events ++ [event])).committed = (openings ar reqs events).committed ∨
      ∃ call, (openings ar reqs (events ++ [event])).committed =
        (serve ar call (openings ar reqs events).committed).2 := by
  rw [openings_concat]
  exact (Event.standing_apply (standing_openings ar reqs events) event).2

/-- Every event keeps what every request alone keeps. -/
theorem openings_induction {ar : Arith} {P : Db → Prop} (h₀ : P .empty)
    (hserve : ∀ call db, P db → P (serve ar call db).2) (reqs : List Request)
    (events : List Event) : P (openings ar reqs events).committed := by
  induction events using List.reverseRecOn with
  | nil => exact h₀
  | append_singleton events event ih =>
      rcases committed_openings_concat ar reqs events event with hsame | ⟨call, hcall⟩
      · exact hsame ▸ ih
      · exact hcall ▸ hserve call _ ih

/-- **Every state committed on the way is sound**: balances are the sums of their
entries, and each transaction has its entries. -/
theorem sound_openings (storable : ℤ → Bool) (reqs : List Request) (events : List Event) :
    Sound (openings (.exact storable) reqs events).committed ∧
      Corresponds (openings (.exact storable) reqs events).committed :=
  ⟨openings_induction sound_empty (fun call _ h => h.serve call) reqs events,
    openings_induction corresponds_empty (fun call _ h => h.serve call) reqs events⟩

end Ledger
end LedgerEngine
