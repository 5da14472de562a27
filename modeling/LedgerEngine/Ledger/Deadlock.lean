/-
# Movements never deadlock

Deposits, withdrawals and transfers take row locks one at a time: first the
accounts, in the order of their ids, then the keys of the rows they insert,
which nobody else draws.  Everything they touch after that, the accounts they
save and the rows their foreign keys refer to, they hold already
(`orderly_recordMovement`).  A transfer in either direction locks the smaller
id first (`orderly_lockRows`), so the movements are an instance of ordered
locking (`rowOrder`) and no schedule deadlocks (`lockHistory_deadlock_free`).
-/

import LedgerEngine.Async.Deadlock
import LedgerEngine.Ledger.Serializable
import LedgerEngine.Ledger.Transfer

namespace LedgerEngine
namespace Ledger

open TwoPhase

/-- The keys a transaction draws: nobody else inserts a row under one of them. -/
inductive Draws.Owns (d : Draws) : RowKey → Prop
  | transaction : Owns d (.transaction d.transactionId)
  | ledgerEntry (i : ℕ) : Owns d (.ledgerEntry (d.ledgerEntryId i))
  | outboxEvent : Owns d (.outboxEvent d.outboxEventId)

/-- The server has drawn different ids for the two transactions. -/
structure Draws.Apart (d d' : Draws) : Prop where
  transaction : d.transactionId ≠ d'.transactionId
  ledgerEntry : ∀ i j, d.ledgerEntryId i ≠ d'.ledgerEntryId j
  outboxEvent : d.outboxEventId ≠ d'.outboxEventId

theorem Draws.Apart.not_owns {d d' : Draws} (h : d.Apart d') {k : RowKey} (hk : d.Owns k) :
    ¬ d'.Owns k := by
  intro hk'
  cases hk with
  | transaction =>
      generalize hid : d.transactionId = id at hk'
      cases hk'
      exact h.transaction hid
  | ledgerEntry i =>
      generalize hid : d.ledgerEntryId i = id at hk'
      cases hk' with
      | ledgerEntry j => exact h.ledgerEntry i j hid
  | outboxEvent =>
      generalize hid : d.outboxEventId = id at hk'
      cases hk'
      exact h.outboxEvent hid

/-- Account rows are shared, and taken in the order of their ids. -/
def rowOrder : LockOrder Draws RowKey where
  shared k := ∃ id, k = .account id
  before
    | .account u, .account v => u.text < v.text
    | _, _ => False
  own := Draws.Owns
  irrefl k := by
    cases k with
    | account id => exact List.lt_irrefl id.text
    | _ => exact id
  trans {x y z} hxy hyz := by
    cases x <;> cases y <;> first | exact hxy.elim | skip
    cases z <;> first | exact hyz.elim | exact List.lt_trans hxy hyz

/-- The locks of a statement do not depend on balances. -/
theorem locksFrozen_statements (ar : Arith) : (statements ar).LocksFrozen := by
  intro d s db db' h
  cases s with
  | findAccountForUpdate id =>
      simp only [statements, locks, SameAccountIds.isSome_find? h id]
  | _ => rfl

/-! ### The bodies take their locks in order -/

section Bodies

variable {α : Type} {ar : Arith} {d : Draws} {db₀ : Db} {held : List RowKey}

/-- The query takes its locks in order, starting with the rows `held`. -/
abbrev OrderlyQuery (ar : Arith) (db₀ : Db) (d : Draws) (q : Query α) (held : List RowKey)
    (post : α → List RowKey → Prop) : Prop :=
  rowOrder.Orderly (statements ar) db₀ d q held post

/-- A statement that takes only keys of the transaction's own. -/
theorem orderly_await {s : Statement} {post : s.Res → List RowKey → Prop}
    (hlocks : ∀ k ∈ locks d s db₀, k ∈ held ∨ d.Owns k)
    (hpost : ∀ db r held', (∀ k ∈ held, k ∈ held') → (exec ar d s db).1 = .ok r → post r held') :
    OrderlyQuery ar db₀ d (.await s) held post := by
  refine LockOrder.Orderly.await (fun k hk => ?_) fun db r _ hr => ?_
  · rcases hlocks k hk with hheld | hown
    · exact Or.inl hheld
    · refine Or.inr (Or.inl ⟨?_, hown⟩)
      rintro ⟨id, rfl⟩
      cases hown
  · exact hpost db r _ (fun k hk => List.mem_append_right _ hk) hr

/-- The account of a party is held. -/
def Party.Held (party : Party) (held : List RowKey) : Prop :=
  ∀ id, party.accountId = some id → RowKey.account id ∈ held

theorem Party.Held.mono {party : Party} {held held' : List RowKey} (h : party.Held held)
    (hh : ∀ k ∈ held, k ∈ held') : party.Held held' :=
  fun id hid => hh _ (h id hid)

theorem orderly_saveAccounts {accounts : List AccountEntity} {post : Unit → List RowKey → Prop}
    (haccounts : ∀ a ∈ accounts, RowKey.account a.id ∈ held)
    (hpost : ∀ held', (∀ k ∈ held, k ∈ held') → post () held') :
    OrderlyQuery ar db₀ d (saveAccounts accounts) held post := by
  induction accounts generalizing held with
  | nil => exact hpost held fun k hk => hk
  | cons a accounts ih =>
      refine LockOrder.Orderly.bind (orderly_await (fun k hk => ?_) fun _ _ held' hh _ => ?_)
      · obtain rfl := List.mem_singleton.1 hk
        exact Or.inl (haccounts a (List.mem_cons_self ..))
      · refine ih (fun b hb => hh _ (haccounts b (List.mem_cons_of_mem _ hb))) fun held'' hh' => ?_
        exact hpost held'' fun k hk => hh' k (hh k hk)

theorem Party.accountId_of_mem {party : Party} {f : ℤ → ℤ} {a : AccountEntity}
    (h : a ∈ party.withBalance f) : party.accountId = some a.id := by
  cases party with
  | account b =>
      obtain rfl := List.mem_singleton.1 h
      rfl
  | external => exact absurd h List.not_mem_nil

/-- An entry of a posting refers to its transaction and to the account of a side. -/
theorem Posting.of_mem_newEntries {p : Posting} {id : Uuid} {e : NewLedgerEntry}
    (h : e ∈ p.newEntries id) : e.transactionId = id ∧
      (e.accountId = p.debit.accountId ∨ e.accountId = p.credit.accountId) := by
  unfold newEntries at h
  split at h <;> simp only [List.mem_cons, List.not_mem_nil, or_false] at h <;>
    rcases h with rfl | rfl <;> simp [leg]

theorem orderly_createEntries {p : Posting} {post : List LedgerEntryEntity → List RowKey → Prop}
    (hdebit : p.debit.Held held) (hcredit : p.credit.Held held)
    (hpost : ∀ rows held', (∀ k ∈ held, k ∈ held') → post rows held') :
    OrderlyQuery ar db₀ d (createEntries ar (p.newEntries d.transactionId)) held post := by
  unfold createEntries
  dsimp only
  split_ifs
  · trivial
  refine orderly_await (fun k hk => ?_) fun _ rows held' hh _ => hpost rows held' hh
  simp only [locks, List.mem_append, List.mem_map, List.mem_filterMap] at hk
  rcases hk with (⟨row, hrow, rfl⟩ | ⟨e, he, rfl⟩) | ⟨id, ⟨e, he, hid⟩, rfl⟩
  · obtain ⟨e, -, rfl⟩ := List.mem_map.1 hrow
    exact Or.inr (.ledgerEntry e.2)
  · rw [(Posting.of_mem_newEntries he).1]
    exact Or.inr .transaction
  · rcases (Posting.of_mem_newEntries he).2 with hside | hside
    · exact Or.inl (hdebit id (hside.symm.trans hid))
    · exact Or.inl (hcredit id (hside.symm.trans hid))

/-- **After its locked reads a movement takes no row that others want**: the
accounts it saves and its foreign keys refer to are held. -/
theorem orderly_recordMovement {p : Posting} (hdebit : p.debit.Held held)
    (hcredit : p.credit.Held held) :
    OrderlyQuery ar db₀ d (recordMovement ar p.newTransaction (p.accounts ar) p.newEntries) held
      fun _ _ => True := by
  refine LockOrder.Orderly.bind (orderly_await (fun k hk => ?_) fun db row held₁ h₁ hrow => ?_)
  · -- the key of the new transaction, and the accounts its foreign keys name
    rcases List.mem_cons.1 hk with rfl | hk
    · exact Or.inr .transaction
    · obtain ⟨id, hid, rfl⟩ := List.mem_map.1 hk
      rcases List.mem_append.1 hid with hid | hid
      · exact Or.inl (hdebit id (Option.mem_toList.1 hid))
      · exact Or.inl (hcredit id (Option.mem_toList.1 hid))
  have hid : row.id = d.transactionId := by
    simp only [exec] at hrow
    split_ifs at hrow
    obtain rfl := Except.ok.inj hrow
    rfl
  have hd₁ := hdebit.mono h₁
  have hc₁ := hcredit.mono h₁
  refine LockOrder.Orderly.bind (orderly_saveAccounts (fun a ha => ?_) fun held₂ h₂ => ?_)
  · rcases List.mem_append.1 ha with ha | ha
    · exact hd₁ a.id (Party.accountId_of_mem ha)
    · exact hc₁ a.id (Party.accountId_of_mem ha)
  rw [hid]
  refine LockOrder.Orderly.bind
    (orderly_createEntries (hd₁.mono h₂) (hc₁.mono h₂) fun rows held₃ _ => ?_)
  refine LockOrder.Orderly.bind (orderly_await (fun k hk => absurd hk List.not_mem_nil)
    fun _ now held₄ _ _ => ?_)
  refine LockOrder.Orderly.bind (orderly_await (fun k hk => ?_) fun _ saved held₅ _ hsaved => ?_)
  · obtain rfl := List.mem_singleton.1 hk
    exact Or.inr .transaction
  have hsid : saved.id = d.transactionId := by
    simp only [exec] at hsaved
    split_ifs at hsaved
    obtain rfl := Except.ok.inj hsaved
    rfl
  refine LockOrder.Orderly.bind (orderly_await (fun k hk => ?_) fun _ _ _ _ _ => trivial)
  rcases List.mem_cons.1 hk with rfl | hk
  · exact Or.inr .outboxEvent
  · obtain rfl := List.mem_singleton.1 hk
    exact Or.inr (hsid ▸ .transaction)

/-- The accounts held all come before the ids still to lock. -/
def Below (held : List RowKey) (ids : List Uuid) : Prop :=
  ∀ id, RowKey.account id ∈ held → ∀ id' ∈ ids, id.text < id'.text

/-- One locked read takes the row if it is there, after those held. -/
theorem orderly_findAccountForUpdate {id : Uuid}
    {post : Option AccountEntity → List RowKey → Prop} (hbelow : Below held [id])
    (hpost : ∀ found held', (∀ k ∈ held, k ∈ held') →
      (∀ id', RowKey.account id' ∈ held' → id' = id ∨ RowKey.account id' ∈ held) →
      (∀ a, found = some a → RowKey.account a.id ∈ held') → post found held') :
    OrderlyQuery ar db₀ d (findAccountForUpdate id) held post := by
  refine LockOrder.Orderly.await (fun k hk => ?_) fun db found hdb hfound => ?_
  · have hkey : k = .account id := by
      simp only [statements, locks] at hk
      split_ifs at hk
      · exact List.mem_singleton.1 hk
      · exact absurd hk List.not_mem_nil
    subst hkey
    refine Or.inr (Or.inr ⟨⟨id, rfl⟩, ?_, fun y hy _ => Or.inr ?_⟩)
    · rintro _ hh ⟨id', rfl⟩
      exact hbelow id' hh id (List.mem_singleton_self id)
    · simp only [statements, locks] at hy
      split_ifs at hy
      · exact List.mem_singleton.1 hy
      · exact absurd hy List.not_mem_nil
  · refine hpost found _ (fun k hk => List.mem_append_right _ hk) (fun id' hid' => ?_)
      fun a ha => ?_
    · rcases List.mem_append.1 hid' with hid' | hid'
      · simp only [statements, locks] at hid'
        split_ifs at hid'
        · exact Or.inl (RowKey.account.inj (List.mem_singleton.1 hid'))
        · exact absurd hid' List.not_mem_nil
      · exact Or.inr hid'
    · -- the row was found in a state with the same accounts
      subst ha
      have hmap : (db.accounts.find? id).map (Posting.read ar) = some a := Except.ok.inj hfound
      obtain ⟨row, hrow, rfl⟩ := Option.map_eq_some_iff.1 hmap
      have hid : row.id = id := (Table.find?_eq_some hrow).2
      have hsome : (db₀.accounts.find? id).isSome = true := by
        rw [SameAccountIds.isSome_find? hdb id, hrow]
        rfl
      refine List.mem_append_left _ ?_
      simp only [statements, locks]
      rw [if_pos hsome]
      exact List.mem_singleton.2 (congrArg RowKey.account hid)

/-- **A locked query takes its rows in the order of the ids.** -/
theorem orderly_lockRows {ids : List Uuid} {post : List AccountEntity → List RowKey → Prop}
    (hbelow : Below held ids) (hids : ids.Pairwise fun u v => u.text < v.text)
    (hpost : ∀ rows held', (∀ k ∈ held, k ∈ held') →
      (∀ a ∈ rows, RowKey.account a.id ∈ held') → post rows held') :
    OrderlyQuery ar db₀ d (lockRows ids) held post := by
  induction ids generalizing held post with
  | nil => exact hpost [] held (fun _ hk => hk) fun a ha => absurd ha List.not_mem_nil
  | cons id ids ih =>
      obtain ⟨hlt, hids⟩ := List.pairwise_cons.1 hids
      have hone : Below held [id] := fun u hu v hv =>
        hbelow u hu v (List.mem_cons.2 (Or.inl (List.mem_singleton.1 hv)))
      refine LockOrder.Orderly.bind (orderly_findAccountForUpdate hone
        fun found held₁ h₁ hnew hfound => ?_)
      have hbelow₁ : Below held₁ ids := by
        intro u hu v hv
        rcases hnew u hu with rfl | hu
        · exact hlt v hv
        · exact hbelow u hu v (List.mem_cons_of_mem _ hv)
      refine LockOrder.Orderly.bind (ih hbelow₁ hids fun rows held₂ h₂ hrows => ?_)
      refine hpost _ _ (fun k hk => h₂ k (h₁ k hk)) fun a ha => ?_
      rcases List.mem_append.1 ha with ha | ha
      · exact h₂ _ (hfound a (Option.mem_toList.1 ha))
      · exact hrows a ha

/-- A check takes no lock. -/
theorem orderly_assertActiveAccount {a : AccountEntity} {f : Unit → Query α}
    {post : α → List RowKey → Prop} (h : OrderlyQuery ar db₀ d (f ()) held post) :
    OrderlyQuery ar db₀ d ((assertActiveAccount a).bind f) held post := by
  unfold assertActiveAccount
  split_ifs
  · trivial
  · exact h

theorem orderly_assertCurrency {c c' : JsString} {f : Unit → Query α}
    {post : α → List RowKey → Prop} (h : OrderlyQuery ar db₀ d (f ()) held post) :
    OrderlyQuery ar db₀ d ((assertCurrency c c').bind f) held post := by
  unfold assertCurrency
  split_ifs
  · trivial
  · exact h

theorem orderly_assertSufficientFunds {balance amount : ℤ} {f : Unit → Query α}
    {post : α → List RowKey → Prop} (h : OrderlyQuery ar db₀ d (f ()) held post) :
    OrderlyQuery ar db₀ d ((assertSufficientFunds balance amount).bind f) held post := by
  unfold assertSufficientFunds
  split_ifs
  · trivial
  · exact h

theorem held_account {a : AccountEntity} (h : RowKey.account a.id ∈ held) :
    (Party.account a).Held held := by
  rintro id hid
  obtain rfl := Option.some.inj hid
  exact h

theorem held_external : Party.external.Held held := by
  rintro id ⟨⟩

theorem below_nil (ids : List Uuid) : Below [] ids :=
  fun _ hid => absurd hid List.not_mem_nil

theorem orderly_deposit (dto : DepositDto) :
    OrderlyQuery ar db₀ d (deposit ar dto) [] fun _ _ => True := by
  unfold deposit
  refine LockOrder.Orderly.bind (orderly_findAccountForUpdate (below_nil _)
    fun found held _ _ hfound => ?_)
  cases found with
  | none => trivial
  | some a =>
      let p : Posting := {
        type := .deposit, amount := dto.amount, currency := dto.currency
        description := dto.description.join, debit := .external, credit := .account a }
      refine orderly_assertActiveAccount (orderly_assertCurrency ?_)
      exact @orderly_recordMovement ar d db₀ held p held_external (held_account (hfound a rfl))

theorem orderly_withdraw (dto : WithdrawDto) :
    OrderlyQuery ar db₀ d (withdraw ar dto) [] fun _ _ => True := by
  unfold withdraw
  refine LockOrder.Orderly.bind (orderly_findAccountForUpdate (below_nil _)
    fun found held _ _ hfound => ?_)
  cases found with
  | none => trivial
  | some a =>
      let p : Posting := {
        type := .withdrawal, amount := dto.amount, currency := dto.currency
        description := dto.description.join, debit := .account a, credit := .external }
      refine orderly_assertActiveAccount (orderly_assertCurrency (orderly_assertSufficientFunds ?_))
      exact @orderly_recordMovement ar d db₀ held p (held_account (hfound a rfl)) held_external

/-- Ids sorted, each once, are in strictly ascending order. -/
theorem pairwise_lt_insertionSort (ids : List Uuid) :
    (ids.dedup.insertionSort fun u v => Uuid.le u v).Pairwise fun u v => u.text < v.text := by
  have htotal : Std.Total fun u v : Uuid => u.le v = true :=
    ⟨fun u v => by simpa [Uuid.le] using List.le_total u.text v.text⟩
  have htrans : IsTrans Uuid fun u v => u.le v = true :=
    ⟨fun u v w huv hvw => by
      simp only [Uuid.le, decide_eq_true_eq] at huv hvw ⊢
      exact List.le_trans huv hvw⟩
  have hsorted := List.pairwise_insertionSort (fun u v : Uuid => u.le v = true) ids.dedup
  have hnodup : (ids.dedup.insertionSort fun u v => Uuid.le u v).Nodup :=
    (List.perm_insertionSort _ _).nodup_iff.2 (List.nodup_dedup ids)
  refine (hsorted.and hnodup).imp fun {u v} h => ?_
  have hle : u.text ≤ v.text := by simpa [Uuid.le] using h.1
  refine Std.lt_of_le_of_ne hle fun htext => h.2 ?_
  rw [← Uuid.ofText_text u, ← Uuid.ofText_text v, htext]

theorem orderly_transfer (dto : TransferDto) :
    OrderlyQuery ar db₀ d (transfer ar dto) [] fun _ _ => True := by
  unfold transfer
  split_ifs
  · trivial
  dsimp only
  refine LockOrder.Orderly.bind (orderly_lockRows (below_nil _) (pairwise_lt_insertionSort _)
    fun rows held _ hrows => ?_)
  split_ifs
  · trivial
  split
  · rename_i a b ha hb
    let p : Posting := {
      type := .transfer, amount := dto.amount, currency := dto.currency
      description := dto.description.join, debit := .account a, credit := .account b }
    refine orderly_assertActiveAccount (orderly_assertActiveAccount (orderly_assertCurrency
      (orderly_assertCurrency (orderly_assertSufficientFunds ?_))))
    exact @orderly_recordMovement ar d db₀ held p
      (held_account (hrows a (List.mem_of_find?_eq_some ha)))
      (held_account (hrows b (List.mem_of_find?_eq_some hb)))
  · trivial

theorem Movement.orderly (m : Movement) :
    OrderlyQuery ar db₀ d (m.body ar) [] fun _ _ => True := by
  cases m with
  | deposit dto => exact orderly_deposit dto
  | withdraw dto => exact orderly_withdraw dto
  | transfer dto => exact orderly_transfer dto

end Bodies

/-- A history that takes one row lock at a time. -/
def lockHistory (ar : Arith) (reqs : List Request) (db : Db) (schedule : List ℕ) : Server :=
  schedule.foldl (lockStep (statements ar)) (.start (reqs.map (Request.transaction ar)) db)

/-- **Movements never deadlock.**  In every state a schedule can reach, no
transaction waits for itself through others, and as long as one has not ended
some transaction makes a step. -/
theorem lockHistory_deadlock_free (ar : Arith) (reqs : List Request) (db : Db)
    (hdraws : (reqs.map Request.draws).Pairwise Draws.Apart) (schedule : List ℕ) :
    (∀ i, ¬ Relation.TransGen
      (WaitsFor (statements ar) (lockHistory ar reqs db schedule)) i i) ∧
    ((∃ i, (lockHistory ar reqs db schedule).Unfinished i) →
      ∃ i, (lockHistory ar reqs db schedule).Unfinished i ∧
        lockStep (statements ar) (lockHistory ar reqs db schedule) i ≠
          lockHistory ar reqs db schedule) := by
  have hM := lawful_statements ar
  have hL : (statements ar).LocksFrozen := locksFrozen_statements ar
  have hown : (reqs.map (Request.transaction ar)).Pairwise
      fun r r' => ∀ k, rowOrder.own r.1 k → ¬ rowOrder.own r'.1 k := by
    rw [List.pairwise_map] at hdraws ⊢
    exact hdraws.imp fun hap _ => hap.not_owns
  have hstart : (TwoPhase.Server.start (reqs.map (Request.transaction ar)) db : Server).Climbing
      rowOrder (statements ar) db := by
    refine Server.climbing_start hM hown fun r hr => ?_
    obtain ⟨req, -, rfl⟩ := List.mem_map.1 hr
    exact req.movement.orderly
  have h := hstart.run hM hL schedule
  exact ⟨acyclic h hM hL, progress h hM hL⟩

theorem drawsEnding_apart : (drawsEnding "1").Apart (drawsEnding "2") := by
  refine ⟨by decide, fun i j h => ?_, by decide⟩
  -- the ids differ in the text given, whatever number follows it
  have h₁ : ((drawsEnding "1").ledgerEntryId i).text[11]? = some 49 := rfl
  have h₂ : ((drawsEnding "2").ledgerEntryId j).text[11]? = some 50 := rfl
  rw [h, h₂] at h₁
  exact absurd h₁ (by decide)

/-- A `TransferDto` the other way round. -/
def TransferDto.reversed (dto : TransferDto) : TransferDto where
  fromAccountId := dto.toAccountId
  toAccountId := dto.fromAccountId
  amount := dto.amount
  currency := dto.currency
  description := dto.description
  fromAccountId_isUuid := dto.toAccountId_isUuid
  toAccountId_isUuid := dto.fromAccountId_isUuid
  amount_min := dto.amount_min
  currency_matches := dto.currency_matches

/-- Two transfers between the same accounts in opposite directions. -/
def oppositeTransfers : List Request :=
  [⟨.transfer lowerCase, drawsEnding "1"⟩, ⟨.transfer lowerCase.reversed, drawsEnding "2"⟩]

theorem lockHistory_deadlock_free_oppositeTransfers :
    (∀ i, ¬ Relation.TransGen (WaitsFor (statements (.exact fun _ => true))
      (lockHistory (.exact fun _ => true) oppositeTransfers twoAccounts [0, 1, 0, 1])) i i) ∧
    ((∃ i, (lockHistory (.exact fun _ => true) oppositeTransfers twoAccounts
        [0, 1, 0, 1]).Unfinished i) →
      ∃ i, (lockHistory (.exact fun _ => true) oppositeTransfers twoAccounts
          [0, 1, 0, 1]).Unfinished i ∧
        lockStep (statements (.exact fun _ => true))
          (lockHistory (.exact fun _ => true) oppositeTransfers twoAccounts [0, 1, 0, 1]) i ≠
            lockHistory (.exact fun _ => true) oppositeTransfers twoAccounts [0, 1, 0, 1]) :=
  lockHistory_deadlock_free (.exact fun _ => true) oppositeTransfers twoAccounts
    (List.pairwise_pair.2 drawsEnding_apart) [0, 1, 0, 1]

end Ledger
end LedgerEngine
