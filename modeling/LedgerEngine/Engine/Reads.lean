/-
# What the endpoints read

The endpoints that only read take the tables as they are committed at the moment, while
everything else goes on.  What they give agrees with what was answered before: the
transaction of an answer is read again, the same (`getTransaction_agrees`), an account that
was opened is never missing (`getBalance_agrees`), and each line of a statement is a leg of
a COMPLETED transaction, all of them together the balance (`getStatement_foots`).
-/

import LedgerEngine.Engine.Tables

namespace LedgerEngine
namespace Engine

open Api (accept accountJson transactionJson getBalance getStatement getTransaction findAccount
  uuidParameter StatementLine statementLine)
open Ledger (AccountResponse Arith Corresponds CreateAccountDto Legs Movement accountEntries
  getAccountStatement net storedTransaction toTransactionResponse)
open Paging (OrderBy)

/-! ### Parameters and rows -/

section Found

variable {ar : Arith} {db : Db} {text : JsString} {id : Uuid}

theorem uuidParameter_eq (h : Ops.readUuid text = some id) : uuidParameter text = .ok id := by
  unfold uuidParameter
  rw [h]

theorem getTransaction_eq (h : Ops.readUuid text = some id) {t : TransactionEntity}
    (ht : db.transactions.find? id = some t) :
    getTransaction ar db text = .ok (toTransactionResponse (Api.readTransaction ar t)) := by
  simp only [getTransaction, uuidParameter_eq h, bind, Except.bind, ht]
  rfl

theorem findAccount_eq (h : Ops.readUuid text = some id) {a : AccountEntity}
    (ha : db.accounts.find? id = some a) :
    findAccount ar db text = .ok (Ledger.Posting.read ar a) := by
  simp only [findAccount, uuidParameter_eq h, bind, Except.bind, ha]
  rfl

/-- An account is found under an id that the database reads in the parameter. -/
theorem exists_of_findAccount {a : AccountEntity} (h : findAccount ar db text = .ok a) :
    Ops.readUuid text = some a.id ∧ ∃ row, db.accounts.find? a.id = some row ∧
      a = Ledger.Posting.read ar row := by
  cases htext : Ops.readUuid text with
  | none => simp [findAccount, uuidParameter, htext, bind, Except.bind] at h
  | some id =>
      simp only [findAccount, uuidParameter_eq htext, bind, Except.bind] at h
      cases hrow : db.accounts.find? id with
      | none => rw [hrow] at h; cases h
      | some row =>
          rw [hrow] at h
          obtain rfl := Except.ok.inj h
          obtain rfl : row.id = id := (Table.find?_eq_some hrow).2
          exact ⟨rfl, row, hrow, rfl⟩

end Found

/-! ### Reading what was written -/

section Answers

variable {env : Env} {labels : List (Label Task Draw)} {r : HttpRequest} {body : Json}

/-- The numbers of an accepted movement are read from the columns as they were. -/
theorem readTransaction_eq (hround : env.arith.round = Rounding.round 53)
    (hcolumn : env.arith.column = NumberText.written) {m : Movement}
    (haccept : accept env.validators r.endpoint r.body = some (.move m)) {t : TransactionEntity}
    (ht : m.Makes t) : Api.readTransaction env.arith (storedTransaction env.arith t) = t := by
  have hamount : env.arith.round (env.arith.column t.amount) = t.amount := by
    rw [hround, hcolumn, ht.amount]
    exact NumberText.round_written (Api.fitsInt_amount haccept)
  rw [Api.readTransaction, storedTransaction, hamount]

/-- **What a movement was answered is read again ever after**, under any spelling of its
id. -/
theorem getTransaction_agrees (hsha256 : Collisionless env (after env labels).world)
    (hround : env.arith.round = Rounding.round 53)
    (hcolumn : env.arith.column = NumberText.written) (h : Answered (after env labels) r body)
    {m : Movement} (haccept : accept env.validators r.endpoint r.body = some (.move m))
    (later : List (Label Task Draw)) :
    ∃ t, m.Makes t ∧ body.Same (transactionJson (toTransactionResponse t)) ∧
      ∀ text, Ops.readUuid text = some t.id →
        getTransaction env.arith (after env (labels ++ later)).world.db text =
          .ok (toTransactionResponse t) := by
  obtain ⟨request, result, hrequest, hperformed, hsame⟩ :=
    (h.honest hsha256).grows (grows_after env labels later)
  obtain rfl := Option.some.inj (haccept.symm.trans hrequest)
  cases hperformed with
  | @move _ t found hmakes =>
      refine ⟨t, hmakes, hsame, fun text htext => ?_⟩
      rw [getTransaction_eq htext found, readTransaction_eq hround hcolumn haccept hmakes]

/-- What the deposit commits. -/
def depositedTransaction : TransactionEntity where
  id := (Ledger.drawsEnding "2").transactionId
  type := .deposit
  status := .completed
  amount := 5000
  currency := js "INR"
  fromAccountId := none
  toAccountId := some sampleAccountId
  description := none
  completedAt := some 1
  createdAt := 0

def depositedDto : Ledger.DepositDto where
  accountId := js "0f8fad5b-d9cb-469f-a165-70867728950e"
  amount := 5000
  currency := js "INR"
  description := none
  accountId_isUuid := rfl
  amount_min := by omega
  currency_matches := rfl

theorem getTransaction_agrees_deposit :
    ∃ t, (Movement.deposit depositedDto).Makes t ∧
      (transactionJson (toTransactionResponse depositedTransaction)).Same
        (transactionJson (toTransactionResponse t)) ∧
      ∀ text, Ops.readUuid text = some t.id →
        getTransaction sampleEnv.arith
            (after sampleEnv (deposited ++ served 2 "3" deposit)).world.db text =
          .ok (toTransactionResponse t) :=
  getTransaction_agrees (r := deposit) (m := .deposit depositedDto)
    (collisionless_of_injective Idempotency.sampleSha256_injective _) rfl rfl
    ⟨_, List.mem_of_getElem? (i := 1) rfl, rfl, rfl⟩ rfl
    (served 2 "3" deposit)

/-- **An account that was opened is found ever after**, in its currency and status. -/
theorem getBalance_agrees (hsha256 : Collisionless env (after env labels).world)
    (h : Answered (after env labels) r body) {dto : CreateAccountDto}
    (haccept : accept env.validators r.endpoint r.body = some (.createAccount dto))
    (later : List (Label Task Draw)) :
    ∃ account : AccountResponse, body.Same (accountJson account) ∧
      ∀ text, Ops.readUuid text = some account.id → ∃ balance,
        getBalance env.arith (after env (labels ++ later)).world.db text = .ok balance ∧
          balance.accountId = account.id ∧ balance.currency = dto.currency ∧
          balance.status = dto.status.join.getD .active := by
  obtain ⟨request, result, hrequest, hperformed, hsame⟩ :=
    (h.honest hsha256).grows (grows_after env labels later)
  obtain rfl := Option.some.inj (haccept.symm.trans hrequest)
  cases hperformed with
  | @createAccount _ row account found hrow hasked =>
      obtain ⟨hcurrency, hrest⟩ := Prod.mk.inj hrow
      obtain ⟨hcurrency', hrest'⟩ := Prod.mk.inj hasked
      refine ⟨account, hsame, fun text htext => ?_⟩
      refine ⟨_, by rw [getBalance, findAccount_eq htext found]; rfl, ?_, ?_, ?_⟩
      · exact (Table.find?_eq_some found).2
      · exact hcurrency.trans hcurrency'
      · exact (Prod.mk.inj hrest).1.trans (Prod.mk.inj hrest').1

theorem getBalance_agrees_opening :
    ∃ account : AccountResponse, openedBody.Same (accountJson account) ∧
      ∀ text, Ops.readUuid text = some account.id → ∃ balance,
        getBalance sampleEnv.arith
            (after sampleEnv (opened ++ served 1 "2" deposit)).world.db text = .ok balance ∧
          balance.accountId = account.id ∧ balance.currency = js "INR" ∧
          balance.status = .active := by
  have haccept : accept sampleEnv.validators opening.endpoint opening.body =
      some (.createAccount ⟨js "INR", none, by decide⟩) := rfl
  exact getBalance_agrees (collisionless_of_injective Idempotency.sampleSha256_injective _)
    opening_answered haccept (served 1 "2" deposit)

end Answers

/-! ### Statements -/

/-- A row for each of the rows, if there is one for every one of them. -/
theorem mapM_eq_ok {α β ε : Type} {f : α → Except ε β} {xs : List α}
    (h : ∀ x ∈ xs, ∃ y, f x = .ok y) :
    ∃ ys, xs.mapM f = .ok ys ∧ List.Forall₂ (fun x y => f x = .ok y) xs ys := by
  induction xs with
  | nil => exact ⟨[], rfl, .nil⟩
  | cons x xs ih =>
      obtain ⟨y, hy⟩ := h x (List.mem_cons_self ..)
      obtain ⟨ys, hys, hall⟩ := ih fun x' hx' => h x' (List.mem_cons_of_mem x hx')
      refine ⟨y :: ys, ?_, .cons hy hall⟩
      rw [List.mapM_cons, hy, hys]
      rfl

theorem forall₂_exists {α β : Type} {R : α → β → Prop} {xs : List α} {ys : List β}
    (h : List.Forall₂ R xs ys) : ∀ y ∈ ys, ∃ x ∈ xs, R x y := by
  induction h with
  | nil => exact fun _ h => absurd h List.not_mem_nil
  | @cons x y xs ys hxy hall ih =>
      intro y' hy'
      rcases List.mem_cons.1 hy' with rfl | hy'
      · exact ⟨x, List.mem_cons_self .., hxy⟩
      · obtain ⟨x', hx', hR⟩ := ih y' hy'
        exact ⟨x', List.mem_cons_of_mem x hx', hR⟩

theorem forall₂_map {α β γ : Type} {R : α → β → Prop} {F : α → γ} {G : β → γ} {xs : List α}
    {ys : List β} (h : List.Forall₂ R xs ys) (hR : ∀ x y, R x y → G y = F x) :
    ys.map G = xs.map F := by
  induction h with
  | nil => rfl
  | cons hxy hall ih => rw [List.map_cons, List.map_cons, hR _ _ hxy, ih]

/-- What a line adds to the balance. -/
def signed (type : LedgerEntryType) (amount : ℤ) : ℤ :=
  match type with
  | .credit => amount
  | .debit => -amount

theorem net_eq_sum {id : Uuid} {es : List LedgerEntryEntity}
    (h : ∀ e ∈ es, e.accountId = some id) :
    net id es = (es.map fun e => signed e.entryType e.amount).sum := by
  induction es with
  | nil => rfl
  | cons e es ih =>
      have hhead := h e (List.mem_cons_self ..)
      have hsplit := Ledger.net_append id [e] es
      rw [List.singleton_append] at hsplit
      rw [hsplit, ih fun e' he' => h e' (List.mem_cons_of_mem e he'), List.map_cons, List.sum_cons]
      congr 1
      cases ht : e.entryType <;> simp [net, Ledger.amounts, signed, ht, hhead]

/-- The line is the leg of a COMPLETED transaction on the account. -/
structure LegLine (db : Db) (accountId : Uuid) (line : StatementLine) : Prop where
  transaction : ∃ t ∈ db.transactions.rows, t.id = line.transactionId ∧ t.status = .completed ∧
    line.transactionStatus = .completed ∧ line.transactionType = t.type ∧
      line.description = t.description ∧ line.amount = t.amount ∧ line.currency = t.currency ∧
        (match line.entryType with
        | .debit => t.fromAccountId
        | .credit => t.toAccountId) = some accountId

/-- The leg of a transaction that is on an account. -/
theorem legSide {t : TransactionEntity} {debit credit e : LedgerEntryEntity}
    (h : Legs t debit credit) (he : e = debit ∨ e = credit) {id : Uuid}
    (hid : e.accountId = some id) :
    e.amount = t.amount ∧ e.currency = t.currency ∧
      (match e.entryType with
      | .debit => t.fromAccountId
      | .credit => t.toAccountId) = some id := by
  have hplaced := h.placed
  unfold Ledger.Placed at hplaced
  rcases he with rfl | rfl
  · rw [h.debit_type]
    refine ⟨h.debit_amount, h.debit_currency, ?_⟩
    cases ht : t.type with
    | deposit =>
        rw [ht] at hplaced
        rw [hplaced.1.1] at hid
        cases hid
    | withdrawal =>
        rw [ht] at hplaced
        exact hplaced.1.2.1.symm.trans hid
    | transfer =>
        rw [ht] at hplaced
        exact hplaced.1.2.1.symm.trans hid
  · rw [h.credit_type]
    refine ⟨h.credit_amount, h.credit_currency, ?_⟩
    cases ht : t.type with
    | deposit =>
        rw [ht] at hplaced
        exact hplaced.2.2.1.symm.trans hid
    | withdrawal =>
        rw [ht] at hplaced
        rw [hplaced.2.1] at hid
        cases hid
    | transfer =>
        rw [ht] at hplaced
        exact hplaced.2.2.1.symm.trans hid

theorem signed_line {db : Db} {e : LedgerEntryEntity} {line : StatementLine}
    (h : statementLine db e = .ok line) :
    signed line.entryType line.amount = signed e.entryType e.amount := by
  unfold statementLine at h
  split at h
  · obtain rfl := Except.ok.inj h
    rfl
  · cases h

/-- An entry of an account has a line, and it is the leg of its transaction. -/
theorem exists_legLine {db : Db} (h : Corresponds db) {id : Uuid} {e : LedgerEntryEntity}
    (he : e ∈ accountEntries db id) :
    ∃ line, statementLine db e = .ok line ∧ LegLine db id line ∧
      line.currency = e.currency := by
  obtain ⟨hmem, hid⟩ := List.mem_filter.1 he
  obtain ⟨t, ht, htid⟩ := h.entries e hmem
  have hrecorded := h.recorded t ht
  obtain ⟨debit, credit, hperm, hlegs⟩ := hrecorded.entries
  have hentry : e ∈ Ledger.entriesOf db t.id := List.mem_filter.2 ⟨hmem, by simp [htid]⟩
  have hside : e = debit ∨ e = credit := by simpa using hperm.mem_iff.1 hentry
  obtain ⟨hamount, hcurrency, haccount⟩ := legSide hlegs hside (of_decide_eq_true hid)
  have hfind : db.transactions.find? e.transactionId = some t := htid ▸ Table.find?_key ht
  refine ⟨_, by rw [statementLine, hfind], ⟨t, ht, htid.symm, hrecorded.status, hrecorded.status,
    rfl, rfl, hamount, hcurrency, haccount⟩, rfl⟩

/-- What a statement of the account says of the ledger. -/
structure Foots (db : Db) (a : AccountEntity) (limit : ℕ) (s : Api.StatementResponse) : Prop where
  accountId : s.accountId = a.id
  currency : s.currency = a.currency
  lines : ∀ line ∈ s.entries, LegLine db a.id line ∧ line.currency = a.currency
  length : s.entries.length = min limit (accountEntries db a.id).length
  /-- A statement with room for every entry adds up to the balance. -/
  balance : (accountEntries db a.id).length ≤ limit → ∀ row, db.accounts.find? a.id = some row →
    (s.entries.map fun line => signed line.entryType line.amount).sum = row.balance

/-- The statement on a ledger with no rounded number. -/
theorem foots_of_safe {ar : Arith} {l : ℤ} (har : ar.Precise l) {db db' : Db}
    (hsafe : Ledger.Safe l db') (hcorresponds : Corresponds db')
    (sort : OrderBy LedgerEntryEntity.createdAt) {text : JsString} (limit : Option ℕ)
    {a : AccountEntity} (h : findAccount ar db text = .ok a) {row : AccountEntity}
    (hrow : db'.accounts.find? a.id = some row) (hcurrency : row.currency = a.currency) :
    ∃ s, getStatement ar sort db db' text limit = .ok s ∧ Foots db' a (limit.getD 20) s := by
  obtain ⟨htext, -⟩ := exists_of_findAccount h
  have hsorted := (sort (accountEntries db' a.id)).perm
  let es := (sort (accountEntries db' a.id)).list.take (limit.getD 20)
  have hmem : ∀ e ∈ es, e ∈ accountEntries db' a.id := fun e he =>
    hsorted.mem_iff.1 (List.mem_of_mem_take he)
  have hes : getAccountStatement ar sort db' a.id (limit.getD 20) = es := by
    refine (List.map_congr_left fun e he => ?_).trans (List.map_id es)
    obtain ⟨hnonneg, hlt⟩ := hsafe.amounts e (List.mem_filter.1 (hmem e he)).1
    show Ledger.readEntry ar e = e
    unfold Ledger.readEntry
    rw [har.below _ hnonneg hlt]
  obtain ⟨lines, hlines, hall⟩ := mapM_eq_ok fun e he =>
    (exists_legLine hcorresponds (hmem e he)).imp fun _ h => h.1
  have hline : ∀ line ∈ lines, ∃ e ∈ es, LegLine db' a.id line ∧ line.currency = e.currency := by
    intro line hmem'
    obtain ⟨e, he, heq⟩ := forall₂_exists hall line hmem'
    obtain ⟨line', heq', hleg, hcur⟩ := exists_legLine hcorresponds (hmem e he)
    obtain rfl := Except.ok.inj (heq.symm.trans heq')
    exact ⟨e, he, hleg, hcur⟩
  refine ⟨⟨a.id, a.currency, lines⟩, ?_, rfl, rfl, fun line hmem' => ?_, ?_,
    fun hlimit row' hrow' => ?_⟩
  · unfold getStatement
    rw [h, uuidParameter_eq htext]
    show ((getAccountStatement _ sort db' a.id (limit.getD 20)).mapM (statementLine db')).bind _ = _
    rw [hes, hlines]
    rfl
  · obtain ⟨e, he, hleg, hcur⟩ := hline line hmem'
    obtain ⟨hentry, hid⟩ := List.mem_filter.1 (hmem e he)
    obtain ⟨hrowmem, hrowid⟩ := Table.find?_eq_some hrow
    have hmatch : e.accountId = some row.id := by
      rw [of_decide_eq_true hid]
      exact congrArg some hrowid.symm
    exact ⟨hleg, hcur.trans ((hsafe.currency e hentry row hrowmem hmatch).trans hcurrency)⟩
  · rw [← hall.length_eq, List.length_take, hsorted.length_eq]
  · have hperm : es.Perm (accountEntries db' a.id) := by
      rwa [show es = _ from List.take_of_length_le (hsorted.length_eq.trans_le hlimit)]
    have haccount : ∀ e ∈ es, e.accountId = some a.id := fun e he =>
      of_decide_eq_true (List.mem_filter.1 (hmem e he)).2
    obtain rfl := Option.some.inj (hrow.symm.trans hrow')
    obtain ⟨hrowmem, hrowid⟩ := Table.find?_eq_some hrow
    have hrowid : row.id = a.id := hrowid
    rw [forall₂_map hall fun e line h => signed_line h, ← net_eq_sum haccount,
      Ledger.net_perm hperm, Ledger.net_accountEntries, ← hrowid]
    exact (hsafe.balance row hrowmem).symm

/-- **A statement foots**, whatever is committed between its two queries: each line is the
leg of a COMPLETED transaction, in the currency of the account, and all of them together
are the balance. -/
theorem getStatement_foots {env : Env} {l : ℤ} (har : env.arith.Precise l)
    {labels later : List (Label Task Draw)} (hbelow : StaysBelow env l (labels ++ later))
    (sort : OrderBy LedgerEntryEntity.createdAt) {text : JsString} (limit : Option ℕ)
    {a : AccountEntity} (h : findAccount env.arith (after env labels).world.db text = .ok a) :
    ∃ s, getStatement env.arith sort (after env labels).world.db
        (after env (labels ++ later)).world.db text limit = .ok s ∧
      Foots (after env (labels ++ later)).world.db a (limit.getD 20) s := by
  obtain ⟨-, row, hrow, rfl⟩ := exists_of_findAccount h
  obtain ⟨row', hrow', hkept⟩ := (grows_after env labels later).accounts _ row hrow
  exact foots_of_safe har (safe_after har hbelow) (corresponds_after env _) sort limit h hrow'
    (Prod.mk.inj hkept).1

theorem getStatement_foots_deposited :
    ∃ s, getStatement sampleEnv.arith (OrderBy.stable LedgerEntryEntity.createdAt)
        (after sampleEnv opened).world.db
        (after sampleEnv (opened ++ served 1 "2" deposit)).world.db
        (js "0f8fad5b-d9cb-469f-a165-70867728950e") none = .ok s ∧
      Foots (after sampleEnv (opened ++ served 1 "2" deposit)).world.db
        ⟨sampleAccountId, js "INR", 0, .active, 0, 0⟩ 20 s :=
  getStatement_foots Ledger.precise_double deposited_staysBelow
    (OrderBy.stable LedgerEntryEntity.createdAt) none rfl

end Engine
end LedgerEngine
