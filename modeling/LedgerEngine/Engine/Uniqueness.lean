/-
# No transaction is answered for twice

A transaction is named by the result of a request that is being saved, and then by one
record; no other record or request ever names it (`records_unique`).  So of two clients
that are answered with one transaction, both sent the same key to the same endpoint.

The id of a transaction is a token: the operation that returns it takes it, and the
save hands it on to the record.
-/

import LedgerEngine.Engine.Results

namespace LedgerEngine
namespace Engine

open Idempotency (IdempotencyRecordEntity OperationResult completed)
open Ledger (Arith)

/-- The transaction that the result of a request names. -/
def Stage.names : Stage → Option Uuid
  | .request (.completing _ result) => result.transactionId
  | _ => none

/-- Who names a transaction: a thread or a record. -/
def names (w : World) (stages : List (Task × Stage)) : ℕ ⊕ Uuid → Option Uuid
  | .inl i => stages[i]?.bind fun s => s.2.names
  | .inr id => (w.idempotency.records.find? id).bind fun record => record.transactionId

/-- No transaction is named twice, and what is named is in the table. -/
structure Named (w : World) (stages : List (Task × Stage)) : Prop where
  distinct : Distinct (names w stages)
  known : ∀ x t, names w stages x = some t → (w.transactions.find? t).isSome

section Named

variable {w w' : World} {stages : List (Task × Stage)} {i : ℕ} {task : Task} {q q' : Stage}

/-- What the other threads name is not changed by a step of one. -/
theorem names_set (hi : stages[i]? = some (task, q)) (x : ℕ) :
    names w (stages.set i (task, q')) (.inl x) =
      if x = i then q'.names else names w stages (.inl x) := by
  show ((stages.set i (task, q'))[x]?).bind _ = _
  rw [List.getElem?_set]
  have hlength : i < stages.length := (List.getElem?_eq_some_iff.1 hi).1
  split_ifs with h h' h' <;> first | rfl | omega

/-- A step at which nothing new is named. -/
theorem Named.released (h : Named w stages) (hw : w.Grows w')
    (hrecords : ∀ id t, names w' stages (.inr id) = some t → names w stages (.inr id) = some t)
    (hi : stages[i]? = some (task, q)) (hq : q'.names = none) :
    Named w' (stages.set i (task, q')) := by
  have hheld :
      ∀ x t, names w' (stages.set i (task, q')) x = some t → names w stages x = some t := by
    intro x t hx
    cases x with
    | inl x =>
        rw [names_set hi] at hx
        split_ifs at hx
        · rw [hq] at hx
          cases hx
        · exact hx
    | inr id => exact hrecords id t hx
  exact ⟨h.distinct.released hheld,
    fun x t hx => hw.transactions.isSome (h.known x t (hheld x t hx))⟩

/-- A step at which a transaction is named that was not there before. -/
theorem Named.taken (h : Named w stages) (hw : w.Grows w')
    (hrecords : ∀ id, names w' stages (.inr id) = names w stages (.inr id))
    (hi : stages[i]? = some (task, q)) {u : Uuid} (hq : q'.names = some u)
    (hnew : w.transactions.find? u = none) (hmade : (w'.transactions.find? u).isSome) :
    Named w' (stages.set i (task, q')) := by
  have hheld : ∀ x t, names w' (stages.set i (task, q')) x = some t →
      x = .inl i ∧ t = u ∨ names w stages x = some t := by
    intro x t hx
    cases x with
    | inl x =>
        rw [names_set hi] at hx
        split_ifs at hx with he
        · rw [hq] at hx
          exact Or.inl ⟨congrArg Sum.inl he, (Option.some.inj hx).symm⟩
        · exact Or.inr hx
    | inr id => exact Or.inr ((hrecords id).symm.trans hx)
  refine ⟨h.distinct.taken (fun x hx => ?_) hheld, fun x t hx => ?_⟩
  · have := h.known x u hx
    rw [hnew] at this
    cases this
  · rcases hheld x t hx with ⟨-, rfl⟩ | hold
    · exact hmade
    · exact hw.transactions.isSome (h.known x t hold)

/-- A step at which a thread hands what it names on to a record. -/
theorem Named.handed (h : Named w stages) (hw : w.Grows w') (id : Uuid)
    (hi : stages[i]? = some (task, q)) (hq : q'.names = none)
    (hrecords : ∀ id' t, names w' stages (.inr id') = some t →
      id' = id ∧ q.names = some t ∨ id' ≠ id ∧ names w stages (.inr id') = some t) :
    Named w' (stages.set i (task, q')) := by
  have hthread : names w stages (.inl i) = q.names := by
    show stages[i]?.bind _ = _
    rw [hi]
    rfl
  have hheld : ∀ x t, names w' (stages.set i (task, q')) x = some t →
      names w stages (Equiv.swap (.inl i) (.inr id) x) = some t := by
    intro x t hx
    cases x with
    | inl x =>
        rw [names_set hi] at hx
        split_ifs at hx with he
        · rw [hq] at hx
          cases hx
        · rw [Equiv.swap_apply_of_ne_of_ne (by simpa using he) (by simp)]
          exact hx
    | inr id' =>
        rcases hrecords id' t hx with ⟨rfl, hqt⟩ | ⟨hne, hold⟩
        · rw [Equiv.swap_apply_right, hthread]
          exact hqt
        · rw [Equiv.swap_apply_of_ne_of_ne (by simp) (by simpa using hne)]
          exact hold
  exact ⟨h.distinct.handed (Equiv.injective _) hheld,
    fun x t hx => hw.transactions.isSome (h.known _ t (hheld x t hx))⟩

end Named

/-! ### One call -/

section Calls

variable {env : Env} {w : World} {stages : List (Task × Stage)} {i : ℕ} {r : HttpRequest}
  {q : RequestStage} {ω : Draw}

theorem names_caught (id : Uuid) (e : Exception) :
    Stage.names (.request (.caught id e)) = none := by
  unfold RequestStage.caught
  cases Idempotency.normalizeError e <;> rfl

/-- Only the operation gives a request something to name. -/
theorem names_next (q : RequestStage) (hash : JsString) {c : Idempotency.Command}
    (s : Except Exception c.Res)
    (hc : ∀ endpoint key, c ≠ .operation endpoint key) :
    Stage.names (.request (q.next hash c s)) = none := by
  unfold RequestStage.next
  split
  · rfl
  · unfold RequestStage.found
    split_ifs <;> rfl
  · rfl
  · rfl
  · rfl
  · unfold RequestStage.overtaken
    split_ifs <;> rfl
  · rfl
  · exact absurd rfl (hc _ _)
  · exact absurd rfl (hc _ _)
  · rfl
  · exact names_caught _ _
  · rfl

/-- What the records name after an update. -/
theorem names_update {records : IndexedTable IdempotencyRecordEntity} {column : Jsonb} {now : Time}
    {p : Idempotency.Patch} {id id' t : Uuid}
    (h : ((records.update id (p.change column now)).find? id').bind
      (fun record => record.transactionId) = some t) :
    id' = id ∧ p.transactionId = some (some t) ∨
      (id' = id → p.transactionId = none) ∧
        (records.find? id').bind (fun record => record.transactionId) = some t := by
  rw [IndexedTable.find?_update] at h
  cases hold : records.find? id' with
  | none => rw [hold] at h; cases h
  | some old =>
      rw [hold] at h
      have hid : old.id = id' := (Table.find?_eq_some hold).2
      change (IndexedTable.changed id (p.change column now) old).transactionId = some t at h
      by_cases he : old.id = id
      · rw [IndexedTable.changed_of_eq he] at h
        change p.transactionId.getD old.transactionId = some t at h
        cases hp : p.transactionId with
        | none =>
            rw [hp] at h
            exact Or.inr ⟨fun _ => rfl, h⟩
        | some new =>
            rw [hp] at h
            exact Or.inl ⟨hid.symm.trans he, congrArg some h⟩
      · rw [IndexedTable.changed_of_ne he] at h
        exact Or.inr ⟨fun h' => absurd (hid.trans h') he, h⟩

/-- **A call of the records names nothing twice.** -/
theorem Named.record {c : Idempotency.Command} (h : Named w stages)
    (hi : stages[i]? = some (.request r, .request q))
    (hc : q.Allows (r.endpoint.path, r.idempotencyKey.getD [])
      (env.requestHash r.endpoint r.body) c)
    (hop : ∀ endpoint key, c ≠ .operation endpoint key) :
    Named (exec env ω (.record c) w).2 (stages.set i (.request r, .request
      (q.next (env.requestHash r.endpoint r.body) c (exec env ω (.record c) w).1))) := by
  have hgrows := grows_exec env ω (.record c) w
  have hnone := names_next q (env.requestHash r.endpoint r.body)
    (exec env ω (.record c) w).1 hop
  have hsame : (Idempotency.exec env.column ω.record c w.idempotency).2.records =
      w.idempotency.records → Named (exec env ω (.record c) w).2 (stages.set i (.request r, .request
        (q.next (env.requestHash r.endpoint r.body) c (exec env ω (.record c) w).1))) := by
    intro hrecords
    refine h.released hgrows (fun id t ht => ?_) hi hnone
    change ((Idempotency.exec env.column ω.record c w.idempotency).2.records.find? id).bind _ =
      _ at ht
    rw [hrecords] at ht
    exact ht
  have hpatch : ∀ id p, c = .update id p ∨ c = .save id p → (∀ t, p.transactionId ≠ some (some t)) →
      Named (exec env ω (.record c) w).2 (stages.set i (.request r, .request
        (q.next (env.requestHash r.endpoint r.body) c (exec env ω (.record c) w).1))) := by
    intro id p hc hp
    rcases exec_patch env.column ω.record hc w.idempotency with ⟨hrecords, -⟩ | hrecords
    · exact hsame hrecords
    refine h.released hgrows (fun id' t ht => ?_) hi hnone
    change ((Idempotency.exec _ _ _ _).2.records.find? id').bind _ = _ at ht
    rw [hrecords] at ht
    exact (names_update ht).elim (fun hnew => absurd hnew.2 (hp t)) And.right
  cases hc with
  | operate id hkey => exact absurd rfl (hop _ _)
  | find hkey hk => exact hsame (congrArg Idempotency.World.records (exec_findOne rfl).1)
  | race hkey => exact hsame (congrArg Idempotency.World.records (exec_findOne rfl).1)
  | reload hkey => exact hsame (congrArg Idempotency.World.records (exec_findOneOrFail rfl).1)
  | reclaim id => exact hpatch id _ (Or.inl rfl) fun t => by simp [Idempotency.reclaimed]
  | fail id normalized => exact hpatch id _ (Or.inr rfl) fun t => by simp [Idempotency.failed]
  | complete id result =>
      rcases exec_patch env.column ω.record (Or.inr rfl) w.idempotency with
        ⟨hrecords, -⟩ | hrecords
      · exact hsame hrecords
      -- the record takes over what the thread has named
      refine h.handed hgrows id hi hnone fun id' t ht => ?_
      change ((Idempotency.exec _ _ _ _).2.records.find? id').bind _ = _ at ht
      rw [hrecords] at ht
      rcases names_update ht with ⟨hid, hp⟩ | ⟨hne, hold⟩
      · exact Or.inl ⟨hid, Option.some.inj hp⟩
      · exact Or.inr ⟨fun he => absurd (hne he) (by simp [completed]), hold⟩
  | insert hkey =>
      refine h.released hgrows (fun id' t ht => ?_) hi hnone
      change ((Idempotency.exec _ _ _ _).2.records.find? id').bind _ = _ at ht
      rcases Option.bind_eq_some_iff.1 ht with ⟨record, hrecord, hname⟩
      obtain ⟨hmem, hid⟩ := Table.find?_eq_some hrecord
      rcases mem_exec_insert hmem with hold | rfl
      · have hfind := Table.find?_key hold
        rw [hid] at hfind
        show ((w.idempotency.records.find? id').bind _) = _
        rw [hfind]
        exact hname
      · cases hname

/-- A call that leaves the records alone, of a thread that then names nothing. -/
theorem Named.idle (env : Env) {c : Command} {task : Task} {q q' : Stage} (h : Named w stages)
    (hrecords : (exec env ω c w).2.idempotency = w.idempotency)
    (hi : stages[i]? = some (task, q)) (hq : q'.names = none) :
    Named (exec env ω c w).2 (stages.set i (task, q')) := by
  refine h.released (grows_exec env ω c w) (fun id t ht => ?_) hi hq
  change ((exec env ω c w).2.idempotency.records.find? id).bind _ = _ at ht
  rw [hrecords] at ht
  exact ht

/-- **The operation names a transaction that was not there.** -/
theorem Named.operate (env : Env) {id : Uuid} (request : Api.WriteRequest) (h : Named w stages)
    (hi : stages[i]? = some (.request r, .request (.operating id))) :
    Named (exec env ω (commandOf request) w).2 (stages.set i (.request r, .request
      (.performed id (commandOf request) (exec env ω (commandOf request) w).1))) := by
  have hidempotency : (exec env ω (commandOf request) w).2.idempotency = w.idempotency := by
    cases request <;> rfl
  cases hx : (exec env ω (commandOf request) w).1 with
  | error e => exact h.idle env hidempotency hi (names_caught id e)
  | ok answer =>
      cases request with
      | createAccount dto => exact h.idle env hidempotency hi rfl
      | registerWebhook dto => exact h.idle env hidempotency hi rfl
      | move m =>
          have hmeet : (ledgerAnswer env.arith ω).meet ω.fault (.transaction m) w.db =
              ledgerAnswer env.arith ω (.transaction m) w.db := Prog.Handler.meet_of_ok hx
          change ((ledgerAnswer env.arith ω).meet ω.fault (.transaction m) w.db).1 = _ at hx
          rw [hmeet] at hx
          have hcommit : Ledger.transactionWithFaults env.arith ω.draws ω.faults ω.commitFault
              (m.body env.arith) w.db =
                (.ok answer, (ledgerAnswer env.arith ω (.transaction m) w.db).2) := Prod.ext hx rfl
          obtain ⟨p, hp⟩ := Ledger.accepted_of_transaction hcommit
          have hid : answer.id = ω.draws.transactionId :=
            congrArg Ledger.TransactionResponse.id hp.answer
          refine h.taken (grows_exec env ω _ w) (fun id' => ?_) hi (u := ω.draws.transactionId) ?_
            hp.newKeys.transaction ?_
          · rfl
          · exact congrArg some hid
          · show (((ledgerAnswer env.arith ω).meet ω.fault (.transaction m)
              w.db).2.transactions.find?
              _).isSome
            rw [hmeet, hp.state]
            exact Option.isSome_of_eq_some
              (Table.find?_key ((Table.mem_insert hp.newKeys.transaction).2 (Or.inr rfl)))

end Calls

/-! ### Every run -/

theorem Named.spawn {env : Env} {w w' : World} {stages : List (Task × Stage)} {task : Task}
    (h : Named w stages) (hspawn : spawn env task w = some w') :
    Named w' (stages ++ [(task, (system env).entry task)]) := by
  have hs := spawned_spawn hspawn
  have hheld : ∀ x t, names w' (stages ++ [(task, (system env).entry task)]) x = some t →
      names w stages x = some t := by
    intro x t hx
    cases x with
    | inl x =>
        change ((stages ++ [(task, (system env).entry task)])[x]?).bind _ = _ at hx
        by_cases hx' : x < stages.length
        · rw [List.getElem?_append_left hx'] at hx
          exact hx
        · obtain ⟨s, hnew, hname⟩ := Option.bind_eq_some_iff.1 hx
          rw [List.getElem?_append_right (by omega)] at hnew
          obtain rfl := List.mem_singleton.1 (List.mem_of_getElem? hnew)
          cases task <;> cases hname
    | inr id =>
        change (w'.idempotency.records.find? id).bind _ = _ at hx
        rw [hs.idempotency] at hx
        exact hx
  exact ⟨h.distinct.released hheld,
    fun x t hx => hs.grows.transactions.isSome (h.known x t (hheld x t hx))⟩

theorem named_after (env : Env) (labels : List (Label Task Draw)) :
    Named (after env labels).world (after env labels).stages := by
  have hall : Pool.Along (system env) (fun _ _ => True) (Pool.start .empty) labels :=
    Pool.along_of_forall (fun _ _ => trivial) _ labels
  refine (Pool.invariant (J := Named) (system_follows env) ?_ ?_ hall (Pool.tracked_start _ _) ?_).2
  · exact fun P task w h _ hspawn => h.spawn hspawn
  · intro P i task q c ω h _ hi _ hallows
    cases hallows with
    | record hc hop => exact h.record hi hc hop
    | @operate r id request hrequest =>
        have hnamed := h.operate (ω := ω) env request hi
        cases request <;> exact hnamed
    | webhook hc => exact h.idle env rfl hi rfl
    | reconcile hc => exact h.idle env rfl hi rfl
  · refine ⟨fun x x' t hx => ?_, fun x t hx => ?_⟩ <;> cases x <;> cases hx

/-- **A transaction is recorded once.**  A COMPLETED record holds the result of a request
that was done, and no two records name one transaction. -/
theorem records_unique (env : Env) (labels : List (Label Task Draw)) :
    Kept env (after env labels).world ∧
      ∀ record ∈ (after env labels).world.idempotency.records.rows,
        ∀ record' ∈ (after env labels).world.idempotency.records.rows, ∀ t,
          record.transactionId = some t → record'.transactionId = some t → record = record' := by
  refine ⟨(truth_after env labels).2.1, fun record hmem record' hmem' t ht ht' => ?_⟩
  have hname : ∀ r ∈ (after env labels).world.idempotency.records.rows, r.transactionId = some t →
      names (after env labels).world (after env labels).stages (.inr r.id) = some t := by
    intro r hr hrt
    have hfind : (after env labels).world.idempotency.records.find? r.id = some r :=
      Table.find?_key hr
    show ((after env labels).world.idempotency.records.find? r.id).bind _ = _
    rw [hfind]
    exact hrt
  have hid := (named_after env labels).distinct _ _ t (hname record hmem ht)
    (hname record' hmem' ht')
  exact Table.eq_of_key_eq hmem hmem' (Sum.inr.inj hid)

end Engine
end LedgerEngine
