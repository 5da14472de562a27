/-
# At most one operation commits among concurrent calls

Any number of calls of `execute` are interleaved call by call, and nothing
fails.  The unique constraint lets one insert through; a FAILED record is
claimed again by an update that asks for nothing, so two retries that have both
read FAILED both run the operation (`concurrent_retries_commit_twice`).  Where
every re-claiming update still finds the record FAILED, at most one operation
commits and a completed record is final (`commits_le_one_of_undisturbed`).

The proof says what the stage of a request knows of its record and of the
commits of its key (`Stage.Knows`), and that a request that holds a record is
the only one to do so (`Exclusive`).
-/

import LedgerEngine.Idempotency.Stages

namespace LedgerEngine
namespace Idempotency

variable {π : Type}

/-- How often the operation of a key has taken effect. -/
def World.committed (w : World) (key : JsString × JsString) : ℕ := w.commits.count key

/-- The request has claimed its record and not settled yet. -/
def Stage.Holds : Stage → Prop
  | .claimed | .operating _ | .completing _ _ | .failing _ => True
  | _ => False

/-- The record with this key is being processed under this id. -/
def Processing (w : World) (key : JsString × JsString) (id : Uuid) : Prop :=
  ∃ r, w.records.lookup key = some r ∧ r.id = id ∧ r.status = .processing

/-- What a request knows at a stage, while nobody disturbs it. -/
def Stage.Knows (w : World) (key : JsString × JsString) : Stage → Prop
  | .reclaiming id => ∃ r, w.records.lookup key = some r ∧ r.id = id
  | .claimed => w.committed key = 0 ∧ ∃ id, Processing w key id
  | .operating id | .failing id => w.committed key = 0 ∧ Processing w key id
  | .completing id _ => Processing w key id
  | _ => True

/-- No two requests hold the same record, and only a record that was never
completed may be claimed. -/
structure Exclusive (w : World) (ts : List (Request π × Stage)) : Prop where
  knows : ∀ (i : ℕ) (t : Request π) (q : Stage), ts[i]? = some (t, q) → q.Knows w t.key
  unique : ∀ (i j : ℕ) (t u : Request π) (q q' : Stage), ts[i]? = some (t, q) →
    ts[j]? = some (u, q') → q.Holds → q'.Holds → t.key = u.key → i = j
  once : ∀ key, w.committed key ≤ 1
  open_ : ∀ key, (∀ r, w.records.lookup key = some r → r.status = .failed) →
    w.committed key = 0

theorem Stage.Knows.processing {w : World} {key : JsString × JsString} {q : Stage}
    (h : q.Knows w key) (hq : q.Holds) : ∃ id, Processing w key id := by
  cases q with
  | claimed => exact h.2
  | operating id => exact ⟨id, h.2⟩
  | failing id => exact ⟨id, h.2⟩
  | completing id _ => exact ⟨id, h⟩
  | _ => exact hq.elim

/-- What a request knows is about its own key, and its id if it holds nothing. -/
theorem Stage.Knows.frame {w w' : World} {key : JsString × JsString} {q : Stage}
    (h : q.Knows w key)
    (hkey : q.Holds → w'.records.lookup key = w.records.lookup key ∧
      w'.committed key = w.committed key)
    (hids : ∀ r, w.records.lookup key = some r →
      ∃ r', w'.records.lookup key = some r' ∧ r'.id = r.id) : q.Knows w' key := by
  cases q with
  | reclaiming id =>
      obtain ⟨r, hr, hid⟩ := h
      obtain ⟨r', hr', hid'⟩ := hids r hr
      exact ⟨r', hr', hid'.trans hid⟩
  | claimed =>
      obtain ⟨hl, hc⟩ := hkey trivial
      simpa only [Stage.Knows, Processing, hl, hc] using h
  | operating id =>
      obtain ⟨hl, hc⟩ := hkey trivial
      simpa only [Stage.Knows, Processing, hl, hc] using h
  | failing id =>
      obtain ⟨hl, hc⟩ := hkey trivial
      simpa only [Stage.Knows, Processing, hl, hc] using h
  | completing id _ =>
      obtain ⟨hl, -⟩ := hkey trivial
      simpa only [Stage.Knows, Processing, hl] using h
  | _ => trivial

namespace Exclusive

variable {w w' : World} {ts : List (Request π × Stage)} {i : ℕ} {t : Request π} {q q' : Stage}

/-- Thread `i` moves to a stage at which it holds nothing; the records and
commits stay. -/
theorem idle (h : Exclusive w ts) (hrecords : w'.records = w.records)
    (hcommits : w'.commits = w.commits) (hq' : q'.Knows w' t.key) (hh : ¬ q'.Holds) :
    Exclusive w' (ts.set i (t, q')) where
  knows j u p hj := by
    rcases getElem?_set_some hj with ⟨-, hj⟩ | ⟨-, hj⟩
    · obtain ⟨rfl, rfl⟩ := Prod.mk.inj hj
      exact hq'
    · refine (h.knows j u p hj).frame (fun _ => ?_) fun r hr => ⟨r, by rwa [hrecords], rfl⟩
      exact ⟨by rw [hrecords], by rw [World.committed, hcommits]; rfl⟩
  unique j k u v p p' hj hk hp hp' := by
    rcases getElem?_set_some hj with ⟨-, hj⟩ | ⟨-, hj⟩
    · obtain ⟨-, rfl⟩ := Prod.mk.inj hj
      exact absurd hp hh
    · rcases getElem?_set_some hk with ⟨-, hk⟩ | ⟨-, hk⟩
      · obtain ⟨-, rfl⟩ := Prod.mk.inj hk
        exact absurd hp' hh
      · exact h.unique j k u v p p' hj hk hp hp'
  once key := by rw [World.committed, hcommits]; exact h.once key
  open_ key hkey := by
    rw [World.committed, hcommits]
    exact h.open_ key (by rwa [hrecords] at hkey)

/-- Thread `i` moves while no other holds its key; other keys are left alone. -/
theorem move (h : Exclusive w ts)
    (hfree : ∀ j u p, j ≠ i → ts[j]? = some (u, p) → p.Holds → u.key ≠ t.key)
    (hothers : ∀ key, key ≠ t.key → w'.records.lookup key = w.records.lookup key ∧
      w'.committed key = w.committed key)
    (hids : ∀ r, w.records.lookup t.key = some r →
      ∃ r', w'.records.lookup t.key = some r' ∧ r'.id = r.id)
    (hq' : q'.Knows w' t.key) (honce : w'.committed t.key ≤ 1)
    (hopen : (∀ r, w'.records.lookup t.key = some r → r.status = .failed) →
      w'.committed t.key = 0) : Exclusive w' (ts.set i (t, q')) where
  knows j u p hj := by
    rcases getElem?_set_some hj with ⟨-, hj⟩ | ⟨hji, hj⟩
    · obtain ⟨rfl, rfl⟩ := Prod.mk.inj hj
      exact hq'
    · refine (h.knows j u p hj).frame (fun hp => hothers _ (hfree j u p hji hj hp)) fun r hr => ?_
      by_cases hu : u.key = t.key
      · rw [hu] at hr ⊢
        exact hids r hr
      · exact ⟨r, by rwa [(hothers _ hu).1], rfl⟩
  unique j k u v p p' hj hk hp hp' huv := by
    rcases getElem?_set_some hj with ⟨rfl, hju⟩ | ⟨hji, hju⟩
    · rcases getElem?_set_some hk with ⟨rfl, -⟩ | ⟨hki, hkv⟩
      · rfl
      · have hv := hfree k v p' hki hkv hp'
        obtain ⟨rfl, rfl⟩ := Prod.mk.inj hju
        exact absurd huv.symm hv
    · rcases getElem?_set_some hk with ⟨rfl, hkv⟩ | ⟨-, hkv⟩
      · have hu := hfree j u p hji hju hp
        obtain ⟨rfl, rfl⟩ := Prod.mk.inj hkv
        exact absurd huv hu
      · exact h.unique j k u v p p' hju hkv hp hp' huv
  once key := by
    by_cases hkey : key = t.key
    · exact hkey ▸ honce
    · rw [(hothers key hkey).2]
      exact h.once key
  open_ key hfailed := by
    by_cases hkey : key = t.key
    · subst hkey
      exact hopen hfailed
    · rw [(hothers key hkey).1] at hfailed
      rw [(hothers key hkey).2]
      exact h.open_ key hfailed

/-- A new request holds nothing. -/
theorem spawn (h : Exclusive w ts) (t : Request π) : Exclusive w (ts ++ [(t, .entering)]) where
  knows j u p hj := by
    rcases getElem?_append_some hj with hj | ⟨-, e⟩
    · exact h.knows j u p hj
    · obtain ⟨-, rfl⟩ := Prod.mk.inj e
      trivial
  unique j k u v p p' hj hk hp hp' := by
    rcases getElem?_append_some hj with hj | ⟨-, e⟩
    · rcases getElem?_append_some hk with hk | ⟨-, e⟩
      · exact h.unique j k u v p p' hj hk hp hp'
      · obtain ⟨-, rfl⟩ := Prod.mk.inj e
        exact hp'.elim
    · obtain ⟨-, rfl⟩ := Prod.mk.inj e
      exact hp.elim
  once := h.once
  open_ := h.open_

/-- A request that holds its key is the only one to hold it. -/
theorem free_of_holds (h : Exclusive w ts) (hi : ts[i]? = some (t, q)) (hq : q.Holds) :
    ∀ j u p, j ≠ i → ts[j]? = some (u, p) → p.Holds → u.key ≠ t.key :=
  fun j u p hji hj hp huv => hji (h.unique j i u t p q hj hi hp hq huv)

/-- Nobody holds a key whose record is not being processed. -/
theorem free_of_lookup (h : Exclusive w ts)
    (hkey : ∀ r, w.records.lookup t.key = some r → r.status ≠ .processing) :
    ∀ j u p, j ≠ i → ts[j]? = some (u, p) → p.Holds → u.key ≠ t.key := by
  intro j u p _ hj hp hu
  obtain ⟨id, r, hr, -, hs⟩ := (h.knows j u p hj).processing hp
  exact hkey r (hu ▸ hr) hs

end Exclusive

/-- The requests that share the records. -/
abbrev Requests (π : Type) := Pool (Request π) Command Command.Res Exception Json World Stage

/-- No call of the step fails. -/
def FaultFree : Label (Request π) Draw → Prop
  | .spawn _ => True
  | .step _ ω => ω.fault.isNone = true

/-- The record a call moves back to PROCESSING. -/
def Command.reclaims : Command → Option Uuid
  | .update id _ => some id
  | _ => none

/-- A re-claiming update finds the record FAILED, as the request has read it. -/
def Undisturbed (P : Requests π) : Label (Request π) Draw → Prop
  | .spawn _ => True
  | .step i _ => ∀ id ∈ (P.threads[i]?.bind Thread.head).bind Command.reclaims,
      ∀ r ∈ P.world.records.find? id, r.status = .failed

instance : (l : Label (Request π) Draw) → Decidable (FaultFree l)
  | .spawn _ => inferInstanceAs (Decidable True)
  | .step _ ω => inferInstanceAs (Decidable (ω.fault.isNone = true))

instance (P : Requests π) : (l : Label (Request π) Draw) → Decidable (Undisturbed P l)
  | .spawn _ => inferInstanceAs (Decidable True)
  | .step i _ => inferInstanceAs (Decidable
      (∀ id ∈ (P.threads[i]?.bind Thread.head).bind Command.reclaims,
        ∀ r ∈ P.world.records.find? id, r.status = .failed))

theorem World.committed_cons_of_ne {w : World} {key k : JsString × JsString} (h : k ≠ key) :
    (key :: w.commits).count k = w.committed k :=
  List.count_cons_of_ne (Ne.symm h)

/-- A patch of the row with this key, seen through the keys. -/
theorem lookup_patch (column : Jsonb) {records : IndexedTable IdempotencyRecordEntity}
    {key : JsString × JsString} {r : IdempotencyRecordEntity} (h : records.lookup key = some r)
    (now : Time) (p : Patch) :
    (records.update r.id (p.change column now)).lookup key = some (p.apply column now r) ∧
      ∀ k, k ≠ key →
        (records.update r.id (p.change column now)).lookup k = records.lookup k :=
  ⟨IndexedTable.lookup_update_self h _, fun _ hk => IndexedTable.lookup_update_of_ne h hk _⟩

section Undisturbed

variable {column : Jsonb} {ω : Draw} {w : World} {ts : List (Request π × Stage)} {i : ℕ}
  {t : Request π} {q : Stage} {requestHash : JsString}

/-- A request that holds its record patches it. -/
theorem Exclusive.patch (h : Exclusive w ts) (hi : ts[i]? = some (t, q)) (hq : q.Holds)
    {id : Uuid} (hid : Processing w t.key id) (now : Time) (p : Patch)
    (hopen : p.status = .failed → w.committed t.key = 0) :
    Exclusive { w with records := w.records.update id (p.change column now) }
      (ts.set i (t, .settled)) := by
  obtain ⟨r, hr, rfl, -⟩ := hid
  obtain ⟨hself, hothers⟩ := lookup_patch column hr now p
  refine h.move (h.free_of_holds hi hq) (fun key hkey => ⟨hothers key hkey, rfl⟩) ?_ trivial
    (h.once _) fun hfailed => ?_
  · intro r' hr'
    obtain rfl := Option.some.inj (hr.symm.trans hr')
    exact ⟨_, hself, rfl⟩
  · exact hopen (hfailed _ hself)

/-- **One call without failures keeps requests exclusive**, if a re-claiming
update finds the record FAILED. -/
theorem Exclusive.call {c : Command} (h : Exclusive w ts) (hi : ts[i]? = some (t, q))
    (hc : q.Allows t.key requestHash c)
    (hok : ∀ id p, c = .update id p → ∀ r, w.records.find? id = some r → r.status = .failed) :
    Exclusive (answer column ω c w).2
      (ts.set i (t, q.next requestHash c (answer column ω c w).1)) := by
  have hknows := h.knows i t q hi
  cases hc with
  | @find endpoint k hk =>
      cases hr : w.records.lookup (endpoint, k) with
      | none =>
          simp only [answer, hr, Stage.next]
          exact h.idle rfl rfl trivial id
      | some r =>
          simp only [answer, hr, Stage.next]
          split_ifs
          · exact h.idle rfl rfl trivial id
          · exact h.idle rfl rfl ⟨r, hk ▸ hr, rfl⟩ id
  | reclaim id =>
      obtain ⟨r, hr, rfl⟩ := hknows
      obtain ⟨hmem, -⟩ := IndexedTable.lookup_eq_some hr
      have hs : r.status = .failed := hok _ _ rfl r (Table.find?_key hmem)
      have hcommitted : w.committed t.key = 0 := h.open_ _ fun r' hr' => by
        rw [← Option.some.inj (hr.symm.trans hr')]
        exact hs
      obtain ⟨hself, hothers⟩ := lookup_patch column hr ω.now reclaimed
      refine h.move (h.free_of_lookup fun r' hr' => ?_) (fun key hkey => ⟨hothers key hkey, rfl⟩)
        (fun r' hr' => ?_) ⟨hcommitted, _, _, hself, rfl, rfl⟩ (h.once _) fun _ => hcommitted
      · rw [← Option.some.inj (hr.symm.trans hr'), hs]
        decide
      · obtain rfl := Option.some.inj (hr.symm.trans hr')
        exact ⟨_, hself, rfl⟩
  | @insert endpoint k hk =>
      cases hinsert : w.records.insert? (NewRecord.row ω.id ω.now
          ⟨endpoint, k, requestHash, .processing⟩) with
      | none =>
          simp only [answer, hinsert, duplicateRecord, Stage.next]
          exact h.idle rfl rfl trivial id
      | some records =>
          simp only [answer, hinsert, Stage.next]
          have hnone : w.records.lookup t.key = none :=
            hk ▸ (IndexedTable.insert?_eq_some hinsert).2.1
          have hcommitted : w.committed t.key = 0 := h.open_ _ fun r hr => by
            rw [hnone] at hr
            exact absurd hr (by simp)
          refine h.move (h.free_of_lookup fun r hr => ?_) (fun key hkey => ⟨?_, rfl⟩)
            (fun r hr => ?_) ⟨hcommitted, _, _, (IndexedTable.lookup_insert hinsert _).trans
              (if_pos hk), rfl, rfl⟩ (h.once _) fun _ => hcommitted
          · rw [hnone] at hr
            exact absurd hr (by simp)
          · exact (IndexedTable.lookup_insert hinsert key).trans
              (if_neg fun e => hkey (e.symm.trans hk))
          · rw [hnone] at hr
            exact absurd hr (by simp)
  | race hk => exact h.idle rfl rfl trivial id
  | @reload endpoint k hk =>
      obtain ⟨hcommitted, id, r, hr, rfl, hs⟩ := hknows
      have hr' : w.records.lookup (endpoint, k) = some r := hk ▸ hr
      simp only [answer, hr', Stage.next]
      exact h.move (h.free_of_holds hi trivial) (fun _ _ => ⟨rfl, rfl⟩)
        (fun r hr => ⟨r, hr, rfl⟩) ⟨hcommitted, r, hr, rfl, hs⟩ (h.once _) fun _ => hcommitted
  | @operate id endpoint k hk =>
      obtain ⟨hcommitted, hprocessing⟩ := hknows
      cases ho : ω.outcome with
      | resolve result =>
          simp only [answer, ho, Stage.next]
          obtain ⟨r, hr, hid, hs⟩ := hprocessing
          have hone : ((endpoint, k) :: w.commits).count t.key = 1 := by
            rw [hk, List.count_cons_self]
            exact congrArg (· + 1) hcommitted
          refine h.move (h.free_of_holds hi trivial) (fun key hkey => ⟨rfl, ?_⟩)
            (fun r hr => ⟨r, hr, rfl⟩) ⟨r, hr, hid, hs⟩ hone.le fun hfailed => ?_
          · exact World.committed_cons_of_ne fun e => hkey (e.trans hk)
          · rw [hfailed r hr] at hs
            exact absurd hs (by decide)
      | reject e =>
          simp only [answer, ho, Stage.next]
          have hcaught : (Stage.caught id e).Knows
              { w with invocations := (endpoint, k) :: w.invocations } t.key := by
            unfold Stage.caught
            cases normalizeError e with
            | ok normalized => exact ⟨hcommitted, hprocessing⟩
            | error e' => trivial
          exact h.move (h.free_of_holds hi trivial) (fun _ _ => ⟨rfl, rfl⟩)
            (fun r hr => ⟨r, hr, rfl⟩) hcaught (h.once _) fun _ => hcommitted
  | complete id result =>
      exact h.patch hi trivial hknows ω.now _ fun hs => IdempotencyStatus.noConfusion hs
  | fail id normalized =>
      exact h.patch hi trivial hknows.2 ω.now _ fun _ => hknows.1

/-- An update of a row that is not completed leaves completed records alone. -/
theorem lookup_update_of_completed {id : Uuid} {key : JsString × JsString}
    {r₀ : IdempotencyRecordEntity} (h₀ : w.records.lookup key = some r₀)
    (hs : r₀.status = .completed)
    (hid : ∀ r, w.records.find? id = some r → r.status ≠ .completed)
    (f : Change IdempotencyRecordEntity) : (w.records.update id f).lookup key = some r₀ := by
  rw [IndexedTable.lookup_update, h₀, Option.map_some]
  have hne : r₀.id ≠ id := fun e =>
    hid r₀ (e ▸ Table.find?_key (IndexedTable.lookup_eq_some h₀).1) hs
  exact congrArg some (IndexedTable.changed_of_ne hne f)

theorem Processing.find? {key : JsString × JsString} {id : Uuid} (h : Processing w key id) :
    ∀ r, w.records.find? id = some r → r.status ≠ .completed := by
  obtain ⟨r', hr', rfl, hs⟩ := h
  intro r hr
  obtain rfl := Option.some.inj
    ((Table.find?_key (IndexedTable.lookup_eq_some hr').1).symm.trans hr)
  rw [hs]
  decide

/-- **No call changes a completed record**, where requests are exclusive. -/
theorem Exclusive.final {c : Command} (h : Exclusive w ts) (hi : ts[i]? = some (t, q))
    (hc : q.Allows t.key requestHash c)
    (hok : ∀ id p, c = .update id p → ∀ r, w.records.find? id = some r → r.status = .failed)
    {key : JsString × JsString} {r₀ : IdempotencyRecordEntity}
    (h₀ : w.records.lookup key = some r₀) (hs : r₀.status = .completed) :
    (answer column ω c w).2.records.lookup key = some r₀ := by
  have hknows := h.knows i t q hi
  cases hc with
  | find | race => exact h₀
  | reclaim id =>
      refine lookup_update_of_completed h₀ hs (fun r hr => ?_) _
      rw [hok _ _ rfl r hr]
      decide
  | @insert endpoint k hk =>
      cases hinsert : w.records.insert? (NewRecord.row ω.id ω.now
          ⟨endpoint, k, requestHash, .processing⟩) with
      | none => simpa only [answer, hinsert] using h₀
      | some records =>
          simp only [answer, hinsert]
          have hnone := (IndexedTable.insert?_eq_some hinsert).2.1
          refine (IndexedTable.lookup_insert hinsert key).trans ((if_neg fun e => ?_).trans h₀)
          rw [e, h₀] at hnone
          exact absurd hnone (by simp)
  | @reload endpoint k _ =>
      cases hl : w.records.lookup (endpoint, k) <;> simpa only [answer, hl] using h₀
  | operate =>
      cases ho : ω.outcome <;> simpa only [answer, ho] using h₀
  | complete id result => exact lookup_update_of_completed h₀ hs hknows.find? _
  | fail id normalized => exact lookup_update_of_completed h₀ hs hknows.2.find? _

end Undisturbed

theorem exclusive_empty : Exclusive World.empty ([] : List (Request π × Stage)) where
  knows i t q hi := by simp at hi
  unique i j t u q q' hi := by simp at hi
  once _ := Nat.zero_le 1
  open_ _ _ := rfl

/-- **Requests stay exclusive and completed records final** along every
undisturbed history. -/
theorem exclusive_run (createPayloadHash : π → JsString) (column : Jsonb)
    {P : Requests π} {labels : List (Label (Request π) Draw)}
    (h : P.Along (system createPayloadHash column) (fun P l => FaultFree l ∧ Undisturbed P l) labels)
    (htracked : P.Tracked (system createPayloadHash column) fun _ => Ended)
    (hexclusive : Exclusive P.world P.stages) :
    (P.run (system createPayloadHash column) labels).Tracked (system createPayloadHash column)
        (fun _ => Ended) ∧
      Exclusive (P.run (system createPayloadHash column) labels).world
        (P.run (system createPayloadHash column) labels).stages ∧
      ∀ key r, P.world.records.lookup key = some r → r.status = .completed →
        (P.run (system createPayloadHash column) labels).world.records.lookup key = some r := by
  let J := fun (w : World) (ts : List (Request π × Stage)) => Exclusive w ts ∧
    ∀ key r, P.world.records.lookup key = some r → r.status = .completed →
      w.records.lookup key = some r
  refine Pool.invariant (J := J) (execute_follows createPayloadHash column) ?_ ?_ h htracked
    ⟨hexclusive, fun _ _ hr _ => hr⟩
  · rintro P t w ⟨hE, hfinal⟩ - hw
    obtain rfl := Option.some.inj hw
    exact ⟨hE.spawn t, hfinal⟩
  · rintro P i t q c ω ⟨hE, hfinal⟩ ⟨hfault, hok⟩ hi hhead hc
    have hexec : (system createPayloadHash column).exec ω = answer column ω := by
      have : ω.fault = none := Option.isNone_iff_eq_none.1 hfault
      simp only [system, exec, this, Prog.Handler.meet]
    have hupdate : ∀ id p, c = .update id p →
        ∀ r, P.world.records.find? id = some r → r.status = .failed := fun id p e r hr => by
      subst e
      exact hok id (by rw [hhead]; rfl) r hr
    rw [hexec]
    exact ⟨hE.call hi hc hupdate,
      fun key r hr hs => hE.final hi hc hupdate (hfinal key r hr hs) hs⟩

/-- **At most one operation commits among concurrent calls.**  In every history
without storage failures in which each re-claiming update finds the record
FAILED, the operation of a key takes effect at most once, and a completed record
never changes again. -/
theorem commits_le_one_of_undisturbed (createPayloadHash : π → JsString) (column : Jsonb)
    (labels labels' : List (Label (Request π) Draw))
    (h : Pool.Along (system createPayloadHash column) (fun P l => FaultFree l ∧ Undisturbed P l)
      (.start .empty) (labels ++ labels')) (key : JsString × JsString) :
    (Pool.run (system createPayloadHash column) (.start .empty)
        (labels ++ labels')).world.committed key ≤ 1 ∧
      ∀ r, (Pool.run (system createPayloadHash column) (.start .empty)
          labels).world.records.lookup key = some r → r.status = .completed →
        (Pool.run (system createPayloadHash column) (.start .empty)
          (labels ++ labels')).world.records.lookup key = some r := by
  obtain ⟨h₁, h₂⟩ := Pool.along_append.1 h
  obtain ⟨htracked, hexclusive, -⟩ := exclusive_run createPayloadHash column h₁
    (Pool.tracked_start _ _) exclusive_empty
  obtain ⟨-, hexclusive', hfinal⟩ := exclusive_run createPayloadHash column h₂ htracked hexclusive
  rw [Pool.run_append]
  exact ⟨hexclusive'.once key, hfinal key⟩

/-- A deposit request, sent more than once. -/
def retried : Request JsString := ⟨js "POST:/transactions/deposit", some (js "key"), js "payload"⟩

/-- The draws of a call that meets no fault; the operation rejects. -/
def rejecting : Draw := ⟨none, .ofText (js "a"), 0, .reject (.domain (.insufficientFunds 0 1))⟩

/-- The draws of a call that meets no fault; the operation resolves. -/
def resolving : Draw := ⟨none, .ofText (js "b"), 1, .resolve ⟨201, .obj [], none⟩⟩

/-- A call is rejected; a retry reads FAILED, claims the record again and commits. -/
def rejectedThenRetried : List (Label (Request JsString) Draw) :=
  [.spawn retried, .step 0 rejecting, .step 0 rejecting, .step 0 rejecting, .step 0 rejecting,
    .step 0 rejecting, .spawn retried, .step 1 resolving, .step 1 resolving, .step 1 resolving,
    .step 1 resolving, .step 1 resolving]

/-- The operation of the retry has taken effect, and a third call does not change its
record. -/
theorem commits_le_one_of_undisturbed_retried :
    (Pool.run (system id .verbatim) (.start .empty)
        (rejectedThenRetried ++ [.spawn retried, .step 2 resolving])).world.committed
          retried.key ≤ 1 ∧
      ∀ r, (Pool.run (system id .verbatim) (.start .empty)
          rejectedThenRetried).world.records.lookup retried.key = some r → r.status = .completed →
        (Pool.run (system id .verbatim) (.start .empty)
          (rejectedThenRetried ++ [.spawn retried, .step 2 resolving])).world.records.lookup
            retried.key = some r :=
  commits_le_one_of_undisturbed id .verbatim _ _ (by decide) _

/-- A call is rejected; two retries both read FAILED before either claims the
record, and both run the operation. -/
def concurrentRetries : List (Label (Request JsString) Draw) :=
  [.spawn retried, .step 0 rejecting, .step 0 rejecting, .step 0 rejecting, .step 0 rejecting,
    .step 0 rejecting, .spawn retried, .spawn retried, .step 1 resolving, .step 2 resolving,
    .step 1 resolving, .step 2 resolving, .step 1 resolving, .step 1 resolving, .step 2 resolving,
    .step 2 resolving]

theorem concurrent_retries_commit_twice :
    (∀ l ∈ concurrentRetries, FaultFree l) ∧
      (Pool.run (system id .verbatim) (.start .empty) concurrentRetries).world.committed
        retried.key = 2 := by
  decide

end Idempotency
end LedgerEngine
