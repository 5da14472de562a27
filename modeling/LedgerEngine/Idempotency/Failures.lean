/-
# At most one operation commits across failures

Calls of `execute` come one after the other; any call they make may fail, with
or without having taken effect, and the process may stop at any `await`, after
which the next request starts.  When the save of COMPLETED is refused after the
operation has committed, the `catch` stores FAILED and a retry runs the
operation again (`refused_completion_commits_twice`).  Where no save of FAILED
takes effect after a commit, at most one operation commits
(`commits_le_one_of_kept`).

What holds between any two requests is `Settled`; `Stage.Expects` is what the
request under way may rely on besides.
-/

import LedgerEngine.Idempotency.AtMostOnce

namespace LedgerEngine
namespace Idempotency

variable {π : Type}

/-- Only the request spawned last makes calls: the ones before it have returned,
thrown or stopped. -/
def Sequential (P : Requests π) : Label (Request π) Draw → Prop
  | .spawn _ => True
  | .step i _ => i + 1 = P.threads.length

/-- An operation that resolves does so with a body that is replayed. -/
def Truthful : Label (Request π) Draw → Prop
  | .step _ ⟨_, _, _, .resolve result⟩ => result.body.truthy = true
  | _ => True

/-- A save of FAILED. -/
def Command.fails : Command → Bool
  | .save _ p => p.status = .failed
  | _ => false

/-- A call whose effect takes place. -/
def Draw.lands (ω : Draw) : Bool :=
  match ω.fault with
  | some (.refused _) => false
  | _ => true

/-- A save of FAILED that takes effect does so while the operation has not. -/
def Kept (P : Requests π) : Label (Request π) Draw → Prop
  | .spawn _ => True
  | .step i ω => ∀ th ∈ P.threads[i]?, th.head.any Command.fails = true → ω.lands = true →
      P.world.committed th.tag.key = 0

instance (P : Requests π) : (l : Label (Request π) Draw) → Decidable (Sequential P l)
  | .spawn _ => inferInstanceAs (Decidable True)
  | .step i _ => inferInstanceAs (Decidable (i + 1 = P.threads.length))

instance : (l : Label (Request π) Draw) → Decidable (Truthful l)
  | .spawn _ => inferInstanceAs (Decidable True)
  | .step _ ⟨_, _, _, .reject _⟩ => inferInstanceAs (Decidable True)
  | .step _ ⟨_, _, _, .resolve result⟩ =>
      inferInstanceAs (Decidable (result.body.truthy = true))

instance (P : Requests π) : (l : Label (Request π) Draw) → Decidable (Kept P l)
  | .spawn _ => inferInstanceAs (Decidable True)
  | .step i ω => inferInstanceAs (Decidable
      (∀ th ∈ P.threads[i]?, th.head.any Command.fails = true → ω.lands = true →
        P.world.committed th.tag.key = 0))

/-- The record of a key says whether its operation may still run: not after a
commit, unless it is being processed or completed. -/
structure Settled (w : World) : Prop where
  once : ∀ key, w.committed key ≤ 1
  open_ : ∀ key, (∀ r, w.records.lookup key = some r → r.status = .failed) →
    w.committed key = 0
  truthy : ∀ key r, w.records.lookup key = some r → r.status = .completed →
    r.responseBody.truthy = true

/-- The record of a key has this id. -/
def Recorded (w : World) (key : JsString × JsString) (id : Uuid) : Prop :=
  ∃ r, w.records.lookup key = some r ∧ r.id = id

/-- What the request under way relies on at a stage. -/
def Stage.Expects (w : World) (key : JsString × JsString) : Stage → Prop
  | .reclaiming id => w.committed key = 0 ∧ Recorded w key id
  | .claimed => w.committed key = 0 ∧ ∃ id, Processing w key id
  | .operating id => w.committed key = 0 ∧ Processing w key id
  | .completing id result => result.body.truthy = true ∧ Recorded w key id
  | .failing id => Recorded w key id
  | _ => True

theorem Processing.recorded {w : World} {key : JsString × JsString} {id : Uuid}
    (h : Processing w key id) : Recorded w key id := by
  obtain ⟨r, hr, hid, -⟩ := h
  exact ⟨r, hr, hid⟩

section Settled

variable {column : Jsonb} {ω : Draw} {w : World} {key : JsString × JsString} {id : Uuid}
  {q : Stage} {requestHash : JsString}

variable (column) in
/-- A patch of the record of a key, by what it stores. -/
theorem Settled.patch (h : Settled w) (hid : Recorded w key id) (now : Time) (p : Patch)
    (hfailed : p.status = .failed → w.committed key = 0)
    (hcompleted : p.status = .completed → p.responseBody.truthy = true) :
    Settled { w with records := w.records.update id (p.change column now) } := by
  obtain ⟨r, hr, rfl⟩ := hid
  obtain ⟨hself, hothers⟩ := lookup_patch column hr now p
  refine ⟨h.once, fun k hk => ?_, fun k r' hr' hs => ?_⟩
  · by_cases hkey : k = key
    · rw [hkey] at hk ⊢
      exact hfailed (hk _ hself)
    · dsimp only at hk
      rw [hothers k hkey] at hk
      exact h.open_ k hk
  · by_cases hkey : k = key
    · rw [hkey] at hr'
      obtain rfl := Option.some.inj (hself.symm.trans hr')
      exact (column.truthy_store _).trans (hcompleted hs)
    · exact h.truthy k r' ((hothers k hkey).symm.trans hr') hs

/-- A record keeps its id when it is patched. -/
theorem Recorded.patch (h : Recorded w key id) (now : Time) (p : Patch) (id' : Uuid) :
    Recorded { w with records := w.records.update id' (p.change column now) } key id := by
  obtain ⟨r, hr, rfl⟩ := h
  refine ⟨IndexedTable.changed id' (p.change column now) r, ?_,
    IndexedTable.key_changed (r := r) ..⟩
  exact (IndexedTable.lookup_update ..).trans (by rw [hr, Option.map_some])

/-- What a request relies on after it has patched the record it claimed. -/
theorem Recorded.claimed (h : Recorded w key id) (now : Time) :
    Processing { w with records := w.records.update id (reclaimed.change column now) } key id := by
  obtain ⟨r, hr, rfl⟩ := h
  exact ⟨_, (lookup_patch column hr now reclaimed).1, rfl, rfl⟩

/-- An error of a call leads to a stage that relies on nothing, or on the record. -/
theorem Stage.expects_caught (h : Recorded w key id) (e : Exception) :
    (Stage.caught id e).Expects w key := by
  unfold Stage.caught
  cases normalizeError e with
  | ok normalized => exact h
  | error e' => trivial

variable (column) in
/-- **What a call that goes through leaves**, from a stage that its world agrees
with: the records are settled, and so is what the request relies on. -/
theorem Settled.call {c : Command} (h : Settled w) (hq : q.Expects w key)
    (hc : q.Allows key requestHash c)
    (htruthful : ∀ result, ω.outcome = .resolve result → result.body.truthy = true)
    (hkept : c.fails = true → w.committed key = 0) :
    Settled (answer column ω c w).2 ∧
      (q.next requestHash c (answer column ω c w).1).Expects (answer column ω c w).2 key := by
  cases hc with
  | @find endpoint k hk =>
      cases hr : w.records.lookup (endpoint, k) with
      | none => simpa only [answer, hr, Stage.next] using ⟨h, trivial⟩
      | some r =>
          simp only [answer, hr, Stage.next]
          refine ⟨h, ?_⟩
          split_ifs with hreplay
          · trivial
          · push Not at hreplay
            obtain ⟨-, hnot, hprocessing⟩ := hreplay
            refine ⟨h.open_ key fun r' hr' => ?_, r, hk ▸ hr, rfl⟩
            obtain rfl := Option.some.inj (hr.symm.trans (hk ▸ hr'))
            cases hs : r.status with
            | processing => exact absurd hs hprocessing
            | failed => rfl
            | completed =>
                have htruthy := h.truthy _ r hr hs
                exact absurd (by simp [replayable, hs, htruthy]) hnot
  | reclaim id =>
      have hpatch := h.patch column hq.2 ω.now reclaimed (fun _ => hq.1)
        fun hs => IdempotencyStatus.noConfusion hs
      exact ⟨hpatch, hq.1, id, hq.2.claimed ω.now⟩
  | @insert endpoint k hk =>
      cases hinsert : w.records.insert? (NewRecord.row ω.id ω.now
          ⟨endpoint, k, requestHash, .processing⟩) with
      | none => simpa only [answer, hinsert, duplicateRecord, Stage.next] using ⟨h, trivial⟩
      | some records =>
          simp only [answer, hinsert, Stage.next]
          have hlookup := IndexedTable.lookup_insert hinsert
          have hnone : w.records.lookup key = none :=
            hk ▸ (IndexedTable.insert?_eq_some hinsert).2.1
          have hcommitted : w.committed key = 0 := h.open_ key fun r hr => by
            rw [hnone] at hr
            exact absurd hr (by simp)
          refine ⟨⟨h.once, fun k' hk' => ?_, fun k' r hr hs => ?_⟩, hcommitted, _, _,
            (hlookup key).trans (if_pos hk), rfl, rfl⟩
          · by_cases hkey : k' = key
            · rwa [hkey]
            · have hne : ¬ (endpoint, k) = k' := fun e => hkey (e.symm.trans hk)
              refine h.open_ k' fun r hr => hk' r ?_
              exact (hlookup k').trans ((if_neg hne).trans hr)
          · have hr' := (hlookup k').symm.trans hr
            split_ifs at hr' with hkey
            · obtain rfl := Option.some.inj hr'
              exact IdempotencyStatus.noConfusion hs
            · exact h.truthy k' r hr' hs
  | race => exact ⟨h, trivial⟩
  | @reload endpoint k hk =>
      obtain ⟨hcommitted, id, r, hr, hid, hs⟩ := hq
      have hr' : w.records.lookup (endpoint, k) = some r := hk ▸ hr
      simp only [answer, hr', Stage.next]
      exact ⟨h, hcommitted, r, hr, rfl, hs⟩
  | @operate id endpoint k hk =>
      obtain ⟨hcommitted, hprocessing⟩ := hq
      cases ho : ω.outcome with
      | reject e =>
          simp only [answer, ho, Stage.next]
          exact ⟨⟨h.once, h.open_, h.truthy⟩, Stage.expects_caught hprocessing.recorded e⟩
      | resolve result =>
          simp only [answer, ho, Stage.next]
          refine ⟨⟨fun k' => ?_, fun k' hk' => ?_, h.truthy⟩, htruthful result ho,
            hprocessing.recorded⟩
          · by_cases hkey : (endpoint, k) = k'
            · have : w.committed (endpoint, k) = 0 := hk ▸ hcommitted
              rw [← hkey, World.committed, List.count_cons_self]
              exact (congrArg (· + 1) this).le
            · exact (World.committed_cons_of_ne (Ne.symm hkey)).trans_le (h.once k')
          · have hkey : (endpoint, k) ≠ k' := by
              intro e
              obtain ⟨r, hr, -, hs⟩ := hprocessing
              have := hk' r (e ▸ hk ▸ hr)
              rw [hs] at this
              exact IdempotencyStatus.noConfusion this
            exact (World.committed_cons_of_ne (Ne.symm hkey)).trans (h.open_ k' hk')
  | complete id result =>
      have hfailed (hs : (completed result).status = .failed) : w.committed key = 0 :=
        IdempotencyStatus.noConfusion hs
      exact ⟨h.patch column hq.2 _ _ hfailed fun _ => hq.1, trivial⟩
  | fail id normalized =>
      have hcompleted (hs : (failed normalized).status = .completed) :
          (failed normalized).responseBody.truthy = true :=
        IdempotencyStatus.noConfusion hs
      exact ⟨h.patch column hq _ _ (fun _ => hkept rfl) hcompleted, trivial⟩

/-- No call takes a record or its id away. -/
theorem Recorded.answer (h : Recorded w key id) (c : Command) :
    Recorded (answer column ω c w).2 key id := by
  cases c with
  | findOne => exact h
  | findOneOrFail endpoint k =>
      cases hl : w.records.lookup (endpoint, k) <;> simpa only [Idempotency.answer, hl] using h
  | update id' p => exact h.patch ω.now p id'
  | save id' p => exact h.patch ω.now p id'
  | insert r =>
      cases hinsert : w.records.insert? (r.row ω.id ω.now) with
      | none => simpa only [Idempotency.answer, hinsert] using h
      | some records =>
          simp only [Idempotency.answer, hinsert]
          obtain ⟨r', hr', hid⟩ := h
          have hlookup := IndexedTable.lookup_insert hinsert key
          rw [if_neg fun e => ?_] at hlookup
          · exact ⟨r', hlookup.trans hr', hid⟩
          · rw [← e, (IndexedTable.insert?_eq_some hinsert).2.1] at hr'
            exact absurd hr' (by simp)
  | operation endpoint k =>
      cases ho : ω.outcome <;> simp only [Idempotency.answer, ho] <;> exact h

/-- An error of a call leads to a stage that relies on the record alone. -/
theorem Stage.Expects.error {w' : World} {c : Command} (h : q.Expects w key)
    (hc : q.Allows key requestHash c) (hw : ∀ id, Recorded w key id → Recorded w' key id)
    (e : Exception) : (q.next requestHash c (.error e)).Expects w' key := by
  cases hc with
  | insert hk => cases e <;> trivial
  | operate id hk => exact Stage.expects_caught (hw id h.2.recorded) e
  | complete id result => exact Stage.expects_caught (hw id h.2) e
  | _ => trivial

variable (column) in
/-- **What any call leaves**, whatever its fault. -/
theorem Settled.exec {c : Command} (h : Settled w) (hq : q.Expects w key)
    (hc : q.Allows key requestHash c)
    (htruthful : ∀ result, ω.outcome = .resolve result → result.body.truthy = true)
    (hkept : c.fails = true → ω.lands = true → w.committed key = 0) :
    Settled (exec column ω c w).2 ∧
      (q.next requestHash c (exec column ω c w).1).Expects (exec column ω c w).2 key := by
  have hcall (hlands : ω.lands = true) :=
    h.call column hq hc htruthful fun hfails => hkept hfails hlands
  cases hfault : ω.fault with
  | none =>
      simp only [Idempotency.exec, hfault, Prog.Handler.meet]
      exact hcall (by simp only [Draw.lands, hfault])
  | some fault =>
      cases fault with
      | refused e =>
          simp only [Idempotency.exec, hfault, Prog.Handler.meet]
          exact ⟨h, hq.error hc (fun _ hid => hid) e⟩
      | lost e =>
          simp only [Idempotency.exec, hfault, Prog.Handler.meet]
          exact ⟨(hcall (by simp only [Draw.lands, hfault])).1,
            hq.error hc (fun _ hid => hid.answer c) e⟩

end Settled

theorem settled_empty : Settled World.empty where
  once _ := Nat.zero_le 1
  open_ _ _ := rfl
  truthy key r h := by
    have hnone : World.empty.records.lookup key = none := rfl
    rw [hnone] at h
    exact absurd h (by simp)

/-- **At most one operation commits across failures.**  In every sequential
history, whichever calls fail and wherever requests stop, the operation of a key
takes effect at most once, if no save of FAILED takes effect after it has. -/
theorem commits_le_one_of_kept (createPayloadHash : π → JsString) (column : Jsonb)
    (labels : List (Label (Request π) Draw))
    (h : Pool.Along (system createPayloadHash column)
      (fun P l => Sequential P l ∧ Truthful l ∧ Kept P l) (.start .empty) labels)
    (key : JsString × JsString) :
    (Pool.run (system createPayloadHash column) (.start .empty) labels).world.committed key ≤ 1 := by
  -- only the last request makes calls, so only its stage has to agree with the world
  let J := fun (w : World) (ts : List (Request π × Stage)) => Settled w ∧
    ∀ i t q, ts[i]? = some (t, q) → i + 1 = ts.length → q.Expects w t.key
  refine (Pool.invariant (J := J) (execute_follows createPayloadHash column) ?_ ?_ h
    (Pool.tracked_start _ _) ⟨settled_empty, by simp [Pool.stages, Pool.start]⟩).2.1.once key
  · rintro P t w ⟨hsettled, -⟩ - hw
    obtain rfl := Option.some.inj hw
    refine ⟨hsettled, fun i u q hi hlast => ?_⟩
    rw [List.length_append, List.length_singleton] at hlast
    obtain rfl : i = P.stages.length := by omega
    rw [List.getElem?_concat_length] at hi
    obtain ⟨-, rfl⟩ := Prod.mk.inj (Option.some.inj hi)
    trivial
  · rintro P i t q c ω ⟨hsettled, hexpects⟩ ⟨hlast, htruthful, hkept⟩ hi hhead hc
    have hlength : P.stages.length = P.threads.length := List.length_map _
    have hbody (result) (hresult : ω.outcome = .resolve result) : result.body.truthy = true := by
      obtain ⟨_, _, _, outcome⟩ := ω
      obtain rfl : outcome = _ := hresult
      exact htruthful
    have hfailed (hfails : c.fails = true) (hlands : ω.lands = true) :
        P.world.committed t.key = 0 := by
      rw [Pool.stages, List.getElem?_map, Option.map_eq_some_iff] at hi
      obtain ⟨th, hth, e⟩ := hi
      obtain ⟨rfl, -⟩ := Prod.mk.inj e
      rw [hth, Option.bind_some] at hhead
      exact hkept th hth (by rwa [hhead, Option.any_some]) hlands
    obtain ⟨hsettled', hexpects'⟩ := hsettled.exec column
      (hexpects i t q hi (hlast.trans hlength.symm)) hc hbody hfailed
    refine ⟨hsettled', fun j u q' hj hj' => ?_⟩
    rcases getElem?_set_some hj with ⟨-, e⟩ | ⟨hji, -⟩
    · obtain ⟨rfl, rfl⟩ := Prod.mk.inj e
      exact hexpects'
    · rw [List.length_set, hlength, ← hlast] at hj'
      omega

/-- The column refuses the text of the body. -/
def refusing : Draw :=
  ⟨some (.refused (.queryFailed (js "unsupported Unicode escape sequence"))), .ofText (js "c"), 2,
    .resolve ⟨201, .obj [], none⟩⟩

/-- The first request stops before it saves COMPLETED: its retry is told that the
key is being processed. -/
theorem commits_le_one_of_kept_stopped :
    (Pool.run (system id .verbatim) (.start .empty)
      [.spawn retried, .step 0 resolving, .step 0 resolving, .step 0 resolving, .step 0 resolving,
        .spawn retried, .step 1 resolving]).world.committed retried.key ≤ 1 :=
  commits_le_one_of_kept id .verbatim _ (by decide) _

/-- The save of COMPLETED is refused, the save of FAILED is not, and the retry
claims the record again. -/
def retryAfterRefusal : List (Label (Request JsString) Draw) :=
  [.spawn retried, .step 0 resolving, .step 0 resolving, .step 0 resolving, .step 0 resolving,
    .step 0 refusing, .step 0 resolving, .spawn retried, .step 1 resolving,
    .step 1 resolving, .step 1 resolving, .step 1 resolving]

theorem refused_completion_commits_twice :
    Pool.Along (system id .verbatim) (fun P l => Sequential P l ∧ Truthful l) (.start .empty)
        retryAfterRefusal ∧
      (Pool.run (system id .verbatim) (.start .empty) retryAfterRefusal).world.committed
        retried.key = 2 := by
  decide

end Idempotency
end LedgerEngine
