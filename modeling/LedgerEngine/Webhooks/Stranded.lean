/-
# No delivery is stranded

A dispatch enqueues each PENDING delivery under the number of its next attempt,
`attemptCount + 1`.  The queue remembers the ids of jobs that have finished, so
the delivery is revived only if no job of that number is remembered.  A job that
fails before its attempt is recorded is: its id is used up and the delivery waits
for it (`used_up_id_strands`).  That happens when the read a delivery begins with
throws, or the update that records a failed attempt; where these two resolve,
every PENDING delivery of an event has a live job whenever a dispatch of the event
has returned (`none_stranded`).

Two invariants carry the proof.  What the queue remembers never runs ahead of the
deliveries (`World.Sound`), and once a dispatch has read the deliveries of its
event, each that is PENDING has its job or some thread is about to add it
(`Covered`).
-/

import LedgerEngine.Webhooks.Accounts
import LedgerEngine.Webhooks.Agreement

namespace LedgerEngine
namespace Webhooks

/-- Only threads that deliver meet faults, and only in calls of the database. -/
def StorageMayFail (P : Threads) : Label Call Draw → Prop
  | .spawn _ => True
  | .step i ω => ω.fault.isSome = true →
      ∀ th ∈ P.threads[i]?, th.tag.Delivers ∧ ∀ c ∈ th.head, c.enqueues = false

/-- The read a delivery begins with and the update that records a failed attempt
resolve, unless the attempt has been recorded all the same. -/
def Decided (P : Threads) : Label Call Draw → Prop
  | .spawn _ => True
  | .step i ω => ∀ th ∈ P.threads[i]?, th.stage.decisive = true → ∀ c ∈ th.head,
      (exec ω c P.world).1.isOk = true ∨ ω.Clean ∧ ∀ job ∈ th.tag.job, P.world.Tried job

/-- An outcome is recorded where there are no more attempts than its own, and a
terminal one over a PENDING row with fewer. -/
def InOrder (P : Threads) : Label Call Draw → Prop
  | .spawn _ => True
  | .step i _ => ∀ u ∈ (P.threads[i]?.bind Thread.head).bind Command.records,
      ∀ r ∈ P.world.deliveries.find? u.1, r.attemptCount ≤ u.2.attemptCount ∧
        (r.status = .pending → u.2.status ≠ .pending → r.attemptCount < u.2.attemptCount)

instance (P : Threads) : (l : Label Call Draw) → Decidable (StorageMayFail P l)
  | .spawn _ => inferInstanceAs (Decidable True)
  | .step i ω => inferInstanceAs (Decidable (ω.fault.isSome = true →
      ∀ th ∈ P.threads[i]?, th.tag.Delivers ∧ ∀ c ∈ th.head, c.enqueues = false))

instance (P : Threads) : (l : Label Call Draw) → Decidable (Decided P l)
  | .spawn _ => inferInstanceAs (Decidable True)
  | .step i ω => inferInstanceAs (Decidable
      (∀ th ∈ P.threads[i]?, th.stage.decisive = true → ∀ c ∈ th.head,
        (exec ω c P.world).1.isOk = true ∨ ω.Clean ∧ ∀ job ∈ th.tag.job, P.world.Tried job))

instance (P : Threads) : (l : Label Call Draw) → Decidable (InOrder P l)
  | .spawn _ => inferInstanceAs (Decidable True)
  | .step i _ => inferInstanceAs (Decidable
      (∀ u ∈ (P.threads[i]?.bind Thread.head).bind Command.records,
        ∀ r ∈ P.world.deliveries.find? u.1, r.attemptCount ≤ u.2.attemptCount ∧
          (r.status = .pending → u.2.status ≠ .pending → r.attemptCount < u.2.attemptCount)))

/-! ### Who will add the job -/

/-- The thread has read the deliveries of the event. -/
def Stage.Surveyed (e : Uuid) : Stage → Prop
  | .creating e' _ _ | .enqueuing e' _ _ | .returned e' => e' = e
  | .recorded e' .dispatch | .publishing e' _ .dispatch => e' = e
  | _ => False

/-- The thread has read the delivery with `k` attempts and PENDING. -/
def Stage.Lists (d : Uuid) (k : ℕ) : Stage → Prop
  | .creating _ existing _ => ∃ r ∈ existing, r.status = .pending ∧ r.id = d ∧ r.attemptCount = k
  | _ => False

/-- The thread is about to add the job of attempt `k + 1`. -/
def Stage.Promises (d : Uuid) (k : ℕ) : Stage → Prop
  | .enqueuing _ todo _ => (d, k) ∈ todo
  | .retrying d' _ attempts => d' = d ∧ attempts = k
  | _ => False

/-- The job of attempt `k + 1` is in the queue or about to be. -/
def Promised (w : World) (ts : List (Call × Stage)) (d : Uuid) (k : ℕ) : Prop :=
  w.queue.IsLive ⟨d, k + 1⟩ ∨
    ∃ (i : ℕ) (t : Call) (q : Stage), ts[i]? = some (t, q) ∧ q.Promises d k

/-- Each PENDING delivery of an event that a thread has surveyed has the job of its
next attempt, or is about to have it. -/
def Covered (w : World) (ts : List (Call × Stage)) : Prop :=
  ∀ (i : ℕ) (t : Call) (q : Stage) (e : Uuid), ts[i]? = some (t, q) → q.Surveyed e →
    ∀ d r, w.deliveries.find? d = some r → r.outboxEventId = e → r.status = .pending →
      q.Lists d r.attemptCount ∨ Promised w ts d r.attemptCount

section Coverage

variable {ω : Draw} {c : Command} {w w' : World} {ts : List (Call × Stage)} {i : ℕ} {t : Call}
  {q q' : Stage} {d : Uuid} {k : ℕ}

theorem promised_self (hi : ts[i]? = some (t, q)) (h : q'.Promises d k) :
    Promised w (ts.set i (t, q')) d k :=
  Or.inr ⟨i, t, q', by rw [List.getElem?_set_self (List.getElem?_eq_some_iff.1 hi).1], h⟩

/-- A job that was to be added still is, whatever thread `i` does, if that keeps
what was live and what `i` itself had promised. -/
theorem Promised.set (h : Promised w ts d k) (hi : ts[i]? = some (t, q))
    (hlive : w.queue.IsLive ⟨d, k + 1⟩ → w'.queue.IsLive ⟨d, k + 1⟩)
    (hq : q.Promises d k → Promised w' (ts.set i (t, q')) d k) :
    Promised w' (ts.set i (t, q')) d k := by
  rcases h with h | ⟨j, u, p, hj, hp⟩
  · exact Or.inl (hlive h)
  · by_cases hji : j = i
    · subst hji
      obtain ⟨rfl, rfl⟩ := Prod.mk.inj (Option.some.inj (hi.symm.trans hj))
      exact hq hp
    · exact Or.inr ⟨j, u, p, by rw [List.getElem?_set_ne (Ne.symm hji)]; exact hj, hp⟩

/-- Thread `i` makes a step: it leaves each PENDING row as it was or provides for
it, and where it has now surveyed an event it answers for the event's deliveries. -/
theorem Covered.set (h : Covered w ts)
    (hrow : ∀ d r', w'.deliveries.find? d = some r' → r'.status = .pending →
      Promised w' (ts.set i (t, q')) d r'.attemptCount ∨
        ∃ r, w.deliveries.find? d = some r ∧ r.status = .pending ∧
          r.outboxEventId = r'.outboxEventId ∧ r.attemptCount = r'.attemptCount)
    (hkeep : ∀ d r', w'.deliveries.find? d = some r' → r'.status = .pending →
      Promised w ts d r'.attemptCount → Promised w' (ts.set i (t, q')) d r'.attemptCount)
    (hown : ∀ e, q'.Surveyed e → ∀ d r', w'.deliveries.find? d = some r' →
      r'.outboxEventId = e → r'.status = .pending →
      q'.Lists d r'.attemptCount ∨ Promised w' (ts.set i (t, q')) d r'.attemptCount) :
    Covered w' (ts.set i (t, q')) := by
  intro j u p e hj hp d r' hr' he hs
  rcases getElem?_set_some hj with ⟨-, hju⟩ | ⟨-, hju⟩
  · obtain ⟨-, rfl⟩ := Prod.mk.inj hju
    exact hown e hp d r' hr' he hs
  · rcases hrow d r' hr' hs with hpromised | ⟨r, hr, hpending, hevent, hcount⟩
    · exact Or.inr hpromised
    · rw [← hcount]
      refine (h j u p e hju hp d r hr (hevent.trans he) hpending).imp_right fun hold => ?_
      rw [hcount] at hold ⊢
      exact hkeep d r' hr' hs hold

/-- Thread `i` makes a call that changes neither deliveries nor queue, and does not
survey an event by it. -/
theorem Covered.quiet (h : Covered w ts) (hi : ts[i]? = some (t, q))
    (hsame : w'.deliveries = w.deliveries ∧ w'.queue = w.queue)
    (hpromises : ∀ d k, q.Promises d k → q'.Promises d k)
    (hsurveyed : ∀ e, q'.Surveyed e →
      (q.Surveyed e ∧ ∀ d k, q.Lists d k → q'.Lists d k) ∨
        ∀ d r, w.deliveries.find? d = some r → r.outboxEventId = e → r.status = .pending →
          q'.Lists d r.attemptCount ∨ q'.Promises d r.attemptCount) :
    Covered w' (ts.set i (t, q')) := by
  obtain ⟨hdeliveries, hqueue⟩ := hsame
  have hkeep : ∀ d k, Promised w ts d k → Promised w' (ts.set i (t, q')) d k := fun d k hp =>
    hp.set hi (fun hlive => hqueue ▸ hlive) fun hq => promised_self hi (hpromises d k hq)
  refine h.set (fun d r' hr' hs => Or.inr ⟨r', hdeliveries ▸ hr', hs, rfl, rfl⟩)
    (fun d r' _ _ => hkeep d r'.attemptCount) fun e he d r' hr' hevent hs => ?_
  rw [hdeliveries] at hr'
  rcases hsurveyed e he with ⟨hq, hlists⟩ | hnew
  · exact (h i t q e hi hq d r' hr' hevent hs).imp (hlists d _) (hkeep d _)
  · exact (hnew d r' hr' hevent hs).imp_right (promised_self hi)

/-! What the stages of a dispatch answer for. -/

theorem promises_listed (e : Uuid) {deliveries : List WebhookDeliveryEntity}
    {r : WebhookDeliveryEntity} (hr : r ∈ deliveries) (hs : r.status = .pending) :
    (Stage.listed e deliveries).Promises r.id r.attemptCount := by
  have hmem : r ∈ pendingOf deliveries := List.mem_filter.2 ⟨hr, by simpa using hs⟩
  unfold Stage.listed
  split
  · rename_i hnil
    rw [hnil] at hmem
    exact absurd hmem List.not_mem_nil
  · rename_i x xs hcons
    rw [hcons] at hmem
    exact List.mem_map_of_mem hmem

theorem surveyed_listed {e e' : Uuid} {deliveries : List WebhookDeliveryEntity}
    (h : (Stage.listed e deliveries).Surveyed e') : e = e' := by
  unfold Stage.listed at h
  split at h <;> exact h

/-- A dispatch that has just read the deliveries of its event has them all on its list. -/
theorem surveyed_read {e e' : Uuid} {subscriptions : List WebhookSubscriptionEntity}
    (h : (Stage.read e subscriptions (w.deliveriesOf e)).Surveyed e') {r : WebhookDeliveryEntity}
    (hr : w.deliveries.find? d = some r) (he : r.outboxEventId = e') (hs : r.status = .pending) :
    (Stage.read e subscriptions (w.deliveriesOf e)).Lists d r.attemptCount ∨
      (Stage.read e subscriptions (w.deliveriesOf e)).Promises d r.attemptCount := by
  obtain ⟨hmem, hid⟩ := Table.find?_eq_some hr
  have hid : r.id = d := hid
  have hof : e = e' → r ∈ w.deliveriesOf e := fun hee =>
    List.mem_filter.2 ⟨hmem, decide_eq_true (he.trans hee.symm)⟩
  unfold Stage.read at h ⊢
  split_ifs at h ⊢ with hnone
  · have hr' := hof h
    rw [hnone.2] at hr'
    exact absurd hr' List.not_mem_nil
  · cases hmissing : missingSubscriptions subscriptions (w.deliveriesOf e) with
    | nil =>
        rw [hmissing] at h
        exact Or.inr (hid ▸ promises_listed e (hof (surveyed_listed h)) hs)
    | cons s missing =>
        rw [hmissing] at h
        exact Or.inl ⟨r, hof h, hs, hid, rfl⟩

theorem promises_resting (hq : q.Resting) : ¬ q.Promises d k := by
  intro h
  cases q <;> first | exact h | exact hq

/-- Thread `i` has added the job of an attempt it had promised. -/
theorem promised_added (hs : w.Sound) {d' : Uuid} {k' : ℕ} {state : JobState}
    (hqueue : w'.queue = w.queue.add ⟨d', k' + 1⟩ state) {r : WebhookDeliveryEntity}
    (hr : w.deliveries.find? d = some r) (hd : d' = d) (hk : k' = r.attemptCount)
    (ts : List (Call × Stage)) : Promised w' ts d r.attemptCount := by
  subst hd hk
  rw [Promised, hqueue, JobQueue.isLive_add]
  exact Or.inl (Or.inr ⟨rfl, hs.not_finished hr⟩)

/-- Thread `i` makes a call that leaves deliveries and queue alone and leads to a
stage that answers for no event. -/
theorem Covered.pass (h : Covered w ts) (hi : ts[i]? = some (t, q))
    (hsame : w'.deliveries = w.deliveries ∧ w'.queue = w.queue)
    (hpromises : ∀ d k, ¬ q.Promises d k) (hsurveyed : ∀ e, ¬ q'.Surveyed e) :
    Covered w' (ts.set i (t, q')) :=
  h.quiet hi hsame (fun d k hq => absurd hq (hpromises d k))
    fun e he => absurd he (hsurveyed e)

/-- **A dispatch has inserted the deliveries that were missing.** -/
theorem Covered.create (h : Covered w ts) {e : Uuid} {existing new : List WebhookDeliveryEntity}
    {missing : List WebhookSubscriptionEntity}
    (hi : ts[i]? = some (t, .creating e existing missing))
    (hinsert : w.deliveries.insertAll? new = some w'.deliveries) (hqueue : w'.queue = w.queue) :
    Covered w' (ts.set i (t, .listed e (existing ++ new))) := by
  -- a row that is not old is one the dispatch enqueues
  have hrows : ∀ d r', w'.deliveries.find? d = some r' → r'.status = .pending →
      w.deliveries.find? d = some r' ∨
        Promised w' (ts.set i (t, .listed e (existing ++ new))) d r'.attemptCount := by
    intro d r' hr' hs
    rcases IndexedTable.find?_insertAll hinsert d with hfind | ⟨-, r, hr, hkey, hfind⟩
    · exact Or.inl (hfind.symm.trans hr')
    · obtain rfl := Option.some.inj (hr'.symm.trans hfind)
      have hid : r'.id = d := hkey
      exact Or.inr (promised_self hi
        (hid ▸ promises_listed e (List.mem_append_right existing hr) hs))
  have hkeep : ∀ d k, Promised w ts d k →
      Promised w' (ts.set i (t, .listed e (existing ++ new))) d k := fun d k hp =>
    hp.set hi (fun hlive => hqueue ▸ hlive) fun hq => hq.elim
  refine h.set (fun d r' hr' hs => ?_) (fun d r' _ _ => hkeep d _)
    fun e' he d r' hr' hevent hs => ?_
  · exact (hrows d r' hr' hs).symm.imp_right fun hr => ⟨r', hr, hs, rfl, rfl⟩
  · refine Or.inr ?_
    rcases hrows d r' hr' hs with hr | hpromised
    · rcases h i t _ e hi rfl d r' hr (hevent.trans (surveyed_listed he).symm) hs with hlists | hp
      · obtain ⟨x, hx, hpending, rfl, hcount⟩ := hlists
        rw [← hcount]
        exact promised_self hi (promises_listed e (List.mem_append_left new hx) hpending)
      · exact hkeep d _ hp
    · exact hpromised

/-- **A thread has added a job it had promised.** -/
theorem Covered.add (h : Covered w ts) (hs : w.Sound) (hi : ts[i]? = some (t, q))
    (hdeliveries : w'.deliveries = w.deliveries) {d' : Uuid} {k' : ℕ} {state : JobState}
    (hqueue : w'.queue = w.queue.add ⟨d', k' + 1⟩ state)
    (hq : ∀ d k, q.Promises d k → d' = d ∧ k' = k ∨ q'.Promises d k)
    (hsurveyed : ∀ e, q'.Surveyed e → q.Surveyed e) (hlists : ∀ d k, ¬ q.Lists d k) :
    Covered w' (ts.set i (t, q')) := by
  have hkeep : ∀ d r, w.deliveries.find? d = some r → Promised w ts d r.attemptCount →
      Promised w' (ts.set i (t, q')) d r.attemptCount := by
    intro d r hr hp
    refine hp.set hi (fun hlive => ?_) fun hpromises => ?_
    · rw [hqueue, JobQueue.isLive_add]
      exact Or.inl hlive
    · rcases hq d _ hpromises with ⟨hd, hk⟩ | hpromises
      · exact promised_added hs hqueue hr hd hk _
      · exact promised_self hi hpromises
  rw [← hdeliveries] at hkeep
  refine h.set (fun d r' hr' hs => Or.inr ⟨r', hdeliveries ▸ hr', hs, rfl, rfl⟩)
    (fun d r' hr' _ => hkeep d r' hr') fun e he d r' hr' hevent hpending => ?_
  refine Or.inr (hkeep d r' hr' ?_)
  exact (h i t q e hi (hsurveyed e he) d r' (hdeliveries ▸ hr') hevent hpending).resolve_left
    (hlists d _)

/-- **A worker has recorded an outcome**, and enqueues the delivery again if it is
still PENDING. -/
theorem Covered.record (h : Covered w ts) {phase : Phase} {d' e : Uuid} {p : DeliveryPatch}
    (hi : ts[i]? = some (t, .attempting phase d' e p.attemptCount))
    (hw : w' = (exec ω (.updateDelivery d' p) w).2)
    (hretry : p.Fits → p.status = .pending → q'.Promises d' p.attemptCount)
    (hsurveyed : ∀ e, ¬ q'.Surveyed e) : Covered w' (ts.set i (t, q')) := by
  have hqueue : w'.queue = w.queue := by
    rw [hw]
    exact queue_exec (by simp) (by simp) (by simp)
  refine h.set (fun d r' hr' hs => ?_) (fun d r' _ _ hp => ?_) fun e he => absurd he (hsurveyed e)
  · rw [hw] at hr'
    rcases find?_exec_updateDelivery hr' with hr | ⟨rfl, hfits, hstatus, hcount⟩
    · exact Or.inr ⟨r', hr, hs, rfl, rfl⟩
    · rw [hcount]
      exact Or.inl (promised_self hi (hretry hfits (hstatus ▸ hs)))
  · exact hp.set hi (fun hlive => hqueue ▸ hlive) fun hq => hq.elim

/-- **A worker has finished its job**, which was not that of a next attempt. -/
theorem Covered.finish (h : Covered w ts) (hi : ts[i]? = some (t, q)) {job : JobId}
    (hjob : w.Spent job) (hdeliveries : w'.deliveries = w.deliveries)
    (hqueue : ∀ j, w.queue.IsLive j → j ≠ job → w'.queue.IsLive j)
    (hq : ∀ d k, ¬ q.Promises d k) (hsurveyed : ∀ e, ¬ q'.Surveyed e) :
    Covered w' (ts.set i (t, q')) := by
  refine h.set (fun d r' hr' hs => Or.inr ⟨r', hdeliveries ▸ hr', hs, rfl, rfl⟩)
    (fun d r' hr' _ hp => ?_) fun e he => absurd he (hsurveyed e)
  refine hp.set hi (fun hlive => hqueue _ hlive ?_) fun hpromises => absurd hpromises (hq d _)
  rintro rfl
  obtain ⟨r, hr, hle⟩ := hjob
  rw [hdeliveries] at hr'
  obtain rfl := Option.some.inj (hr.symm.trans hr')
  exact absurd hle (Nat.not_succ_le_self r.attemptCount)

theorem not_surveyed_failed {d e e' : Uuid} {attempts : ℕ} {due : Option JsDate} :
    ¬ (Stage.failed d e attempts due).Surveyed e' := by
  intro h
  rcases failed_cases d e attempts due with hs | hs <;> rw [hs] at h <;> exact h

/-- An outcome that leaves the delivery PENDING and that the database takes has the date
of the next attempt. -/
theorem promises_failed {e : Uuid} {p : DeliveryPatch}
    (hp : p.status = .pending ∧ p.nextRetryAt.isSome ∨ p.status = .failed ∧ p.nextRetryAt = none)
    (hfits : p.Fits) (hpending : p.status = .pending) :
    (Stage.failed d e p.attemptCount p.nextRetryAt).Promises d p.attemptCount := by
  have hsome := (hp.resolve_right fun hfailed =>
    absurd (hpending.symm.trans hfailed.1) (by decide)).2
  obtain ⟨date, hdate⟩ := Option.isSome_iff_exists.1 hsome
  cases date with
  | none => exact absurd hdate hfits.1
  | some due =>
      rw [hdate]
      exact ⟨rfl, rfl⟩

/-- **One call leaves every surveyed event covered.** -/
theorem Covered.exec (h : Covered w ts) (hs : w.Sound) (hi : ts[i]? = some (t, q))
    (hc : q.Allows t c) (hk : q.Knows w t) (hdelivering : t.Delivers → q.Delivering)
    (hfault : ¬ t.Delivers ∨ c.enqueues = true → ω.fault = none)
    (hdecided : q.decisive = true → (exec ω c w).1.isOk = true ∨ ω.Clean) :
    Covered (exec ω c w).2 (ts.set i (t, q.next c (exec ω c w).1)) := by
  cases hc with
  | now =>
      have hnext : q.next .dateNow (Webhooks.exec ω .dateNow w).1 = q := Stage.next_dateNow q ω.now
      rw [hnext]
      exact h.quiet hi ⟨rfl, rfl⟩ (fun _ _ => id) fun e he => Or.inl ⟨he, fun _ _ => id⟩
  | @findEvent _ hq id =>
      refine h.quiet hi (same_exec rfl) (fun d k hp => absurd hp (promises_resting hq))
        fun e he => Or.inr ?_
      -- there is no such event, and so no delivery of it
      intro d r hr hevent _
      have hsome := hs.event d r hr
      rcases next_findEvent (ω := ω) (w := w) hq id with hnext | hnext | ⟨hnone, hnext⟩
      · exact (hnext ▸ he).elim
      · exact (hnext ▸ he).elim
      · rw [hnext] at he
        obtain rfl : id = e := he
        rw [hevent, hnone] at hsome
        exact absurd hsome Bool.false_ne_true
  | enterPoll hq | leavePoll hq | findProcessable hq | mark hq =>
      rw [next_of_resting hq (by simp) (by simp)]
      exact h.pass hi (same_exec rfl) (fun d k => promises_resting hq) fun _ => id
  | findSubscriptions e eventType =>
      refine h.pass hi (same_exec rfl) (fun _ _ => id) fun e' he => ?_
      cases hr : (Webhooks.exec ω (.findSubscriptions eventType) w).1 <;> rw [hr] at he <;> exact he
  | findDeliveries e subscriptions =>
      refine h.quiet hi (same_exec rfl) (fun _ _ => False.elim)
        fun e' he => Or.inr fun d r hr hevent hpending => ?_
      cases hres : (Webhooks.exec ω (.findDeliveries e) w).1 with
      | error _ =>
          rw [hres] at he
          exact he.elim
      | ok existing =>
          rw [hres] at he
          obtain rfl : w.deliveriesOf e = existing := Except.ok.inj (exec_of_ok hres ▸ hres)
          exact surveyed_read he hr hevent hpending
  | create e existing missing now =>
      have hclean : ω.fault = none := hfault (Or.inl hdelivering)
      cases hr : (Webhooks.exec ω (.saveDeliveries (missing.map (newDelivery e now))) w).1 with
      | error _ =>
          have hω : ω.Clean := by
            unfold Draw.Clean
            rw [hclean]
            trivial
          rw [exec_of_error hω rfl hr]
          exact h.pass hi ⟨rfl, rfl⟩ (fun _ _ => id) fun _ => id
      | ok new =>
          obtain ⟨deliveries, hsave, hw⟩ := exec_saveDeliveries hr
          rw [hw]
          exact h.create hi (saveDeliveries_eq_some hsave).1 rfl
  | enqueue e d k todo ok =>
      have hclean : ω.fault = none := hfault (Or.inr rfl)
      rw [exec_of_fault_eq_none hclean]
      refine h.add hs hi rfl rfl (fun d' k' hp => ?_) (fun e' he => ?_) fun _ _ => id
      · rcases List.mem_cons.1 hp with hp | hp
        · obtain ⟨rfl, rfl⟩ := Prod.mk.inj hp
          exact Or.inl ⟨rfl, rfl⟩
        · refine Or.inr ?_
          cases todo with
          | nil => exact absurd hp List.not_mem_nil
          | cons x todo => exact hp
      · cases todo with
        | nil =>
            cases ok with
            | false => exact he.elim
            | true => exact he
        | cons x todo => exact he
  | start d =>
      refine h.pass hi (same_exec rfl) (fun _ _ => id) fun e he => ?_
      cases hr : (Webhooks.exec ω (.findDelivery d) w).1 with
      | error _ =>
          rw [hr] at he
          exact he
      | ok loaded =>
          rw [hr] at he
          have he : (Stage.found loaded).Surveyed e := he
          rcases found_cases loaded with hs | ⟨_, _, _, _, hs⟩ <;> rw [hs] at he <;> exact he
  | fetch d e attempts request =>
      refine h.pass hi (same_exec rfl) (fun _ _ => id) fun e' he => ?_
      cases hr : (Webhooks.exec ω (.fetch d request) w).1 <;> rw [hr] at he <;> exact he
  | responseText status d e attempts =>
      refine h.pass hi (same_exec rfl) (fun _ _ => id) fun e' he => ?_
      cases hr : (Webhooks.exec ω (.responseText d) w).1 <;> rw [hr] at he <;> exact he
  | succeed d e p hsuccess =>
      refine h.record hi rfl (fun _ hpending => ?_) fun e' he => ?_
      · exact absurd (hsuccess.symm.trans hpending) (by decide)
      · cases hr : (Webhooks.exec ω (.updateDelivery d p) w).1 <;> rw [hr] at he <;> exact he
  | fail d e p houtcome =>
      cases hr : (Webhooks.exec ω (.updateDelivery d p) w).1 with
      | error _ =>
          have hω := (hdecided rfl).resolve_left (by simp [hr, Except.isOk, Except.toBool])
          rw [exec_of_error hω rfl hr]
          exact h.pass hi ⟨rfl, rfl⟩ (fun _ _ => id) fun _ => id
      | ok _ =>
          refine h.record hi rfl (fun hfits hpending => ?_) fun e' => not_surveyed_failed
          exact promises_failed houtcome hfits hpending
  | retry d e attempts delayMs =>
      have hclean : ω.fault = none := hfault (Or.inr rfl)
      rw [exec_of_fault_eq_none hclean]
      exact h.add hs hi rfl rfl (fun _ _ hp => Or.inl hp) (fun _ => False.elim) fun _ _ => id
  | recompute e via =>
      refine h.quiet hi (same_exec rfl) (fun _ _ => False.elim)
        fun e' he => Or.inl ⟨?_, fun _ _ => False.elim⟩
      cases hr : (Webhooks.exec ω (.findDeliveries e) w).1 <;> rw [hr] at he <;> cases via <;>
        first | exact he | exact he.elim
  | publish e via p =>
      refine h.quiet hi (same_exec rfl) (fun _ _ => False.elim)
        fun e' he => Or.inl ⟨?_, fun _ _ => False.elim⟩
      cases hr : (Webhooks.exec ω (.updateEvent e p) w).1 <;> rw [hr] at he <;> cases via <;>
        first | exact he | exact he.elim
  | @complete job now ht =>
      refine h.finish hi (hk job (ht ▸ rfl)) rfl (fun j hj hne => ?_) (fun _ _ => id) fun _ => id
      exact (JobQueue.isLive_complete retention).2 ⟨hj, hne⟩
  | @failJob job now ht =>
      refine h.finish hi (hk job (ht ▸ rfl)) rfl (fun j hj hne => ?_) (fun _ _ => id) fun _ => id
      exact (JobQueue.isLive_fail retention).2 ⟨hj, hne⟩

end Coverage

/-! ### Runs -/

/-- The stages of a thread that dispatches this event. -/
def Stage.Dispatching (e : Uuid) : Stage → Prop
  | .idle => True
  | .matching e' | .reading e' _ | .creating e' _ _ | .enqueuing e' _ _ | .returned e' => e' = e
  | .recorded e' .dispatch | .publishing e' _ .dispatch => e' = e
  | _ => False

/-- What holds between the steps of a run: the queue does not run ahead of the
deliveries, every thread is where its call may be and knows what it should, and
every surveyed event is covered. -/
structure Accounted (w : World) (ts : List (Call × Stage)) : Prop where
  sound : w.Sound
  delivering : ∀ (i : ℕ) (t : Call) (q : Stage), ts[i]? = some (t, q) → t.Delivers → q.Delivering
  dispatching : ∀ (i : ℕ) (e : Uuid) (q : Stage), ts[i]? = some (.dispatch e, q) → q.Dispatching e
  knows : ∀ (i : ℕ) (t : Call) (q : Stage), ts[i]? = some (t, q) → q.Knows w t
  covered : Covered w ts

section Runs

variable {ω : Draw} {c : Command} {w w' : World} {ts : List (Call × Stage)} {i : ℕ} {t : Call}
  {q : Stage}

theorem dispatching_listed (e : Uuid) (deliveries : List WebhookDeliveryEntity) :
    (Stage.listed e deliveries).Dispatching e := by
  unfold Stage.listed
  split <;> rfl

theorem dispatching_read (e : Uuid) (subscriptions : List WebhookSubscriptionEntity)
    (existing : List WebhookDeliveryEntity) :
    (Stage.read e subscriptions existing).Dispatching e := by
  unfold Stage.read
  split_ifs
  · rfl
  · cases missingSubscriptions subscriptions existing with
    | nil => exact dispatching_listed e existing
    | cons s missing => rfl

/-- A dispatch stays with its event. -/
theorem dispatching_next {e : Uuid} (hq : q.Dispatching e) (hc : q.Allows (.dispatch e) c) :
    (q.next c (exec ω c w).1).Dispatching e := by
  cases hc with
  | now =>
      have hnext : q.next .dateNow (exec ω .dateNow w).1 = q := Stage.next_dateNow q ω.now
      rwa [hnext]
  | @findEvent _ hr id he =>
      obtain ⟨-, rfl⟩ := he e rfl
      rcases next_findEvent (ω := ω) (w := w) hr id with hnext | hnext | ⟨-, hnext⟩ <;> rw [hnext]
      · trivial
      · rfl
      · rfl
  | enterPoll hr | leavePoll hr | findProcessable hr | mark hr =>
      rw [next_of_resting hr (by simp) (by simp)]
      trivial
  | findSubscriptions e' eventType =>
      cases (exec ω (.findSubscriptions eventType) w).1 with
      | error _ => trivial
      | ok subscriptions => exact hq
  | findDeliveries e' subscriptions =>
      obtain rfl : e' = e := hq
      cases (exec ω (.findDeliveries e') w).1 with
      | error _ => trivial
      | ok existing => exact dispatching_read e' subscriptions existing
  | create e' existing missing now =>
      obtain rfl : e' = e := hq
      cases (exec ω (.saveDeliveries (missing.map (newDelivery e' now))) w).1 with
      | error _ => trivial
      | ok new => exact dispatching_listed e' (existing ++ new)
  | enqueue e' d k todo ok =>
      show (Stage.enqueued e' todo _).Dispatching e
      unfold Stage.enqueued
      split
      · split_ifs
        · exact hq
        · trivial
      · exact hq
  | recompute e' via =>
      cases via with
      | delivery => exact hq.elim
      | dispatch =>
          cases (exec ω (.findDeliveries e') w).1 with
          | error _ => trivial
          | ok _ => exact hq
  | publish e' via p =>
      cases via with
      | delivery => exact hq.elim
      | dispatch =>
          cases (exec ω (.updateEvent e' p) w).1 with
          | error _ => trivial
          | ok _ => exact hq
  | _ => exact hq.elim

/-- **One step keeps the accounts.** -/
theorem Accounted.exec (h : Accounted w ts) (hi : ts[i]? = some (t, q)) (hc : q.Allows t c)
    (hfault : ω.fault.isSome = true → t.Delivers ∧ c.enqueues = false)
    (hdecided : q.decisive = true →
      (exec ω c w).1.isOk = true ∨ ω.Clean ∧ ∀ job ∈ t.job, w.Tried job)
    (horder : ∀ d p, c = .updateDelivery d p → ∀ r, w.deliveries.find? d = some r →
      r.attemptCount ≤ p.attemptCount ∧
        (r.status = .pending → p.status ≠ .pending → r.attemptCount < p.attemptCount)) :
    Accounted (exec ω c w).2 (ts.set i (t, q.next c (exec ω c w).1)) := by
  have hgrows := grows_exec (ω := ω) horder
  have hknows := h.knows i t q hi
  have hclean : ¬ t.Delivers ∨ c.enqueues = true → ω.fault = none := by
    intro hor
    by_contra hne
    obtain ⟨ht, hce⟩ := hfault (Option.isSome_iff_ne_none.2 hne)
    rcases hor with hor | hor
    · exact hor ht
    · exact Bool.false_ne_true (hce.symm.trans hor)
  constructor
  · exact sound_next h.sound hknows hc hgrows
  · intro j u p hj hu
    rcases getElem?_set_some hj with ⟨-, e⟩ | ⟨-, hj⟩
    · obtain ⟨rfl, rfl⟩ := Prod.mk.inj e
      exact delivering_next (h.delivering i _ q hi hu) hc _
    · exact h.delivering j u p hj hu
  · intro j e p hj
    rcases getElem?_set_some hj with ⟨-, he⟩ | ⟨-, hj⟩
    · obtain ⟨rfl, rfl⟩ := Prod.mk.inj he
      exact dispatching_next (h.dispatching i e q hi) hc
    · exact h.dispatching j e p hj
  · intro j u p hj
    rcases getElem?_set_some hj with ⟨-, e⟩ | ⟨-, hj⟩
    · obtain ⟨rfl, rfl⟩ := Prod.mk.inj e
      exact knows_next hknows hc hgrows hdecided
    · exact (h.knows j u p hj).mono hgrows
  · exact h.covered.exec h.sound hi hc hknows (h.delivering i t q hi) hclean
      fun hd => (hdecided hd).imp_right And.left

/-- A thread starts. -/
theorem Accounted.spawn (cfg : Config) (h : Accounted w ts)
    (hw : (system cfg).spawn t w = some w') : Accounted w' (ts ++ [(t, (system cfg).entry t)]) := by
  obtain ⟨hdeliveries, -, hlive, -, -⟩ := spawn_same hw
  have hgrows : w.Grows w' := .of_eq hdeliveries
  constructor
  · exact h.sound.spawn hw
  · intro j u p hj hu
    rcases getElem?_append_some hj with hj | ⟨-, he⟩
    · exact h.delivering j u p hj hu
    · obtain ⟨rfl, rfl⟩ := Prod.mk.inj he
      cases u <;> trivial
  · intro j e p hj
    rcases getElem?_append_some hj with hj | ⟨-, he⟩
    · exact h.dispatching j e p hj
    · obtain ⟨rfl, rfl⟩ := Prod.mk.inj he
      trivial
  · intro j u p hj
    rcases getElem?_append_some hj with hj | ⟨-, he⟩
    · exact (h.knows j u p hj).mono hgrows
    · obtain ⟨rfl, rfl⟩ := Prod.mk.inj he
      exact knows_entry h.sound hw
  · intro j u p e hj hp d r hr hevent hs
    rcases getElem?_append_some hj with hj | ⟨-, he⟩
    · refine (h.covered j u p e hj hp d r (hdeliveries ▸ hr) hevent hs).imp_right
        fun hpromised => ?_
      rcases hpromised with hp | ⟨j', u', p', hj', hp'⟩
      · exact Or.inl ((hlive _).2 hp)
      · refine Or.inr ⟨j', u', p', ?_, hp'⟩
        rw [List.getElem?_append_left (List.getElem?_eq_some_iff.1 hj').1]
        exact hj'
    · obtain ⟨rfl, rfl⟩ := Prod.mk.inj he
      cases u <;> exact hp.elim

end Runs

/-- The dispatch of the event that thread `i` has made has returned: the thread is
a dispatch that has, or is at the stage after one. -/
def Returned (P : Threads) (i : ℕ) (e : Uuid) : Prop :=
  ∃ th, P.threads[i]? = some th ∧
    (th.stage = .returned e ∨ th.tag = .dispatch e ∧ th.rest = .ret ())

/-- Every PENDING delivery of the event has the job of its next attempt: waiting,
delayed or being worked on. -/
def World.Provided (w : World) (e : Uuid) : Prop :=
  ∀ r ∈ w.deliveriesOf e, r.status = .pending → w.queue.IsLive ⟨r.id, r.attemptCount + 1⟩

/-- **No delivery is stranded by a failed job.**  In every run from a sound world, any
database call of a delivery may throw; if the read a delivery begins with and the
update that records a failed attempt do so only where the attempt is recorded all the
same, and outcomes are recorded in order, then whenever a dispatch of an event has
returned and no other call is running, every PENDING delivery of the event has a live
job. -/
theorem none_stranded (cfg : Config) (w : World) (hw : w.Sound) (labels : List (Label Call Draw))
    (h : Pool.Along (system cfg) (fun P l => StorageMayFail P l ∧ Decided P l ∧ InOrder P l)
      (.start w) labels) (i : ℕ) (e : Uuid)
    (hreturned : Returned (Pool.run (system cfg) (.start w) labels) i e)
    (hrest : ∀ th ∈ (Pool.run (system cfg) (.start w) labels).threads.eraseIdx i, th.head = none) :
    (Pool.run (system cfg) (.start w) labels).world.Provided e := by
  have hrun := Pool.invariant (J := Accounted) (body_follows cfg) ?_ ?_ h
    (Pool.tracked_start _ _) ⟨hw, ?_, ?_, ?_, ?_⟩
  · generalize Pool.run (system cfg) (.start w) labels = P at hrun hreturned hrest ⊢
    obtain ⟨htracked, haccounted⟩ := hrun
    obtain ⟨th, hi, hth⟩ := hreturned
    have hstage (j : ℕ) (th' : Thread _ _ _ _ _ _) (hj : P.threads[j]? = some th') :
        P.stages[j]? = some (th'.tag, th'.stage) := by simp [Pool.stages, hj]
    have hstages : th.stage = .returned e := by
      rcases hth with hth | ⟨htag, hret⟩
      · exact hth
      · have hend := htracked th (List.mem_of_getElem? hi)
        rw [hret, htag] at hend
        obtain ⟨e', he'⟩ := hend
        have hdispatching := haccounted.dispatching i e th.stage (htag ▸ hstage i th hi)
        rw [he'] at hdispatching ⊢
        exact congrArg Stage.returned hdispatching
    intro r hr hs
    obtain ⟨hmem, hevent⟩ := List.mem_filter.1 hr
    have hfind : P.world.deliveries.find? r.id = some r := Table.find?_key hmem
    have hi' := hstages ▸ hstage i th hi
    rcases haccounted.covered i th.tag _ e hi' rfl r.id r hfind (by simpa using hevent) hs with
      hlists | hlive | ⟨j, u, p, hj, hp⟩
    · exact hlists.elim
    · exact hlive
    · -- a thread that still has to add a job has a call left to make
      by_cases hji : j = i
      · subst hji
        obtain ⟨-, rfl⟩ := Prod.mk.inj (Option.some.inj (hi'.symm.trans hj))
        exact hp.elim
      · obtain ⟨th', hth', he⟩ := Option.map_eq_some_iff.1 ((List.getElem?_map ..).symm.trans hj)
        obtain ⟨-, rfl⟩ := Prod.mk.inj he
        obtain ⟨_, hend⟩ := htracked.ended (List.mem_of_getElem? hth') (hrest th'
          (List.mem_eraseIdx_iff_getElem?.2 ⟨j, hji, hth'⟩))
        have hfinal : th'.stage.Final := hend.final
        cases hstage' : th'.stage <;> rw [hstage'] at hp hfinal <;>
          first | exact hp.elim | exact hfinal.elim
  · rintro P t w' haccounted - hspawn
    exact haccounted.spawn cfg hspawn
  · rintro P j t q c ω haccounted ⟨hfault, hdecided, horder⟩ hj hhead hc
    obtain ⟨th, hth, hhead'⟩ := Option.bind_eq_some_iff.1 hhead
    obtain ⟨rfl, rfl⟩ : th.tag = t ∧ th.stage = q := by
      have := (List.getElem?_map ..).symm.trans hj
      rw [hth] at this
      exact Prod.mk.inj (Option.some.inj this)
    refine haccounted.exec hj hc (fun hf => ?_) (fun hd => hdecided th hth hd c hhead')
      fun d p hp r hr => horder (d, p) (by rw [hhead, hp]; rfl) r hr
    obtain ⟨hdelivers, henqueues⟩ := hfault hf th hth
    exact ⟨hdelivers, henqueues c hhead'⟩
  all_goals simp [Covered, Pool.stages, Pool.start]

/-! ### A delivery whose job fails -/

/-- The event before its first dispatch. -/
def undispatched : World :=
  { sampleWorld with deliveries := .empty, queue := .empty }

/-- The server draws the id of the delivery. -/
def drawing : Draw := { answering 200 with ids := [sampleDelivery.id] }

/-- The call is refused. -/
def refusing : Draw := { answering 200 with fault := some (.refused unstorable) }

/-- The `i`-th thread dispatches the event. -/
def dispatching (i : ℕ) : List (Label Call Draw) :=
  .spawn (.dispatch sampleEvent.id) :: List.replicate 6 (.step i drawing)

/-- A worker is answered 500, enqueues the next attempt, and cannot read the other
deliveries of the event. -/
def failingLate : List (Label Call Draw) :=
  .spawn (.work ⟨sampleDelivery.id, 1⟩ 0) :: List.replicate 8 (.step 1 (answering 500)) ++
    [.step 1 refusing, .step 1 (answering 200)]

theorem none_stranded_late :
    (Pool.run (system sampleConfig) (.start undispatched)
      (dispatching 0 ++ failingLate ++ dispatching 2)).world.Provided sampleEvent.id :=
  none_stranded sampleConfig undispatched (.of_empty rfl rfl)
    (dispatching 0 ++ failingLate ++ dispatching 2) (by decide) 2 sampleEvent.id
    ⟨_, rfl, Or.inl rfl⟩ (by decide)

/-- A worker cannot read its delivery. -/
def failingEarly : List (Label Call Draw) :=
  [.spawn (.work ⟨sampleDelivery.id, 1⟩ 0), .step 1 refusing, .step 1 (answering 200)]

theorem used_up_id_strands :
    Pool.Along (system sampleConfig) StorageMayFail (.start undispatched)
        (dispatching 0 ++ failingEarly ++ dispatching 2) ∧
      Returned (Pool.run (system sampleConfig) (.start undispatched)
        (dispatching 0 ++ failingEarly ++ dispatching 2)) 2 sampleEvent.id ∧
      (Pool.run (system sampleConfig) (.start undispatched)
        (dispatching 0 ++ failingEarly ++ dispatching 2)).AtRest ∧
      ((Pool.run (system sampleConfig) (.start undispatched)
        (dispatching 0 ++ failingEarly ++ dispatching 2)).world.deliveriesOf
          sampleEvent.id).map (·.status) = [.pending] ∧
      (Pool.run (system sampleConfig) (.start undispatched)
        (dispatching 0 ++ failingEarly ++ dispatching 2)).world.queue.live = [] :=
  ⟨by decide, ⟨_, rfl, Or.inl rfl⟩, by decide, by decide, by decide⟩

end Webhooks
end LedgerEngine
