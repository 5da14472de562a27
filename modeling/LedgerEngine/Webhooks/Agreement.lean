/-
# An event agrees with its deliveries at rest

After each attempt the status of the event is computed from all its deliveries
and written back.  Nothing keeps another worker from recording its outcome
between the read and the write, so the write of an older computation may land
last (`stale_status_stays`).  Where no delivery of an event changes its status
while another worker is between that read and that write, the event agrees with
its deliveries whenever no call is in flight (`agrees_at_rest`).

The proof follows who still has to recompute the status: until the event agrees,
some worker does (`Stage.Owes`).
-/

import LedgerEngine.Webhooks.Finality

namespace LedgerEngine
namespace Webhooks

/-- The event is PUBLISHED if all its deliveries are SUCCESS, and FAILED if all are
terminal and one is FAILED. -/
def World.Agrees (w : World) (e : Uuid) : Prop :=
  ∀ event ∈ w.outboxEvents.find? e,
    ((∀ d ∈ w.deliveriesOf e, d.status = .success) → event.status = .published) ∧
    ((∀ d ∈ w.deliveriesOf e, d.status ≠ .pending) →
      (∃ d ∈ w.deliveriesOf e, d.status = .failed) → event.status = .failed)

instance (w : World) (e : Uuid) : Decidable (w.Agrees e) :=
  inferInstanceAs (Decidable (∀ event ∈ w.outboxEvents.find? e, _ ∧ _))

/-- Threads that deliver. -/
def Call.Delivers : Call → Prop
  | .process _ | .work _ _ => True
  | _ => False

instance : (t : Call) → Decidable t.Delivers
  | .process _ | .work _ _ => inferInstanceAs (Decidable True)
  | .dispatch _ | .poll _ => inferInstanceAs (Decidable False)

/-- The threads that start deliver. -/
def Delivery : Label Call Draw → Prop
  | .spawn t => t.Delivers
  | .step _ _ => True

/-- No call of the database or the queue fails. -/
def Unfailing (P : Threads) : Label Call Draw → Prop
  | .spawn _ => True
  | .step i ω => ∀ c ∈ P.threads[i]?.bind Thread.head, c.stores = true ∨ c.enqueues = true →
      (exec ω c P.world).1.isOk = true

/-- The update a call makes of a delivery. -/
def Command.records : Command → Option (Uuid × DeliveryPatch)
  | .updateDelivery d p => some (d, p)
  | _ => none

/-- The thread has read the deliveries of the event and not yet written its status. -/
def Stage.publishes (e : Uuid) : Stage → Bool
  | .publishing e' _ _ => e' = e
  | _ => false

/-- A delivery changes its status while no other thread is between reading the
deliveries of its event and writing the status of the event. -/
def Unread (P : Threads) : Label Call Draw → Prop
  | .spawn _ => True
  | .step i _ => ∀ u ∈ (P.threads[i]?.bind Thread.head).bind Command.records,
      ∀ r ∈ P.world.deliveries.find? u.1, r.status ≠ u.2.status →
        ∀ th ∈ P.threads.eraseIdx i, th.stage.publishes r.outboxEventId = false

instance : (l : Label Call Draw) → Decidable (Delivery l)
  | .spawn (.process _) | .spawn (.work _ _) => inferInstanceAs (Decidable True)
  | .spawn (.dispatch _) | .spawn (.poll _) => inferInstanceAs (Decidable False)
  | .step _ _ => inferInstanceAs (Decidable True)

instance (P : Threads) : (l : Label Call Draw) → Decidable (Unfailing P l)
  | .spawn _ => inferInstanceAs (Decidable True)
  | .step i ω => inferInstanceAs (Decidable
      (∀ c ∈ P.threads[i]?.bind Thread.head, c.stores = true ∨ c.enqueues = true →
        (exec ω c P.world).1.isOk = true))

instance (P : Threads) : (l : Label Call Draw) → Decidable (Unread P l)
  | .spawn _ => inferInstanceAs (Decidable True)
  | .step i _ => inferInstanceAs (Decidable
      (∀ u ∈ (P.threads[i]?.bind Thread.head).bind Command.records,
        ∀ r ∈ P.world.deliveries.find? u.1, r.status ≠ u.2.status →
          ∀ th ∈ P.threads.eraseIdx i, th.stage.publishes r.outboxEventId = false))

/-! ### The status of an event -/

/-- The status of an event depends on those of its deliveries alone. -/
theorem aggregate_congr {ds ds' : List WebhookDeliveryEntity}
    (h : ds.map (·.status) = ds'.map (·.status)) : aggregate ds = aggregate ds' := by
  have hall (s : WebhookDeliveryStatus) (l : List WebhookDeliveryEntity) :
      (l.all fun d => d.status = s) = (l.map (·.status)).all fun x => x = s := by
    rw [List.all_map]
    rfl
  have hany (s : WebhookDeliveryStatus) (l : List WebhookDeliveryEntity) :
      (l.any fun d => d.status = s) = (l.map (·.status)).any fun x => x = s := by
    rw [List.any_map]
    rfl
  simp only [aggregate, hall, hany, h]

/-- An event with the status computed from its deliveries agrees with them. -/
theorem agrees_of_aggregate {w : World} {e : Uuid}
    (h : ∀ event, w.outboxEvents.find? e = some event →
      event.status = aggregate (w.deliveriesOf e)) : w.Agrees e := by
  intro event hevent
  rw [h event hevent]
  constructor
  · intro hall
    have : ((w.deliveriesOf e).all fun d => d.status = .success) = true := by
      simpa using hall
    simp only [aggregate, this, if_true]
  · rintro hterminal ⟨d, hd, hfailed⟩
    have hnot : ((w.deliveriesOf e).all fun d => d.status = .success) = false := by
      rw [List.all_eq_false]
      exact ⟨d, hd, by simp [hfailed]⟩
    have hnone : ((w.deliveriesOf e).any fun d => d.status = .pending) = false := by
      rw [List.any_eq_false]
      exact fun d hd => by simpa using hterminal d hd
    simp [aggregate, hnot, hnone]

section Update

variable {w : World} {d : Uuid} {p : DeliveryPatch} {now : Time} {r : WebhookDeliveryEntity}

/-- The deliveries of an event after one delivery is updated. -/
theorem deliveriesOf_update (w : World) (d : Uuid) (p : DeliveryPatch) (now : Time) (e : Uuid) :
    ((w.deliveries.update d (p.change now)).rows.filter fun x => x.outboxEventId = e) =
      (w.deliveriesOf e).map (IndexedTable.changed d (p.change now)) := by
  rw [IndexedTable.rows_update, List.filter_map, World.deliveriesOf]
  have : (fun x : WebhookDeliveryEntity => decide (x.outboxEventId = e)) ∘
      IndexedTable.changed d (p.change now) = fun x => decide (x.outboxEventId = e) := by
    funext x
    simp only [Function.comp_apply, IndexedTable.changed]
    split <;> rfl
  rw [this]

/-- The row of a delivery is the only one with its id. -/
theorem eq_of_mem_deliveriesOf (hr : w.deliveries.find? d = some r) {e : Uuid}
    {x : WebhookDeliveryEntity} (hx : x ∈ w.deliveriesOf e) (hid : x.id = d) :
    x = r ∧ r.outboxEventId = e := by
  obtain ⟨hmem, hkey⟩ := Table.find?_eq_some hr
  obtain ⟨hxmem, hevent⟩ := List.mem_filter.1 hx
  obtain rfl := Table.eq_of_key_eq hxmem hmem (hid.trans hkey.symm)
  exact ⟨rfl, by simpa using hevent⟩

/-- A delivery that keeps its status, or is not of this event, changes nothing of
the statuses of the event's deliveries. -/
theorem statuses_update {e : Uuid} (hr : ∀ r, w.deliveries.find? d = some r →
      r.outboxEventId = e → r.status = p.status) :
    ((w.deliveries.update d (p.change now)).rows.filter
        fun x => x.outboxEventId = e).map (·.status) = (w.deliveriesOf e).map (·.status) := by
  rw [deliveriesOf_update, List.map_map]
  refine List.map_congr_left fun x hx => ?_
  rw [Function.comp_apply]
  by_cases hid : x.id = d
  · have hfind : w.deliveries.find? d = some x := by
      rw [← hid]
      exact Table.find?_key (List.mem_filter.1 hx).1
    rw [IndexedTable.changed_of_eq hid]
    exact (hr x hfind (eq_of_mem_deliveriesOf hfind hx hid).2).symm
  · rw [IndexedTable.changed_of_ne hid]

end Update

/-! ### Who still has to recompute the status -/

/-- The stages of a thread that delivers. -/
def Stage.Delivering : Stage → Prop
  | .starting _ | .attempting _ _ _ _ | .retrying _ _ _ | .settled => True
  | .recorded _ .delivery | .publishing _ _ .delivery => True
  | _ => False

/-- The thread has recorded an outcome and will write the status of the event. -/
def Stage.Owes (e : Uuid) : Stage → Prop
  | .retrying _ e' _ | .recorded e' _ | .publishing e' _ _ => e' = e
  | _ => False

/-- What holds between the steps of threads that deliver: each attempt knows the
event of its delivery, a computed status is current, and until the event agrees
with its deliveries some thread has still to recompute it. -/
structure Current (e : Uuid) (w : World) (ts : List (Call × Stage)) : Prop where
  delivering : ∀ (i : ℕ) (t : Call) (q : Stage), ts[i]? = some (t, q) → q.Delivering
  attempts : ∀ (i : ℕ) (t : Call) (phase : Phase) (d e' : Uuid) (attempts : ℕ),
    ts[i]? = some (t, .attempting phase d e' attempts) →
    ∀ r, w.deliveries.find? d = some r → r.outboxEventId = e'
  status : ∀ (i : ℕ) (t : Call) (x : OutboxStatus) (via : Via),
    ts[i]? = some (t, .publishing e x via) → x = aggregate (w.deliveriesOf e)
  owed : w.Agrees e ∨ ∃ (i : ℕ) (t : Call) (q : Stage), ts[i]? = some (t, q) ∧ q.Owes e

theorem delivering_next {q : Stage} {t : Call} {c : Command} (hq : q.Delivering)
    (hc : q.Allows t c) (r : Except Exception c.Res) : (q.next c r).Delivering := by
  cases hc with
  | now =>
      cases r with
      | ok now => rwa [Stage.next_dateNow]
      | error _ =>
          cases q with
          | attempting phase => cases phase <;> trivial
          | recorded e via => cases via <;> trivial
          | publishing e status via => cases via <;> trivial
          | _ => trivial
  | findEvent hr | enterPoll hr | leavePoll hr | findProcessable hr | mark hr =>
      cases q <;> first | exact hq.elim | exact hr.elim
  | findSubscriptions | findDeliveries | create | enqueue => exact hq.elim
  | start d =>
      cases r with
      | error _ => trivial
      | ok loaded =>
          show (Stage.found loaded).Delivering
          unfold Stage.found
          split
          · trivial
          · split_ifs <;> trivial
  | fail d e p =>
      cases r with
      | error _ => trivial
      | ok _ =>
          show (Stage.failed d e p.attemptCount p.nextRetryAt).Delivering
          unfold Stage.failed
          split <;> trivial
  | recompute e via | publish e via =>
      cases via with
      | delivery => cases r <;> trivial
      | dispatch => exact hq.elim
  | _ => cases r <;> trivial

section Step

variable {e : Uuid} {w w' : World} {ts : List (Call × Stage)} {i : ℕ} {t : Call} {q q' : Stage}

/-- Thread `i` moves on; deliveries keep their events. -/
theorem Current.set (h : Current e w ts) (hq' : q'.Delivering)
    (hrows : ∀ d r', w'.deliveries.find? d = some r' →
      ∃ r, w.deliveries.find? d = some r ∧ r'.outboxEventId = r.outboxEventId)
    (hattempt : ∀ phase d e' attempts, q' = .attempting phase d e' attempts →
      ∀ r, w'.deliveries.find? d = some r → r.outboxEventId = e')
    (hstatus : ∀ j u x via, j ≠ i → ts[j]? = some (u, .publishing e x via) →
      x = aggregate (w'.deliveriesOf e))
    (hpublish : ∀ x via, q' = .publishing e x via → x = aggregate (w'.deliveriesOf e))
    (howed : w'.Agrees e ∨ ∃ (j : ℕ) (u : Call) (p : Stage),
      (ts.set i (t, q'))[j]? = some (u, p) ∧ p.Owes e) :
    Current e w' (ts.set i (t, q')) where
  delivering j u p hj := by
    rcases getElem?_set_some hj with ⟨-, hju⟩ | ⟨-, hju⟩
    · obtain ⟨-, rfl⟩ := Prod.mk.inj hju
      exact hq'
    · exact h.delivering j u p hju
  attempts j u phase d e' attempts hj r hr := by
    rcases getElem?_set_some hj with ⟨-, hju⟩ | ⟨-, hju⟩
    · exact hattempt phase d e' attempts (Prod.mk.inj hju).2.symm r hr
    · obtain ⟨r₀, hr₀, hevent⟩ := hrows d r hr
      exact hevent.trans (h.attempts j u phase d e' attempts hju r₀ hr₀)
  status j u x via hj := by
    rcases getElem?_set_some hj with ⟨-, hju⟩ | ⟨hji, hju⟩
    · exact hpublish x via (Prod.mk.inj hju).2.symm
    · exact hstatus j u x via hji hju
  owed := howed

/-- The threads that owe a status besides thread `i` go on owing it. -/
theorem Current.owed_set (h : Current e w ts) (hi : ts[i]? = some (t, q))
    (hagrees : w.Agrees e → w'.Agrees e) (hq : q.Owes e → q'.Owes e) :
    w'.Agrees e ∨ ∃ (j : ℕ) (u : Call) (p : Stage),
      (ts.set i (t, q'))[j]? = some (u, p) ∧ p.Owes e := by
  rcases h.owed with hw | ⟨j, u, p, hj, hp⟩
  · exact Or.inl (hagrees hw)
  · refine Or.inr ?_
    by_cases hji : j = i
    · subst hji
      obtain ⟨rfl, rfl⟩ := Prod.mk.inj (Option.some.inj (hi.symm.trans hj))
      exact ⟨j, t, q', by rw [List.getElem?_set_self (List.getElem?_eq_some_iff.1 hi).1], hq hp⟩
    · exact ⟨j, u, p, by rw [List.getElem?_set_ne (Ne.symm hji)]; exact hj, hp⟩

/-- Thread `i` makes a call that changes neither deliveries nor events. -/
theorem Current.idle (h : Current e w ts) (hi : ts[i]? = some (t, q))
    (hdeliveries : w'.deliveries = w.deliveries) (hevents : w'.outboxEvents = w.outboxEvents)
    (hq' : q'.Delivering)
    (hattempt : ∀ phase d e' attempts, q' = .attempting phase d e' attempts →
      ∀ r, w.deliveries.find? d = some r → r.outboxEventId = e')
    (hpublish : ∀ x via, q' = .publishing e x via → x = aggregate (w.deliveriesOf e))
    (hq : q.Owes e → q'.Owes e) : Current e w' (ts.set i (t, q')) := by
  have hof : w'.deliveriesOf e = w.deliveriesOf e := by
    rw [World.deliveriesOf, hdeliveries, World.deliveriesOf]
  refine h.set hq' (fun d r hr => ⟨r, hdeliveries ▸ hr, rfl⟩) ?_ ?_ ?_ (h.owed_set hi ?_ hq)
  · rwa [hdeliveries]
  · intro j u x via _ hj
    rw [hof]
    exact h.status j u x via hj
  · rwa [hof]
  · intro hw event hevent
    rw [hevents] at hevent
    rw [hof]
    exact hw event hevent

/-- Thread `i` goes on with its attempt. -/
theorem Current.attempting (h : Current e w ts) {phase : Phase} {d e' : Uuid} {attempts : ℕ}
    (hi : ts[i]? = some (t, .attempting phase d e' attempts))
    (hdeliveries : w'.deliveries = w.deliveries) (hevents : w'.outboxEvents = w.outboxEvents)
    (hq' : ∃ phase', q' = .attempting phase' d e' attempts) :
    Current e w' (ts.set i (t, q')) := by
  obtain ⟨phase', rfl⟩ := hq'
  refine h.idle hi hdeliveries hevents trivial (fun _ _ _ _ hnext => ?_)
    (fun _ _ hnext => Stage.noConfusion hnext) fun hq => hq.elim
  obtain ⟨-, rfl, rfl, rfl⟩ := Stage.attempting.inj hnext
  exact h.attempts i t phase d e' attempts hi

/-- The attempt a worker begins knows the event of its delivery. -/
theorem attempting_found {d' : Uuid} {load : WebhookDeliveryEntity → LoadedDelivery}
    (hload : ∀ r, (load r).delivery = r) {phase : Phase} {d e' : Uuid} {attempts : ℕ}
    (h : Stage.found ((w.deliveries.find? d').map load) = .attempting phase d e' attempts) :
    d = d' ∧ ∃ r, w.deliveries.find? d = some r ∧ r.status = .pending ∧ r.outboxEventId = e' ∧
      r.attemptCount + 1 = attempts := by
  cases hrow : w.deliveries.find? d' with
  | none =>
      rw [hrow] at h
      exact Stage.noConfusion h
  | some r =>
      rw [hrow, Option.map_some] at h
      unfold Stage.found at h
      dsimp only at h
      rw [hload] at h
      split_ifs at h with hterminal
      unfold Stage.begun at h
      rw [hload, Stage.attempting.injEq] at h
      obtain ⟨-, rfl, rfl, rfl⟩ := h
      obtain ⟨-, rfl⟩ := Table.find?_eq_some hrow
      exact ⟨rfl, r, hrow, WebhookDeliveryStatus.eq_pending hterminal, rfl, rfl⟩

/-- A thread that delivers starts. -/
theorem Current.spawn (h : Current e w ts) (hdeliveries : w'.deliveries = w.deliveries)
    (hevents : w'.outboxEvents = w.outboxEvents) (d : Uuid) :
    Current e w' (ts ++ [(t, .starting d)]) := by
  have hof : w'.deliveriesOf e = w.deliveriesOf e := by
    rw [World.deliveriesOf, hdeliveries, World.deliveriesOf]
  constructor
  · intro j u p hj
    rcases getElem?_append_some hj with hj | ⟨-, he⟩
    · exact h.delivering j u p hj
    · obtain ⟨-, rfl⟩ := Prod.mk.inj he
      trivial
  · intro j u phase d' e' attempts hj
    rw [hdeliveries]
    rcases getElem?_append_some hj with hj | ⟨-, he⟩
    · exact h.attempts j u phase d' e' attempts hj
    · exact Stage.noConfusion (Prod.mk.inj he).2
  · intro j u x via hj
    rw [hof]
    rcases getElem?_append_some hj with hj | ⟨-, he⟩
    · exact h.status j u x via hj
    · exact Stage.noConfusion (Prod.mk.inj he).2
  · rcases h.owed with hw | ⟨j, u, p, hj, hp⟩
    · refine Or.inl fun event hevent => ?_
      rw [hevents] at hevent
      rw [hof]
      exact hw event hevent
    · refine Or.inr ⟨j, u, p, ?_, hp⟩
      rw [List.getElem?_append_left (List.getElem?_eq_some_iff.1 hj).1]
      exact hj

variable {ω : Draw} {c : Command}

/-- A worker records the outcome of an attempt. -/
theorem Current.update (h : Current e w ts) {phase : Phase} {d e' : Uuid} {attempts : ℕ}
    {p : DeliveryPatch} (hi : ts[i]? = some (t, .attempting phase d e' attempts))
    (hdeliveries : w'.deliveries = w.deliveries.update d (p.change ω.now))
    (hevents : w'.outboxEvents = w.outboxEvents) (hq' : q'.Delivering)
    (hattempt : ∀ phase d e' attempts, q' ≠ .attempting phase d e' attempts)
    (hpublish : ∀ x via, q' ≠ .publishing e x via) (howes : e' = e → q'.Owes e)
    (hunread : ∀ r, w.deliveries.find? d = some r → r.status ≠ p.status →
      ∀ j u x via, j ≠ i → ts[j]? ≠ some (u, .publishing r.outboxEventId x via)) :
    Current e w' (ts.set i (t, q')) := by
  have hevent := h.attempts i t phase d e' attempts hi
  refine h.set hq' (fun d' r' hr' => ?_) (fun phase d e' attempts hq => ?_) ?_ ?_ ?_
  · rw [hdeliveries, IndexedTable.find?_update, Option.map_eq_some_iff] at hr'
    obtain ⟨r, hr, rfl⟩ := hr'
    refine ⟨r, hr, ?_⟩
    unfold IndexedTable.changed
    split <;> rfl
  · exact absurd hq (hattempt phase d e' attempts)
  · intro j u x via hji hj
    -- the statuses the other thread has read are those there are now
    have hof : w'.deliveriesOf e = (w.deliveries.update d (p.change ω.now)).rows.filter
        fun x => x.outboxEventId = e := by rw [World.deliveriesOf, hdeliveries]
    rw [h.status j u x via hj, hof]
    refine aggregate_congr (statuses_update fun r hr he => ?_).symm
    by_contra hs
    exact hunread r hr hs j u x via hji (he ▸ hj)
  · exact fun x via hq => absurd hq (hpublish x via)
  · by_cases he : e' = e
    · refine Or.inr ⟨i, t, q', ?_, howes he⟩
      rw [List.getElem?_set_self (List.getElem?_eq_some_iff.1 hi).1]
    · -- the delivery belongs to another event
      have hof : w'.deliveriesOf e = w.deliveriesOf e := by
        rw [World.deliveriesOf, hdeliveries, deliveriesOf_update]
        refine (List.map_congr_left fun x hx => ?_).trans (List.map_id _)
        refine IndexedTable.changed_of_ne (fun hid => he ?_) _
        have hfind : w.deliveries.find? d = some x := by
          rw [← hid]
          exact Table.find?_key (List.mem_filter.1 hx).1
        exact (hevent x hfind).symm.trans (eq_of_mem_deliveriesOf hfind hx hid).2
      refine h.owed_set hi (fun hw event hfind => ?_) fun hq => hq.elim
      rw [hevents] at hfind
      rw [hof]
      exact hw event hfind

/-- A worker writes the status it has computed. -/
theorem Current.publish (h : Current e w ts) {e' : Uuid} {p : EventPatch} {via : Via}
    (hi : ts[i]? = some (t, .publishing e' p.status via))
    (hdeliveries : w'.deliveries = w.deliveries)
    (hevents : w'.outboxEvents = w.updateEvent ω.now e' p) (hq' : q' = .settled) :
    Current e w' (ts.set i (t, q')) := by
  subst hq'
  have hof : w'.deliveriesOf e = w.deliveriesOf e := by
    rw [World.deliveriesOf, hdeliveries, World.deliveriesOf]
  refine h.set trivial (fun d r hr => ⟨r, hdeliveries ▸ hr, rfl⟩)
    (fun _ _ _ _ hq => Stage.noConfusion hq) ?_ (fun _ _ hq => Stage.noConfusion hq) ?_
  · intro j u x via _ hj
    rw [hof]
    exact h.status j u x via hj
  · by_cases he : e' = e
    · subst he
      refine Or.inl (agrees_of_aggregate fun event hevent => ?_)
      rw [hof, ← h.status i t p.status via hi]
      rw [hevents, find?_updateEvent, if_pos rfl, Option.map_eq_some_iff] at hevent
      obtain ⟨event₀, -, rfl⟩ := hevent
      rfl
    · refine h.owed_set hi (fun hw event hevent => ?_) fun hq => (he hq).elim
      rw [hevents, find?_updateEvent, if_neg he] at hevent
      rw [hof]
      exact hw event hevent

/-- **One call of a thread that delivers.** -/
theorem Current.exec (h : Current e w ts) (hi : ts[i]? = some (t, q)) (hc : q.Allows t c)
    (hok : c.stores = true ∨ c.enqueues = true → (exec ω c w).1.isOk = true)
    (hunread : ∀ d p, c = .updateDelivery d p → ∀ r, w.deliveries.find? d = some r →
      r.status ≠ p.status →
      ∀ j u x via, j ≠ i → ts[j]? ≠ some (u, .publishing r.outboxEventId x via)) :
    Current e (exec ω c w).2 (ts.set i (t, q.next c (exec ω c w).1)) := by
  have hq := h.delivering i t q hi
  have hq' := delivering_next hq hc (Webhooks.exec ω c w).1
  cases hc with
  | now =>
      have hnext : q.next .dateNow (Webhooks.exec ω .dateNow w).1 = q := Stage.next_dateNow q ω.now
      rw [hnext]
      refine h.idle hi rfl rfl hq (fun phase d e' attempts hq => ?_) (fun x via hq => ?_) id
      · exact h.attempts i t phase d e' attempts (hq ▸ hi)
      · exact h.status i t x via (hq ▸ hi)
  | findEvent hr | enterPoll hr | leavePoll hr | findProcessable hr | mark hr =>
      cases q <;> first | exact hq.elim | exact hr.elim
  | findSubscriptions | findDeliveries | create | enqueue => exact hq.elim
  | start d =>
      obtain ⟨loaded, hr⟩ := isOk_elim (hok (Or.inl rfl))
      have hexec := exec_of_ok hr
      rw [hexec] at hr ⊢
      obtain rfl : (w.deliveries.find? d).map _ = loaded := Except.ok.inj hr
      refine h.idle hi rfl rfl (hexec ▸ hq') (fun phase d' e' attempts hfound r hr => ?_)
        (fun x via hfound => ?_) fun hq => hq.elim
      · obtain ⟨-, r', hr', -, he, -⟩ := attempting_found (fun _ => rfl) hfound
        rwa [Option.some.inj (hr.symm.trans hr')]
      · rcases found_cases ((w.deliveries.find? d).map fun d =>
          ⟨d, w.subscriptions.find? d.webhookSubscriptionId,
            w.outboxEvents.find? d.outboxEventId⟩) with hs | ⟨_, _, _, _, hs⟩
        · exact Stage.noConfusion (hs.symm.trans hfound)
        · exact Stage.noConfusion (hs.symm.trans hfound)
  | fetch d e' attempts request =>
      refine h.attempting hi rfl rfl ?_
      cases (Webhooks.exec ω (.fetch d request) w).1 <;> exact ⟨_, rfl⟩
  | responseText status d e' attempts =>
      refine h.attempting hi rfl rfl ?_
      cases (Webhooks.exec ω (.responseText d) w).1 <;> exact ⟨_, rfl⟩
  | succeed d e' p hs =>
      obtain ⟨hr, hw⟩ := exec_updateDelivery (hok (Or.inl rfl))
      rw [hr, hw]
      exact h.update hi rfl rfl trivial (fun _ _ _ _ => Stage.noConfusion)
        (fun _ _ => Stage.noConfusion) (fun he => he) (hunread d p rfl)
  | fail d e' p hs =>
      obtain ⟨hr, hw⟩ := exec_updateDelivery (hok (Or.inl rfl))
      rw [hr] at hq' ⊢
      rw [hw]
      have hfailed := failed_cases d e' p.attemptCount p.nextRetryAt
      refine h.update hi rfl rfl hq' ?_ ?_ ?_ (hunread d p rfl)
      · intro phase d'' e'' attempts hnext
        rcases hfailed with hs | hs <;> exact Stage.noConfusion (hs.symm.trans hnext)
      · intro x via hnext
        rcases hfailed with hs | hs <;> exact Stage.noConfusion (hs.symm.trans hnext)
      · intro he
        show (Stage.failed d e' p.attemptCount p.nextRetryAt).Owes e
        rcases hfailed with hs | hs <;> rw [hs] <;> exact he
  | retry d e' attempts delayMs =>
      obtain ⟨_, hr⟩ := isOk_elim (hok (Or.inr rfl))
      rw [exec_of_ok hr]
      exact h.idle hi rfl rfl trivial (fun _ _ _ _ => Stage.noConfusion)
        (fun _ _ => Stage.noConfusion) id
  | recompute e' via =>
      obtain ⟨ds, hr⟩ := isOk_elim (hok (Or.inl rfl))
      have hexec := exec_of_ok hr
      rw [hexec] at hr hq' ⊢
      obtain rfl : w.deliveriesOf e' = ds := Except.ok.inj hr
      refine h.idle hi rfl rfl hq' (fun _ _ _ _ => Stage.noConfusion) (fun x via' hnext => ?_) id
      obtain ⟨rfl, rfl, -⟩ := Stage.publishing.inj hnext
      rfl
  | publish e' via p =>
      obtain ⟨hr, hw⟩ := exec_updateEvent (hok (Or.inl rfl))
      rw [hr, hw]
      cases via with
      | delivery => exact h.publish hi rfl rfl rfl
      | dispatch => exact hq.elim
  | complete | failJob =>
      exact h.idle hi rfl rfl trivial (fun _ _ _ _ => Stage.noConfusion)
        (fun _ _ => Stage.noConfusion) id

end Step

/-- **An event agrees with its deliveries at rest.**  In every history of workers
without storage failures in which no delivery changes its status while another
thread is between reading the deliveries of the event and writing its status,
the event agrees with its deliveries in every state in which no call is in
flight, if it did before. -/
theorem agrees_at_rest (cfg : Config) (w : World) (e : Uuid) (labels : List (Label Call Draw))
    (hw : w.Agrees e)
    (h : Pool.Along (system cfg) (fun P l => Delivery l ∧ Unfailing P l ∧ Unread P l) (.start w)
      labels)
    (hrest : (Pool.run (system cfg) (.start w) labels).AtRest) :
    (Pool.run (system cfg) (.start w) labels).world.Agrees e := by
  have hrun := Pool.invariant (J := Current e) (body_follows cfg) ?_ ?_ h
    (Pool.tracked_start _ _) ⟨?_, ?_, ?_, Or.inl hw⟩
  · obtain ⟨htracked, hcurrent⟩ := hrun
    rcases hcurrent.owed with hagrees | ⟨i, t, q, hi, hq⟩
    · exact hagrees
    · -- a thread that owes the status has a call left to make
      obtain ⟨th, hth, he⟩ := Option.map_eq_some_iff.1 ((List.getElem?_map ..).symm.trans hi)
      obtain ⟨-, rfl⟩ := Prod.mk.inj he
      have hmem := List.mem_of_getElem? hth
      obtain ⟨_, hfinal⟩ := htracked.ended hmem (hrest th hmem)
      have hfinal : th.stage.Final := hfinal.final
      cases hs : th.stage <;> rw [hs] at hq hfinal <;> first | exact hq.elim | exact hfinal.elim
  · rintro P t w' hcurrent ⟨hdelivery, -⟩ hspawn
    have hsame : w'.deliveries = P.world.deliveries ∧ w'.outboxEvents = P.world.outboxEvents := by
      rcases spawn_eq_some hspawn with rfl | ⟨_, _, _, _, _, rfl⟩ <;> exact ⟨rfl, rfl⟩
    cases t with
    | process d => exact hcurrent.spawn hsame.1 hsame.2 d
    | work job now => exact hcurrent.spawn hsame.1 hsame.2 job.deliveryId
    | dispatch | poll => exact hdelivery.elim
  · rintro P i t q c ω hcurrent ⟨-, hunfailing, hunread⟩ hi hhead hc
    refine hcurrent.exec hi hc (hunfailing c hhead) fun d p hp r hr hs j u x via hji hj => ?_
    obtain ⟨th, hth, he⟩ := Option.map_eq_some_iff.1 ((List.getElem?_map ..).symm.trans hj)
    have hth' : th ∈ P.threads.eraseIdx i := by
      rw [List.mem_eraseIdx_iff_getElem?]
      exact ⟨j, hji, hth⟩
    have := hunread (d, p) (by rw [hhead, hp]; rfl) r hr hs th hth'
    rw [(Prod.mk.inj he).2, Stage.publishes, decide_eq_false_iff_not] at this
    exact this rfl
  all_goals simp [Pool.stages, Pool.start]

/-! ### Two deliveries of one event -/

/-- Another subscription to the event, and its delivery. -/
def otherSubscription : WebhookSubscriptionEntity :=
  { sampleSubscription with id := .ofText (js "s'") }

def otherDelivery : WebhookDeliveryEntity :=
  (newDelivery sampleEvent.id 0 otherSubscription).row 0 (.ofText (js "d'"))

/-- The world in which the jobs of both deliveries wait. -/
def twoDeliveries : World :=
  { sampleWorld with
    subscriptions := ⟨[sampleSubscription, otherSubscription], by decide⟩
    deliveries := ⟨⟨[sampleDelivery, otherDelivery], by decide⟩, by decide⟩
    queue := sampleWorld.queue.add ⟨otherDelivery.id, 1⟩ .waiting }

/-- Worker `i` takes the job of a delivery and delivers it, up to reading the
deliveries of the event. -/
def delivering (i : ℕ) (d : Uuid) : List (Label Call Draw) :=
  .spawn (.work ⟨d, 1⟩ 0) :: List.replicate 6 (.step i (answering 200))

/-- One worker after the other. -/
def inTurn : List (Label Call Draw) :=
  delivering 0 sampleDelivery.id ++ List.replicate 2 (.step 0 (answering 200)) ++
    delivering 1 otherDelivery.id ++ List.replicate 3 (.step 1 (answering 200))

theorem agrees_at_rest_inTurn :
    (Pool.run (system sampleConfig) (.start twoDeliveries) inTurn).world.Agrees sampleEvent.id :=
  agrees_at_rest sampleConfig twoDeliveries sampleEvent.id inTurn (by decide) (by decide)
    (by decide)

/-- The first worker has read the deliveries when the second delivers and
publishes the event; then it writes what it has computed. -/
def crossing : List (Label Call Draw) :=
  delivering 0 sampleDelivery.id ++ delivering 1 otherDelivery.id ++
    List.replicate 3 (.step 1 (answering 200)) ++ List.replicate 2 (.step 0 (answering 200))

theorem stale_status_stays :
    Pool.Along (system sampleConfig) (fun P l => Delivery l ∧ Unfailing P l)
        (.start twoDeliveries) crossing ∧
      twoDeliveries.Agrees sampleEvent.id ∧
      (Pool.run (system sampleConfig) (.start twoDeliveries) crossing).AtRest ∧
      (Pool.run (system sampleConfig) (.start twoDeliveries) crossing).world.queue.live = [] ∧
      ¬ (Pool.run (system sampleConfig) (.start twoDeliveries) crossing).world.Agrees
        sampleEvent.id := by
  decide

end Webhooks
end LedgerEngine
