/-
# A terminal event stays terminal

PUBLISHED and FAILED are the terminal statuses of an event: no poll selects it any
more.  Here each call a poll makes of the other services is one step of a run, and so
is each job (`pollers`).

A poll writes the events it has read, whatever has become of them since: one that a
worker has published is PROCESSING again once the poll marks it (`published_moves`).
If at each of its writes the event still is as the poll has read or marked it
(`Polling.Current`), and no event is given up while a job waits for a PENDING delivery
of it (`World.Awaits`), then no step of a run moves a terminal event
(`terminal_absorbing`).

Two facts carry this through a run.  A poll has read PENDING and PROCESSING events only
(`Polling.Selected`), so what is as it was read is not terminal.  And no job waits for
a PENDING delivery of a terminal event (`World.Settled`), so a job writes none; this is
kept because a dispatch and a job make an event terminal only when none of its
deliveries is PENDING (`World.During`, `World.After`).
-/

import LedgerEngine.Webhooks.Lost
import LedgerEngine.Webhooks.Polls

namespace LedgerEngine
namespace Webhooks

/-! ### Calls of other services and jobs as steps -/

/-- What a run starts: a poll of a service instance, or a worker with its job, which
it does in one step. -/
inductive Start : Type
  | poll (service : ℕ)
  | work (job : JobId) (now : Time) (script : Script)

/-- The pool of polls.  Each call of another service is carried out whole, under a
script; a job is, when its worker starts. -/
def pollers (cfg : Config) :
    System Start ServiceCall ServiceCall.Res Exception Unit World Script Polling where
  exec script c w := ((servicesScripted script c (w, 0)).1, (servicesScripted script c (w, 0)).2.1)
  body
    | .poll service => poll cfg service
    | .work _ _ _ => return ()
  spawn
    | .poll _, w => some w
    | .work job now script, w => some (perform cfg w (.work job now, script))
  entry
    | .poll _ => .entering
    | .work _ _ _ => .idle
  protocol
    | .poll service => Polling.protocol cfg service
    | .work _ _ _ => { next := fun q _ _ => q, allows := fun _ _ => False }

abbrev Pollers := Pool Start ServiceCall ServiceCall.Res Exception Unit World Polling

/-! ### Terminal events -/

/-- No poll selects an event of this status any more. -/
def Concluded (s : OutboxStatus) : Prop := s = .published ∨ s = .failed

instance (s : OutboxStatus) : Decidable (Concluded s) := inferInstanceAs (Decidable (_ ∨ _))

/-- The status of an event, if there is one. -/
def World.statusOf (w : World) (e : Uuid) : Option OutboxStatus :=
  (w.outboxEvents.find? e).map OutboxEventEntity.status

/-- The event is PUBLISHED or FAILED. -/
def World.Terminal (w : World) (e : Uuid) : Prop := ∃ s ∈ w.statusOf e, Concluded s

/-- What is terminal in `w` has its status still. -/
def World.Keeps (w w' : World) : Prop := ∀ e, w.Terminal e → w'.statusOf e = w.statusOf e

/-- A job waits for a PENDING delivery of the event. -/
def World.Awaits (w : World) (e : Uuid) : Prop :=
  ∃ job ∈ w.queue.live, job.state ≠ .active ∧
    ∃ r ∈ w.deliveries.find? job.id.deliveryId, r.status = .pending ∧ r.outboxEventId = e

/-- No job waits for a PENDING delivery of a terminal event. -/
def World.Settled (w : World) : Prop := ∀ e, w.Awaits e → ¬ w.Terminal e

/-! ### What polls do not overtake -/

namespace Polling

/-- The events a poll has read and not finished with. -/
def events : Polling → List OutboxEventEntity
  | marking event events | dispatching event events | dating event events
  | recording event _ events => event :: events
  | _ => []

/-- No event was terminal when the poll read it. -/
def Selected (q : Polling) : Prop := ∀ event ∈ q.events, ¬ Concluded event.status

/-- The event the poll is about to write is as it has read or marked it: as read when
it marks it, as marked when it dispatches it, and one or the other when it records a
failure, that of the mark or of the dispatch. -/
def Current (w : World) : Polling → Prop
  | marking event _ => w.statusOf event.id = some event.status
  | dispatching event _ => w.statusOf event.id = some .processing
  | recording event _ _ =>
      w.statusOf event.id = some event.status ∨ w.statusOf event.id = some .processing
  | _ => True

/-- The event the poll is about to give up. -/
def givesUp : Polling → Option Uuid
  | recording event none _ => some event.id
  | _ => none

end Polling

/-- A poll writes what is current, and gives an event up only while no job waits for a
PENDING delivery of it. -/
def Abreast (P : Pollers) : Label Start Script → Prop
  | .spawn _ => True
  | .step i _ => ∀ th ∈ P.threads[i]?, th.stage.Current P.world ∧
      ∀ e ∈ th.stage.givesUp, ¬ P.world.Awaits e

instance (w : World) (e : Uuid) : Decidable (w.Terminal e) :=
  inferInstanceAs (Decidable (∃ s ∈ w.statusOf e, _))

instance (w : World) (e : Uuid) : Decidable (w.Awaits e) :=
  inferInstanceAs (Decidable (∃ job ∈ w.queue.live, _ ∧ ∃ r ∈ w.deliveries.find? _, _ ∧ _))

instance (w : World) : (q : Polling) → Decidable (q.Current w)
  | .marking event _ => inferInstanceAs (Decidable (w.statusOf event.id = some event.status))
  | .dispatching event _ => inferInstanceAs (Decidable (w.statusOf event.id = some .processing))
  | .recording _ _ _ => inferInstanceAs (Decidable (_ ∨ _))
  | .entering | .timing | .selecting _ | .dating _ _ | .leaving | .idle =>
      inferInstanceAs (Decidable True)

instance (P : Pollers) : (l : Label Start Script) → Decidable (Abreast P l)
  | .spawn _ => inferInstanceAs (Decidable True)
  | .step i _ => inferInstanceAs (Decidable (∀ th ∈ P.threads[i]?, _ ∧ ∀ e ∈ th.stage.givesUp, _))

section Keeps

variable {w w' w'' : World} {e : Uuid} {s : OutboxStatus}

theorem not_terminal_of_statusOf (h : w.statusOf e = some s) (hs : ¬ Concluded s) :
    ¬ w.Terminal e := by
  rintro ⟨s', hs', hconcluded⟩
  rw [h] at hs'
  obtain rfl := Option.some.inj hs'
  exact hs hconcluded

theorem terminal_congr (h : w'.statusOf e = w.statusOf e) : w'.Terminal e ↔ w.Terminal e := by
  rw [World.Terminal, World.Terminal, h]

theorem World.Keeps.refl (w : World) : w.Keeps w := fun _ _ => rfl

theorem World.Keeps.trans (h : w.Keeps w') (h' : w'.Keeps w'') : w.Keeps w'' := by
  intro e he
  have hstatus := h e he
  exact (h' e ((terminal_congr hstatus).2 he)).trans hstatus

/-- A terminal event is a row. -/
theorem World.Terminal.mem (h : w.Terminal e) : ∃ event ∈ w.outboxEvents.rows, event.id = e := by
  obtain ⟨s, hs, -⟩ := h
  obtain ⟨event, hevent, -⟩ := Option.map_eq_some_iff.1 hs
  exact ⟨event, Table.find?_eq_some hevent⟩

end Keeps

instance (w : World) : Decidable w.Settled :=
  decidable_of_iff (∀ event ∈ w.outboxEvents.rows, w.Awaits event.id → ¬ w.Terminal event.id) <| by
    constructor
    · intro h e hawaits hterminal
      obtain ⟨event, hevent, rfl⟩ := hterminal.mem
      exact h event hevent hawaits hterminal
    · exact fun h event _ => h event.id

/-! ### What one call leaves of the other events -/

/-- The row of the delivery, if there is one, is for the event. -/
def World.Owns (w : World) (e d : Uuid) : Prop := ∀ r ∈ w.deliveries.find? d, r.outboxEventId = e

/-- What the call writes is the event, a delivery of it or a job for one. -/
def Command.Concerns (w : World) (e : Uuid) : Command → Prop
  | .updateEvent e' _ => e' = e
  | .saveDeliveries rows => ∀ d ∈ rows, d.outboxEventId = e
  | .updateDelivery d _ => w.Owns e d
  | .addJob job _ => w.Owns e job.deliveryId
  | _ => True

/-- The calls that read, and those that finish a job. -/
def Command.quiet : Command → Bool
  | .updateEvent _ _ | .saveDeliveries _ | .updateDelivery _ _ | .addJob _ _ => false
  | _ => true

/-- The other events are as in `w₀`, and no job has come to wait for one. -/
structure World.Beside (w₀ : World) (e : Uuid) (w : World) : Prop where
  status : ∀ e' ≠ e, w.statusOf e' = w₀.statusOf e'
  awaits : ∀ e' ≠ e, w.Awaits e' → w₀.Awaits e'

section Commands

variable {ω : Draw} {c : Command} {w w' w₀ : World} {e d : Uuid}

/-- A job is in the queue after a call if it was before, or the call has added it. -/
theorem mem_live_exec {job : LiveJob JobId} (h : job ∈ (exec ω c w).2.queue.live) :
    job ∈ w.queue.live ∨ ∃ delayMs, c = .addJob job.id delayMs := by
  have heffect := exec_queue ω c w
  generalize (exec ω c w).2.queue = queue at h heffect
  cases heffect with
  | same => exact Or.inl h
  | added _ delayMs =>
      rcases JobQueue.mem_live_add h with hold | rfl
      · exact Or.inl hold
      · exact Or.inr ⟨delayMs, rfl⟩
  | completed => exact Or.inl (List.mem_filter.1 h).1
  | failed => exact Or.inl (List.mem_filter.1 h).1

/-- A row after a call that concerns one event is as it was, or it is for that event. -/
theorem find?_exec_of_concerns (hc : c.Concerns w e) {r : WebhookDeliveryEntity}
    (h : (exec ω c w).2.deliveries.find? d = some r) :
    w.deliveries.find? d = some r ∨ r.outboxEventId = e := by
  have heffect := exec_deliveries ω c w
  generalize (exec ω c w).2.deliveries = deliveries at h heffect
  cases heffect with
  | same => exact Or.inl h
  | saved hsave =>
      obtain ⟨hinsert, -, hrows⟩ := saveDeliveries_eq_some hsave
      rcases IndexedTable.find?_insertAll hinsert d with hfind | ⟨-, r', hr', -, hfind⟩
      · exact Or.inl (hfind ▸ h)
      · obtain rfl := Option.some.inj (h.symm.trans hfind)
        obtain ⟨new, hnew, id, rfl⟩ := hrows r hr'
        exact Or.inr (hc new hnew)
  | updated d' =>
      rw [IndexedTable.find?_update, Option.map_eq_some_iff] at h
      obtain ⟨r₀, hr₀, rfl⟩ := h
      have hkey : Keyed.key r₀ = d := (Table.find?_eq_some hr₀).2
      by_cases hd : d = d'
      · rw [IndexedTable.changed_of_eq (hkey.trans hd)]
        exact Or.inr (hc r₀ (hd ▸ hr₀))
      · rw [IndexedTable.changed_of_ne (hkey ▸ hd)]
        exact Or.inl hr₀

/-- A delivery of the event stays one. -/
theorem World.Owns.exec (h : w.Owns e d) (hc : c.Concerns w e) : (exec ω c w).2.Owns e d := by
  intro r hr
  rcases find?_exec_of_concerns hc hr with hold | he
  · exact h r hold
  · exact he

/-- The status of an event after one is patched. -/
theorem statusOf_updateEvent (w : World) (now : Time) (e' : Uuid) (p : EventPatch) (e : Uuid) :
    ((w.updateEvent now e' p).find? e).map OutboxEventEntity.status =
      if e' = e then (w.statusOf e).map fun _ => p.status else w.statusOf e := by
  rw [find?_updateEvent]
  unfold World.statusOf
  split_ifs
  · cases w.outboxEvents.find? e with
    | none => rfl
    | some event => rfl
  · rfl

/-- Only an update of the event writes its status. -/
theorem statusOf_exec (hc : ∀ p, c ≠ .updateEvent e p) :
    (exec ω c w).2.statusOf e = w.statusOf e := by
  unfold World.statusOf
  rcases exec_outboxEvents ω c w with hsame | ⟨e', p, rfl, hnew⟩
  · rw [hsame]
  · have he : e' ≠ e := by
      rintro rfl
      exact hc p rfl
    rw [hnew, statusOf_updateEvent, if_neg he]
    rfl

theorem World.Beside.refl (w : World) (e : Uuid) : w.Beside e w := ⟨fun _ _ => rfl, fun _ _ h => h⟩

/-- **A call that concerns one event leaves the others alone.** -/
theorem World.Beside.exec (h : w₀.Beside e w) (hc : c.Concerns w e) :
    w₀.Beside e (exec ω c w).2 := by
  refine ⟨fun e' he => ?_, ?_⟩
  · refine (statusOf_exec fun p hp => ?_).trans (h.status e' he)
    subst hp
    exact he hc
  · rintro e' he ⟨job, hjob, hstate, r, hr, hpending, rfl⟩
    have hold := (find?_exec_of_concerns hc hr).resolve_right he
    rcases mem_live_exec hjob with hjob | ⟨delayMs, rfl⟩
    · exact h.awaits _ he ⟨job, hjob, hstate, r, hold, hpending, rfl⟩
    · exact absurd (hc r hold) he

/-- Jobs wait for an event as they did if no delivery has changed and no job is new. -/
theorem awaits_of_same (hdeliveries : w'.deliveries = w.deliveries)
    (hlive : ∀ job ∈ w'.queue.live, job.state ≠ .active → job ∈ w.queue.live) (h : w'.Awaits e) :
    w.Awaits e := by
  obtain ⟨job, hjob, hstate, hr⟩ := h
  exact ⟨job, hlive job hjob hstate, hstate, hdeliveries ▸ hr⟩

/-- A job waits for an event only if one of its deliveries is PENDING. -/
theorem not_awaits (h : ∀ r ∈ w.deliveriesOf e, r.status ≠ .pending) : ¬ w.Awaits e := by
  rintro ⟨job, -, -, r, hr, hpending, he⟩
  exact h r (List.mem_filter.2 ⟨(Table.find?_eq_some hr).1, decide_eq_true he⟩) hpending

theorem not_awaits_of_aggregate (h : aggregate (w.deliveriesOf e) ≠ .processing) :
    ¬ w.Awaits e :=
  not_awaits fun _ hr hpending => h (aggregate_of_pending hr hpending)

end Commands

/-! ### What the calls of the services leave -/

/-- The work on the event goes on: the event is not terminal, and these are
deliveries of it. -/
structure World.During (w₀ : World) (e : Uuid) (ds : List Uuid) (w : World) : Prop where
  beside : w₀.Beside e w
  undecided : ¬ w.Terminal e
  owns : ∀ d ∈ ds, w.Owns e d

/-- The work on the event is done: if that is terminal, no job waits for it. -/
structure World.After (w₀ : World) (e : Uuid) (w : World) : Prop where
  beside : w₀.Beside e w
  settled : w.Awaits e → ¬ w.Terminal e

/-- Terminal events have kept their status, and no job waits for one. -/
structure World.Spares (w₀ w : World) : Prop where
  keeps : w₀.Keeps w
  settled : w.Settled

section Work

variable {ω : Draw} {c : Command} {w w₀ : World} {e : Uuid} {ds : List Uuid}

theorem World.During.start (he : ¬ w.Terminal e) (hds : ∀ d ∈ ds, w.Owns e d) :
    w.During e ds w :=
  ⟨.refl w e, he, hds⟩

theorem World.During.begin (he : ¬ w.Terminal e) : w.During e [] w :=
  .start he fun _ h => absurd h List.not_mem_nil

theorem World.During.after (h : w₀.During e ds w) : w₀.After e w :=
  ⟨h.beside, fun _ => h.undecided⟩

/-- A call of the work that does not write the event. -/
theorem World.During.exec (h : w₀.During e ds w) (hc : c.Concerns w e)
    (hupdate : ∀ p, c ≠ .updateEvent e p) : w₀.During e ds (exec ω c w).2 where
  beside := h.beside.exec hc
  undecided := fun ht => h.undecided ((terminal_congr (statusOf_exec hupdate)).1 ht)
  owns d hd := (h.owns d hd).exec hc

/-- **The status of the event is written**: a terminal one while no job waits for it. -/
theorem World.During.publish (h : w₀.During e ds w) {p : EventPatch}
    (hp : Concluded p.status → ¬ w.Awaits e) :
    w₀.After e (Webhooks.exec ω (.updateEvent e p) w).2 := by
  refine ⟨h.beside.exec rfl, fun hawaits => ?_⟩
  rcases exec_world ω (.updateEvent e p) w with hsame | hnew
  · rw [hsame]
    exact h.undecided
  · have hsame := same_exec (ω := ω) (w := w) (c := .updateEvent e p) rfl
    have hbefore : w.Awaits e := awaits_of_same hsame.1 (fun job hjob _ => hsame.2 ▸ hjob) hawaits
    rintro ⟨s, hs, hconcluded⟩
    rcases answer_updateEvent ω e p w with hsame | hpatched
    · rw [hnew, hsame] at hs
      exact h.undecided ⟨s, hs, hconcluded⟩
    · have hs : ((w.updateEvent ω.now e p).find? e).map OutboxEventEntity.status = some s := by
        rw [hnew, hpatched] at hs
        exact hs
      rw [statusOf_updateEvent, if_pos rfl] at hs
      obtain ⟨_, -, rfl⟩ := Option.map_eq_some_iff.1 hs
      exact hp hconcluded hbefore

/-- **Work on an event that was not terminal has spared the others.** -/
theorem World.After.spares (h : w₀.After e w) (he : ¬ w₀.Terminal e) (hw : w₀.Settled) :
    w₀.Spares w := by
  refine ⟨fun e' ht => ?_, fun e' hawaits => ?_⟩
  · refine h.beside.status e' fun hsame => ?_
    exact he (hsame ▸ ht)
  · by_cases hsame : e' = e
    · subst hsame
      exact h.settled hawaits
    · have hbefore := hw e' (h.beside.awaits e' hsame hawaits)
      exact fun ht => hbefore ((terminal_congr (h.beside.status e' hsame)).1 ht)

theorem World.Spares.refl (h : w.Settled) : w.Spares w := ⟨.refl w, h⟩

theorem World.Spares.trans {w' : World} (h : w₀.Spares w) (h' : w.Spares w') : w₀.Spares w' :=
  ⟨h.keeps.trans h'.keeps, h'.settled⟩

/-- A call that only reads or finishes a job. -/
theorem World.Spares.exec (h : w₀.Spares w) (hc : c.quiet = true) :
    w₀.Spares (exec ω c w).2 := by
  have hne {c' : Command} (hc' : c'.quiet = false) : c ≠ c' := by
    rintro rfl
    exact Bool.false_ne_true (hc'.symm.trans hc)
  have hstatus (e : Uuid) : (Webhooks.exec ω c w).2.statusOf e = w.statusOf e :=
    statusOf_exec fun _ => hne rfl
  have hdeliveries : (Webhooks.exec ω c w).2.deliveries = w.deliveries :=
    deliveries_exec (fun _ => hne rfl) fun _ _ => hne rfl
  constructor
  · exact h.keeps.trans fun e _ => hstatus e
  · intro e hawaits ht
    refine h.settled e (awaits_of_same hdeliveries (fun job hjob _ => ?_) hawaits)
      ((terminal_congr (hstatus e)).1 ht)
    exact (mem_live_exec hjob).resolve_right fun ⟨_, hadd⟩ => hne rfl hadd

end Work

/-- From a world in `pre` the program ends in `post`, whatever its calls meet. -/
abbrev Ensures {α : Type} (script : Script) (pre : World → Prop) (p : Service α)
    (post : Except Exception α → World → Prop) : Prop :=
  Prog.Triple (scripted script) (fun _ _ => True) (fun s => pre s.1) p fun r s => post r s.1

section Calls

variable {α β : Type} {script : Script} {w₀ : World} {e : Uuid} {ds : List Uuid}
  {pre : World → Prop}

theorem Ensures.bind {p : Service α} {f : α → Service β} (mid : Except Exception α → World → Prop)
    {post : Except Exception β → World → Prop} (hp : Ensures script pre p mid)
    (hf : ∀ a, Ensures script (mid (.ok a)) (f a) post)
    (herror : ∀ e w, mid (.error e) w → post (.error e) w) :
    Ensures script pre (p.bind f) post :=
  Prog.Triple.bind (fun r s => mid r s.1) hp hf fun e s => herror e s.1

/-- What a program ensures when it runs from a world. -/
theorem Ensures.eval {p : Service α} {post : Except Exception α → World → Prop} {w : World}
    (h : Ensures script pre p post) (hw : pre w) :
    post (p.eval (scripted script) (w, 0)).1 (p.eval (scripted script) (w, 0)).2.1 :=
  h (w, 0) hw (Prog.meets_of_forall (fun _ _ => trivial) p _)

/-- A fact that does not depend on the world. -/
theorem Ensures.of_fact {φ : Prop} {p : Service α} {post : Except Exception α → World → Prop}
    (h : φ → Ensures script pre p post) : Ensures script (fun w => pre w ∧ φ) p post :=
  fun s hs => h hs.2 s hs.1

/-- A call that only reads; if it resolves, with what it finds. -/
theorem await_reads {c : Command} {post : Except Exception c.Res → World → Prop}
    (hc : ∀ ω w, (answer ω c w).2 = w)
    (hok : ∀ ω w r, pre w → (answer ω c w).1 = .ok r → post (.ok r) w)
    (herror : ∀ e w, pre w → post (.error e) w) : Ensures script pre (.await c) post := by
  refine Prog.Triple.await fun s hs _ => ?_
  have hworld : (exec (script s.2) c s.1).2 = s.1 := by
    rcases exec_world (script s.2) c s.1 with h | h
    · exact h
    · exact h.trans (hc _ _)
  show post (exec (script s.2) c s.1).1 (exec (script s.2) c s.1).2
  rw [hworld]
  cases hr : (exec (script s.2) c s.1).1 with
  | ok r =>
      have hanswer := exec_of_ok hr
      rw [hanswer] at hr
      exact hok _ _ r hs hr
  | error e => exact herror e s.1 hs

/-- The same, of a call made at first. -/
theorem await_finds {c : Command} (hc : ∀ ω w, (answer ω c w).2 = w) {found : c.Res}
    (hfound : ∀ ω, (answer ω c w₀).1 = .ok found) :
    Ensures script (fun w => w = w₀) (.await c) fun r w =>
      w = w₀ ∧ ∀ a, r = .ok a → a = found := by
  refine await_reads hc (fun ω w r hw hr => ⟨hw, fun a ha => ?_⟩) fun e w hw =>
    ⟨hw, fun _ h => absurd h (by simp)⟩
  subst hw
  obtain rfl := Except.ok.inj ha
  exact Except.ok.inj (hr.symm.trans (hfound ω))

theorem await_spares {c : Command} (hc : c.quiet = true) :
    Ensures script w₀.Spares (.await c) fun _ => w₀.Spares :=
  Prog.Triple.await fun _ hs _ => hs.exec hc

/-! #### The status of the event -/

theorem updateEvent_after {p : EventPatch} :
    Ensures script (fun w => w₀.During e ds w ∧ (Concluded p.status → ¬ w.Awaits e))
      (updateEvent e p) fun _ => w₀.After e :=
  Prog.Triple.await fun _ hs _ => hs.1.publish hs.2

theorem markPublished_after :
    Ensures script (fun w => w₀.During e ds w ∧ ¬ w.Awaits e) (markPublished e)
      fun _ => w₀.After e := by
  refine Ensures.bind (fun _ w => w₀.During e ds w ∧ ¬ w.Awaits e)
    (await_reads (fun _ _ => rfl) (fun _ _ _ hw _ => hw) fun _ _ hw => hw)
    (fun publishedAt => ?_) fun _ _ hw => hw.1.after
  exact updateEvent_after.mono (fun _ hs => ⟨hs.1, fun _ => hs.2⟩) fun _ _ hs => hs

/-- **The status is computed**: it is terminal only if none of the deliveries is PENDING. -/
theorem updateOutboxStatus_after :
    Ensures script (w₀.During e ds) (updateOutboxStatus e) fun _ => w₀.After e := by
  refine Ensures.bind (fun r w => w₀.During e ds w ∧
    ∀ deliveries, r = .ok deliveries → deliveries = w.deliveriesOf e)
    (await_reads (fun _ _ => rfl) (fun ω w r hw hr => ⟨hw, fun deliveries h => ?_⟩)
      fun _ w hw => ⟨hw, fun _ h => absurd h (by simp)⟩)
    (fun deliveries => ?_) fun _ _ hw => hw.1.after
  · obtain rfl := Except.ok.inj hr
    exact (Except.ok.inj h).symm
  · have hnone {s : World × ℕ} (hs : ∀ read, Except.ok (ε := Exception) deliveries = .ok read →
        read = s.1.deliveriesOf e) (hstatus : aggregate deliveries ≠ .processing) :
        ¬ s.1.Awaits e := by
      obtain rfl := hs deliveries rfl
      exact not_awaits_of_aggregate hstatus
    cases hstatus : aggregate deliveries with
    | published =>
        exact markPublished_after.mono (fun _ hs => ⟨hs.1, hnone hs.2 (by simp [hstatus])⟩)
          fun _ _ hs => hs
    | failed =>
        exact updateEvent_after.mono (fun _ hs => ⟨hs.1, fun _ => hnone hs.2 (by simp [hstatus])⟩)
          fun _ _ hs => hs
    | processing =>
        exact updateEvent_after.mono (fun _ hs => ⟨hs.1, fun h => absurd h (by decide)⟩)
          fun _ _ hs => hs
    | pending => exact absurd hstatus (aggregate_ne_pending deliveries)

/-! #### A job -/

theorem ret_during (a : α) :
    Ensures script (w₀.During e ds) (.ret a : Service α) fun _ => w₀.During e ds :=
  Prog.Triple.ret fun _ hs => hs

theorem raise_during (ex : Exception) :
    Ensures script (w₀.During e ds) (.raise ex : Service α) fun _ => w₀.During e ds :=
  fun _ hs _ => hs

theorem await_during {c : Command} (hc : ∀ w, w₀.During e ds w → c.Concerns w e)
    (hupdate : ∀ p, c ≠ .updateEvent e p) :
    Ensures script (w₀.During e ds) (.await c) fun _ => w₀.During e ds :=
  Prog.Triple.await fun s hs _ => hs.exec (hc s.1 hs) hupdate

theorem dateNow_during : Ensures script (w₀.During e ds) dateNow fun _ => w₀.During e ds :=
  await_during (fun _ _ => trivial) (by simp)

theorem relation_during (o : Option α) :
    Ensures script (w₀.During e ds) (relation o) fun _ => w₀.During e ds := by
  cases o with
  | none => exact raise_during typeError
  | some a => exact ret_during a

theorem attemptDelivery_during (cfg : Config) {loaded : LoadedDelivery}
    (hd : loaded.delivery.id ∈ ds) :
    Ensures script (w₀.During e ds) (attemptDelivery cfg loaded) fun _ => w₀.During e ds := by
  refine Ensures.bind _ (relation_during _) (fun outboxEvent => ?_) fun _ _ hw => hw
  refine Ensures.bind _ (relation_during _) (fun subscription => ?_) fun _ _ hw => hw
  refine Ensures.bind (fun _ => w₀.During e ds)
    (await_during (c := .fetch _ _) (fun _ _ => trivial) (by simp)) (fun status => ?_)
    fun _ _ hw => hw
  refine Ensures.bind (fun _ => w₀.During e ds)
    (await_during (c := .responseText _) (fun _ _ => trivial) (by simp)) (fun responseBody => ?_)
    fun _ _ hw => hw
  split_ifs
  · exact raise_during _
  · exact Ensures.bind _ dateNow_during
      (fun now => await_during (fun w hw => hw.owns _ hd) (by simp)) fun _ _ hw => hw

theorem recordFailedAttempt_during (cfg : Config) {delivery : WebhookDeliveryEntity}
    (hd : delivery.id ∈ ds) (error : Exception) :
    Ensures script (w₀.During e ds) (recordFailedAttempt cfg delivery error)
      fun _ => w₀.During e ds := by
  have hdate : Ensures script (w₀.During e ds) (nextRetryAt cfg (delivery.attemptCount + 1))
      fun _ => w₀.During e ds := by
    unfold nextRetryAt
    split_ifs
    · exact Ensures.bind _ dateNow_during (fun _ => ret_during _) fun _ _ hw => hw
    · exact ret_during _
  refine Ensures.bind _ hdate (fun date => ?_) fun _ _ hw => hw
  refine Ensures.bind _ dateNow_during (fun now => ?_) fun _ _ hw => hw
  refine Ensures.bind (fun _ => w₀.During e ds)
    (await_during (fun w hw => hw.owns _ hd) (by simp)) (fun _ => ?_) fun _ _ hw => hw
  unfold enqueueRetry
  split
  · exact Ensures.bind _ dateNow_during
      (fun now => await_during (fun w hw => hw.owns _ hd) (by simp)) fun _ _ hw => hw
  · exact ret_during _

/-- A delivery of an event that is not terminal is attempted. -/
theorem processPending_after (cfg : Config) (loaded : LoadedDelivery) :
    Ensures script (w₀.During loaded.delivery.outboxEventId [loaded.delivery.id])
      (processPending cfg loaded) fun _ => w₀.After loaded.delivery.outboxEventId := by
  have hd := List.mem_singleton_self loaded.delivery.id
  refine Ensures.bind (fun _ => w₀.During loaded.delivery.outboxEventId [loaded.delivery.id]) ?_
    (fun _ => updateOutboxStatus_after) fun _ _ hw => hw.after
  exact Prog.Triple.tryCatch _ (attemptDelivery_during cfg hd) (fun _ _ hs => hs)
    fun error => recordFailedAttempt_during cfg hd error

/-- **A job for a delivery whose event is terminal only if it is not PENDING itself.** -/
theorem processDelivery_spares (cfg : Config) {d : Uuid} (hw : w₀.Settled)
    (hd : ∀ r ∈ w₀.deliveries.find? d, r.status = .pending → ¬ w₀.Terminal r.outboxEventId) :
    Ensures script (fun w => w = w₀) (processDelivery cfg d) fun _ => w₀.Spares := by
  have hstart (w : World) (h : w = w₀) : w₀.Spares w := by
    subst h
    exact .refl hw
  refine Ensures.bind _ (await_finds (c := .findDelivery d) (fun _ _ => rfl) fun _ => rfl)
    (fun found => Ensures.of_fact fun hfound => ?_) fun _ w h => hstart w h.1
  have hsame : Ensures script (fun w => w = w₀) (.ret () : Service Unit) fun _ => w₀.Spares :=
    Prog.Triple.ret fun s hs => hstart s.1 hs
  cases found with
  | none => exact hsame
  | some loaded =>
      obtain ⟨r, hr, hloaded⟩ := Option.map_eq_some_iff.1 (hfound _ rfl).symm
      obtain rfl : loaded.delivery = r := by rw [← hloaded]
      dsimp only
      split_ifs with hs
      · exact hsame
      · have he := hd _ hr (WebhookDeliveryStatus.eq_pending hs)
        have howns : w₀.Owns loaded.delivery.outboxEventId loaded.delivery.id := by
          intro r' hr'
          have hfind := Table.find?_key (Table.find?_eq_some hr).1
          obtain rfl := Option.some.inj (hfind.symm.trans hr')
          rfl
        refine (processPending_after cfg loaded).mono (fun s hs => ?_) fun _ _ hs => hs.spares he hw
        rw [hs]
        exact .start he (by simpa using howns)

theorem runJob_spares (cfg : Config) {job : JobId} (hw : w₀.Settled)
    (hd : ∀ r ∈ w₀.deliveries.find? job.deliveryId,
      r.status = .pending → ¬ w₀.Terminal r.outboxEventId) :
    Ensures script (fun w => w = w₀) (runJob cfg job) fun _ => w₀.Spares := by
  refine Prog.Triple.tryCatch (fun _ s => w₀.Spares s.1) ?_ (fun _ _ hs => hs)
    fun _ => await_spares rfl
  exact Ensures.bind _ (processDelivery_spares cfg hw hd) (fun _ => await_spares rfl)
    fun _ _ hw => hw

/-! #### A dispatch -/

/-- The PENDING deliveries are enqueued; where there is none the status is computed. -/
theorem enqueuePending_after {deliveries : List WebhookDeliveryEntity}
    (hds : ∀ delivery ∈ deliveries, delivery.id ∈ ds) :
    Ensures script (w₀.During e ds) (enqueuePending e deliveries) fun _ => w₀.After e := by
  unfold enqueuePending
  split
  · exact updateOutboxStatus_after
  · rename_i d rest hpending
    have hall : Ensures script (w₀.During e ds) (Prog.promiseAll ((d :: rest).map fun delivery =>
        enqueueDelivery delivery.id 0 (delivery.attemptCount + 1))) fun _ => w₀.During e ds := by
      refine Prog.Triple.promiseAll fun p hp => ?_
      obtain ⟨delivery, hdelivery, rfl⟩ := List.mem_map.1 hp
      have hmem : delivery ∈ deliveries := by
        rw [← hpending] at hdelivery
        exact (List.mem_filter.1 hdelivery).1
      exact await_during (fun w hw => hw.owns _ (hds delivery hmem)) (by simp)
    exact hall.mono (fun _ hs => hs) fun _ _ hs => hs.after

/-- The deliveries that are created are deliveries of the event. -/
theorem createMissing_during (missing : List WebhookSubscriptionEntity) :
    Ensures script (w₀.During e ds) (createMissing e missing) fun r w =>
      w₀.During e ds w ∧ ∀ new, r = .ok new → ∀ delivery ∈ new, w.Owns e delivery.id := by
  cases missing with
  | nil =>
      refine Prog.Triple.ret fun _ hs => ⟨hs, fun new hnew => ?_⟩
      obtain rfl := Except.ok.inj hnew
      exact fun delivery h => absurd h List.not_mem_nil
  | cons s missing =>
      refine Ensures.bind _ dateNow_during (fun now => ?_)
        fun _ _ hw => ⟨hw, fun _ h => absurd h (by simp)⟩
      refine Prog.Triple.await fun σ hs _ => ⟨hs.exec (fun d hd => ?_) (by simp), ?_⟩
      · obtain ⟨subscription, -, rfl⟩ := List.mem_map.1 hd
        rfl
      · intro new hnew delivery hdelivery r hr
        obtain rfl := Option.some.inj ((find?_saved hnew hdelivery).symm.trans hr)
        obtain ⟨deliveries, hsave, -⟩ := exec_saveDeliveries hnew
        obtain ⟨d, hd, id, rfl⟩ := (saveDeliveries_eq_some hsave).2.2 _ hdelivery
        obtain ⟨subscription, -, rfl⟩ := List.mem_map.1 hd
        rfl

/-- **A dispatch of an event that is not terminal.** -/
theorem dispatchOutboxEvent_after (he : ¬ w₀.Terminal e) :
    Ensures script (fun w => w = w₀) (dispatchOutboxEvent e) fun _ => w₀.After e := by
  have hduring {ds : List Uuid} (hds : ∀ d ∈ ds, w₀.Owns e d) (w : World) (hw : w = w₀) :
      w₀.During e ds w := by
    subst hw
    exact .start he hds
  have hbegin (w : World) (hw : w = w₀) : w₀.During e [] w :=
    hduring (fun _ h => absurd h List.not_mem_nil) w hw
  have hstart (w : World) (hw : w = w₀) : w₀.After e w := (hbegin w hw).after
  refine Ensures.bind _ (await_finds (c := .findEvent e) (fun _ _ => rfl) fun _ => rfl)
    (fun found => Ensures.of_fact fun hfound => ?_) fun _ w hw => hstart w hw.1
  cases found with
  | none => exact Prog.Triple.ret fun _ hs => hstart _ hs
  | some event =>
      obtain rfl : event.id = e := (Table.find?_eq_some (hfound _ rfl).symm).2
      refine Ensures.bind _ (await_finds (c := .findSubscriptions event.eventType)
        (fun _ _ => rfl) fun _ => rfl)
        (fun subscriptions => Ensures.of_fact fun _ => ?_) fun _ w hw => hstart w hw.1
      refine Ensures.bind _
        (await_finds (c := .findDeliveries event.id) (fun _ _ => rfl) fun _ => rfl)
        (fun existing => Ensures.of_fact fun hexisting => ?_) fun _ w hw => hstart w hw.1
      obtain rfl : existing = w₀.deliveriesOf event.id := hexisting _ rfl
      split_ifs with hnone
      · have hnot : ¬ w₀.Awaits event.id := not_awaits (by simp [hnone.2])
        refine markPublished_after.mono (fun s hs => ⟨hbegin s.1 hs, ?_⟩) fun _ _ hs => hs
        rw [hs]
        exact hnot
      · have howns : ∀ d ∈ (w₀.deliveriesOf event.id).map WebhookDeliveryEntity.id,
            w₀.Owns event.id d := by
          intro d hd r hr
          obtain ⟨delivery, hdelivery, rfl⟩ := List.mem_map.1 hd
          obtain ⟨hmem, hevent⟩ := List.mem_filter.1 hdelivery
          obtain rfl := Option.some.inj ((Table.find?_key hmem).symm.trans hr)
          exact of_decide_eq_true hevent
        refine Ensures.bind (fun r w =>
          w₀.During event.id ((w₀.deliveriesOf event.id).map WebhookDeliveryEntity.id) w ∧
            ∀ new, r = .ok new → ∀ delivery ∈ new, w.Owns event.id delivery.id)
          ((createMissing_during _).mono (fun s hs => hduring howns s.1 hs) fun _ _ hs => hs)
          (fun new => ?_) fun _ _ hw => hw.1.after
        refine (enqueuePending_after fun delivery => List.mem_map_of_mem).mono
          (fun s hs => ⟨hs.1.beside, hs.1.undecided, fun d hd => ?_⟩) fun _ _ hs => hs
        rw [List.map_append, List.mem_append] at hd
        rcases hd with hd | hd
        · exact hs.1.owns d hd
        · obtain ⟨delivery, hdelivery, rfl⟩ := List.mem_map.1 hd
          exact hs.2 new rfl delivery hdelivery

end Calls

/-! ### Runs -/

section Runs

variable {cfg : Config} {w : World} {q : Polling} {c : ServiceCall} {service : ℕ}

/-- The events a poll reads are not terminal. -/
theorem getProcessableEvents_selected (script : Script) (limit : ℕ) (staleBefore : Time) (w : World)
    {events : List OutboxEventEntity}
    (h : (servicesScripted script (.getProcessableEvents limit staleBefore) (w, 0)).1 =
      .ok events) :
    ∀ event ∈ events, ¬ Concluded event.status := by
  have heval : servicesScripted script (.getProcessableEvents limit staleBefore) (w, 0) =
      scripted script (.findProcessable limit (script 0).now staleBefore) (w, 1) :=
    Prog.eval_await _ _ _
  have hexec : (exec (script 1) (.findProcessable limit (script 0).now staleBefore) w).1 =
      .ok events := (congrArg Prod.fst heval).symm.trans h
  rw [exec_of_ok hexec] at hexec
  obtain rfl := Except.ok.inj hexec
  intro event hevent
  have hmem := List.mem_of_mem_take hevent
  rw [List.mem_insertionSort] at hmem
  have hprocessable := (List.mem_filter.1 hmem).2
  rintro (hs | hs) <;> simp [processable, hs] at hprocessable

theorem Polling.events_batch (events : List OutboxEventEntity) :
    (Polling.batch events).events = events := by
  cases events <;> rfl

theorem Polling.events_failed (event : OutboxEventEntity) (events : List OutboxEventEntity) :
    (Polling.failed cfg event events).events = event :: events := by
  unfold Polling.failed
  split_ifs <;> rfl

/-- **A poll has read events that were not terminal**, and no others. -/
theorem Polling.Selected.next (h : q.Selected) (hc : q.Allows cfg service c) (script : Script)
    (w : World) : (q.next cfg c (servicesScripted script c (w, 0)).1).Selected := by
  have hnone {q' : Polling} (hq' : q'.events = []) : q'.Selected := by
    intro event hevent
    rw [hq'] at hevent
    exact absurd hevent List.not_mem_nil
  have hall {q' : Polling} (hq' : q'.events = q.events) : q'.Selected := by
    unfold Polling.Selected
    rw [hq']
    exact h
  have hrest {q' : Polling} {event : OutboxEventEntity} {events : List OutboxEventEntity}
      (hq : q.events = event :: events) (hq' : q'.events = events) : q'.Selected := by
    intro event' hevent'
    refine h event' ?_
    rw [hq]
    exact List.mem_cons_of_mem _ (hq' ▸ hevent')
  cases hc with
  | enter =>
      refine hnone ?_
      cases (servicesScripted script (.enterPoll service) (w, 0)).1 with
      | ok entered => cases entered <;> rfl
      | error _ => rfl
  | time => refine hnone ?_; cases (servicesScripted script .dateNow (w, 0)).1 <;> rfl
  | select staleBefore =>
      cases hr : (servicesScripted script
        (.getProcessableEvents cfg.outboxBatchSize staleBefore) (w, 0)).1 with
      | ok events =>
          intro event hevent
          have hmem : event ∈ (Polling.batch events).events := hevent
          rw [Polling.events_batch] at hmem
          exact getProcessableEvents_selected script _ _ w hr event hmem
      | error _ => exact hnone rfl
  | mark event events =>
      refine hall ?_
      cases (servicesScripted script (.markProcessing event.id) (w, 0)).1 with
      | ok _ => rfl
      | error _ => exact Polling.events_failed event events
  | dispatch event events =>
      cases (servicesScripted script (.dispatchOutboxEvent event.id) (w, 0)).1 with
      | ok _ => exact hrest rfl (Polling.events_batch events)
      | error _ => exact hall (Polling.events_failed event events)
  | date event events =>
      cases (servicesScripted script .dateNow (w, 0)).1 with
      | ok _ => exact hall rfl
      | error _ => exact hnone rfl
  | record event nextRetryAt events =>
      cases (servicesScripted script
        (.markFailed event.id (event.retryCount + 1) nextRetryAt) (w, 0)).1 with
      | ok _ => exact hrest rfl (Polling.events_batch events)
      | error _ => exact hnone rfl
  | leave => refine hnone ?_; cases (servicesScripted script (.leavePoll service) (w, 0)).1 <;> rfl

/-- **What is still as it was read is not terminal**, nor is what the poll has marked. -/
theorem Polling.Selected.undecided {event : OutboxEventEntity} (hq : q.Selected)
    (hevent : event ∈ q.events)
    (h : w.statusOf event.id = some event.status ∨ w.statusOf event.id = some .processing) :
    ¬ w.Terminal event.id := by
  rcases h with h | h
  · exact not_terminal_of_statusOf h (hq event hevent)
  · exact not_terminal_of_statusOf h (by decide)

/-- **A call of a poll that writes what is current.** -/
theorem perform_spares (script : Script) (hc : q.Allows cfg service c) (hq : q.Selected)
    (hcurrent : q.Current w) (hgives : ∀ e ∈ q.givesUp, ¬ w.Awaits e) (hw : w.Settled) :
    w.Spares (servicesScripted script c (w, 0)).2.1 := by
  have hstart : w.Spares w := .refl hw
  have hwrites {e : Uuid} {p : EventPatch} (he : ¬ w.Terminal e)
      (hp : Concluded p.status → ¬ w.Awaits e) :
      w.Spares ((updateEvent e p).eval (scripted script) (w, 0)).2.1 :=
    (updateEvent_after.eval ⟨World.During.begin he, hp⟩).spares he hw
  cases hc with
  | enter => exact (await_spares (c := .enterPoll service) rfl).eval hstart
  | leave => exact (await_spares (c := .leavePoll service) rfl).eval hstart
  | time => exact (await_spares (c := .dateNow) rfl).eval hstart
  | date event events => exact (await_spares (c := .dateNow) rfl).eval hstart
  | select staleBefore =>
      exact Ensures.eval (Ensures.bind (fun _ => w.Spares) (await_spares (c := .dateNow) rfl)
        (fun now => await_spares rfl) fun _ _ hw => hw) hstart
  | mark event events =>
      have he := hq.undecided (List.mem_cons_self ..) (Or.inl hcurrent)
      exact hwrites he fun h => absurd h (by decide)
  | dispatch event events =>
      have he := hq.undecided (List.mem_cons_self ..) (Or.inr hcurrent)
      exact ((dispatchOutboxEvent_after he).eval rfl).spares he hw
  | record event nextRetryAt events =>
      refine hwrites (hq.undecided (List.mem_cons_self ..) hcurrent) fun h => ?_
      cases nextRetryAt with
      | none => exact hgives event.id rfl
      | some date => exact absurd h (by simp [failedPatch, Concluded])

/-- **A worker runs a job that waits**, so if its delivery is PENDING, the event of it is
not terminal. -/
theorem work_spares (script : Script) (job : JobId) (now : Time) (hw : w.Settled) :
    w.Spares (perform cfg w (.work job now, script)) := by
  unfold perform
  cases hspawn : (system cfg).spawn (.work job now) w with
  | none => exact .refl hw
  | some w' =>
      obtain ⟨queue, hqueue, rfl⟩ := Option.map_eq_some_iff.1 hspawn
      obtain ⟨⟨waiting, hwaiting, rfl, hready⟩, hlive⟩ := JobQueue.live_start? hqueue
      have hactive : waiting.state ≠ .active := by
        intro h
        rw [h] at hready
        exact hready
      have hsettled : World.Settled { w with queue } := by
        intro e hawaits
        have hdeliveries : World.deliveries { w with queue } = w.deliveries := rfl
        refine hw e (awaits_of_same hdeliveries (fun job hjob hstate => ?_) hawaits)
        obtain ⟨before, hbefore, rfl⟩ := List.mem_map.1 (hlive ▸ hjob)
        split_ifs at hstate ⊢
        · exact absurd rfl hstate
        · exact hbefore
      have hpending (r : WebhookDeliveryEntity) (hr : r ∈ w.deliveries.find? waiting.id.deliveryId)
          (hs : r.status = .pending) : ¬ World.Terminal { w with queue } r.outboxEventId :=
        hw _ ⟨waiting, hwaiting, hactive, r, hr, hs, rfl⟩
      have hrun : World.Spares { w with queue }
          ((runJob cfg waiting.id).eval (scripted script) ({ w with queue }, 0)).2.1 :=
        (runJob_spares cfg hsettled hpending).eval rfl
      exact ⟨hrun.keeps, hrun.settled⟩

/-- Every poll follows its protocol. -/
theorem pollers_follows (cfg : Config) (t : Start) :
    ((pollers cfg).body t).Follows ((pollers cfg).protocol t) (fun _ _ => True)
      ((pollers cfg).entry t) := by
  cases t with
  | poll service => exact poll_follows
  | work job now script => trivial

/-- **Terminal events are spared** along every run that keeps abreast of them. -/
theorem spares_run (cfg : Config) {P : Pollers} {labels : List (Label Start Script)}
    (h : P.Along (pollers cfg) Abreast labels)
    (htracked : P.Tracked (pollers cfg) fun _ _ _ => True) (hw : P.world.Settled)
    (hselected : ∀ x ∈ P.stages, x.2.Selected) :
    (P.run (pollers cfg) labels).Tracked (pollers cfg) (fun _ _ _ => True) ∧
      P.world.Spares (P.run (pollers cfg) labels).world ∧
      ∀ x ∈ (P.run (pollers cfg) labels).stages, x.2.Selected := by
  let J := fun (w : World) (ts : List (Start × Polling)) =>
    P.world.Spares w ∧ ∀ x ∈ ts, x.2.Selected
  refine Pool.invariant (J := J) (pollers_follows cfg) ?_ ?_ h htracked ⟨.refl hw, hselected⟩
  · rintro P' t w ⟨hspares, hselected'⟩ - hspawn
    constructor
    · cases t with
      | poll service =>
          obtain rfl := Option.some.inj hspawn
          exact hspares
      | work job now script =>
          obtain rfl := Option.some.inj hspawn
          exact hspares.trans (work_spares script job now hspares.settled)
    · intro x hx
      rcases List.mem_append.1 hx with hx | hx
      · exact hselected' x hx
      · obtain rfl := List.mem_singleton.1 hx
        cases t <;> exact fun event hevent => absurd hevent List.not_mem_nil
  · rintro P' i t q c script ⟨hspares, hselected'⟩ hok hi - hallows
    cases t with
    | work job now script => exact hallows.elim
    | poll service =>
        obtain ⟨th, hth, e⟩ := Option.map_eq_some_iff.1 ((List.getElem?_map ..).symm.trans hi)
        obtain ⟨-, rfl⟩ := Prod.mk.inj e
        obtain ⟨hcurrent, hgives⟩ := hok th hth
        have hq := hselected' _ (List.mem_of_getElem? hi)
        constructor
        · exact hspares.trans (perform_spares script hallows hq hcurrent hgives hspares.settled)
        · intro x hx
          rcases List.mem_or_eq_of_mem_set hx with hx | rfl
          · exact hselected' x hx
          · exact hq.next hallows script P'.world

/-- **A terminal event stays terminal.**  In every run of polls, each call of them on
another service a step of its own, and of jobs, with any failures: if each event a poll
writes is still as it has read or marked it, and a poll gives an event up only while no
job waits for a PENDING delivery of it, an event that is PUBLISHED or FAILED after some
steps of the run has the same status after all of them. -/
theorem terminal_absorbing (cfg : Config) (w : World) (hw : w.Settled)
    (labels labels' : List (Label Start Script))
    (h : Pool.Along (pollers cfg) Abreast (.start w) (labels ++ labels')) :
    (Pool.run (pollers cfg) (.start w) labels).world.Keeps
      (Pool.run (pollers cfg) (.start w) (labels ++ labels')).world := by
  obtain ⟨h₁, h₂⟩ := Pool.along_append.1 h
  obtain ⟨htracked, hspares, hselected⟩ := spares_run cfg h₁ (Pool.tracked_start _ _) hw
    fun x hx => absurd hx List.not_mem_nil
  rw [Pool.run_append]
  exact (spares_run cfg h₂ htracked hspares.settled hselected).2.1.keeps

end Runs

/-! ### An event that is stale while its delivery is made -/

/-- Every call is made after a while and meets no fault; the receiver answers 200. -/
def lateScript : Script := fun _ => { answering 200 with now := 100000 }

/-- The poll makes its next `n` calls. -/
def polling (n : ℕ) : List (Label Start Script) := List.replicate n (.step 0 lateScript)

/-- A poll reads the events, the sample event among them. -/
def batchRead : List (Label Start Script) := .spawn (.poll 0) :: polling 3

/-- A worker delivers the event. -/
def delivered : Label Start Script := .spawn (.work ⟨sampleDelivery.id, 1⟩ 0 lateScript)

/-- A second event, which no one has subscribed to. -/
def secondEvent : OutboxEventEntity :=
  { sampleEvent with id := .ofText (js "f"), eventType := js "other", status := .pending }

theorem twoEvents_nodup : ([sampleEvent, secondEvent].map Keyed.key).Nodup := by decide

def twoEvents : World := { sampleWorld with outboxEvents := ⟨_, twoEvents_nodup⟩ }

/-- The poll has dispatched the first event when the worker delivers it; then the poll
marks the second one, dispatches it and ends. -/
theorem terminal_absorbing_published :
    (Pool.run (pollers sampleConfig) (.start twoEvents)
      (batchRead ++ polling 2 ++ [delivered] ++ polling 3)).world.statusOf sampleEvent.id =
        some .published := by
  have hbefore : (Pool.run (pollers sampleConfig) (.start twoEvents)
      (batchRead ++ polling 2 ++ [delivered])).world.statusOf sampleEvent.id =
        some .published := by decide
  have hkeeps := terminal_absorbing sampleConfig twoEvents (by decide)
    (batchRead ++ polling 2 ++ [delivered]) (polling 3) (by decide)
  exact (hkeeps sampleEvent.id ⟨_, hbefore, by decide⟩).trans hbefore

/-- The worker publishes the event; then the poll marks it. -/
theorem published_moves :
    (Pool.run (pollers sampleConfig) (.start sampleWorld)
        (batchRead ++ [delivered])).world.statusOf sampleEvent.id = some .published ∧
      (Pool.run (pollers sampleConfig) (.start sampleWorld)
        (batchRead ++ [delivered] ++ polling 1)).world.statusOf sampleEvent.id =
          some .processing ∧
      ¬ (Pool.run (pollers sampleConfig) (.start sampleWorld)
          (batchRead ++ [delivered])).world.Keeps
        (Pool.run (pollers sampleConfig) (.start sampleWorld)
          (batchRead ++ [delivered] ++ polling 1)).world := by
  have hbefore : (Pool.run (pollers sampleConfig) (.start sampleWorld)
      (batchRead ++ [delivered])).world.statusOf sampleEvent.id = some .published := by decide
  have hafter : (Pool.run (pollers sampleConfig) (.start sampleWorld)
      (batchRead ++ [delivered] ++ polling 1)).world.statusOf sampleEvent.id =
        some .processing := by decide
  refine ⟨hbefore, hafter, fun h => ?_⟩
  have hsame := h sampleEvent.id ⟨_, hbefore, by decide⟩
  rw [hbefore, hafter] at hsame
  exact absurd hsame (by decide)

end Webhooks
end LedgerEngine
