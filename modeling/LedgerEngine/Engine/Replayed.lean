/-
# One key, one answer

As long as no attempt under a key has been recorded as FAILED, everybody who is answered
under it is answered the same, however many ask at once and whatever calls are refused or
lose their answer (`answers_agree`).  One request at a time holds the record of the key,
between the insert that makes it PROCESSING and the save that completes it (`Single`), and
who does not hold it can only read what that save has left.

A FAILED record may be claimed again by several requests at once, so nothing more holds.
-/

import LedgerEngine.Engine.Results

namespace LedgerEngine
namespace Engine

open Idempotency (IdempotencyRecordEntity completed replayable)

/-- The request is made with this key. -/
def Uses (key : JsString × JsString) (r : HttpRequest) : Prop :=
  (r.endpoint.path, r.idempotencyKey) = (key.1, some key.2)

/-- The record of a key. -/
def World.recordOf (w : World) (key : JsString × JsString) : Option IdempotencyRecordEntity :=
  w.idempotency.records.lookup key

/-- The record of the key is not FAILED. -/
def Unfailed (key : JsString × JsString) (w : World) : Prop :=
  ∀ record, w.recordOf key = some record → record.status ≠ .failed

namespace RequestStage

/-- The request holds the record of its key. -/
def Holds : RequestStage → Prop
  | .claimed | .operating _ | .completing _ _ => True
  | _ => False

/-- What the record of its key is like while a request is at a stage. -/
def Sees (found : Option IdempotencyRecordEntity) : RequestStage → Prop
  | .reclaiming _ => False
  | .claimed | .operating _ | .completing _ _ =>
      ∃ record, found = some record ∧ record.status = .processing
  | .answered body =>
      ∃ record, found = some record ∧ record.status = .completed ∧ body.Same record.responseBody
  | _ => True

/-- Who sees no record may see any. -/
theorem Sees.of_none {q : RequestStage} (h : q.Sees none)
    (found : Option IdempotencyRecordEntity) : q.Sees found ∧ ¬ q.Holds := by
  cases q with
  | entering => exact ⟨trivial, id⟩
  | inserting => exact ⟨trivial, id⟩
  | racing => exact ⟨trivial, id⟩
  | failing id => exact ⟨trivial, fun h => h⟩
  | settled => exact ⟨trivial, id⟩
  | reclaiming id => exact h.elim
  | answered body =>
      obtain ⟨_, h, -⟩ := h
      cases h
  | _ =>
      obtain ⟨_, h, -⟩ := h
      cases h

/-- Who does not hold the record while it is PROCESSING may see any. -/
theorem Sees.of_processing {q : RequestStage} {record : IdempotencyRecordEntity}
    (h : q.Sees (some record)) (hrecord : record.status = .processing) (hq : ¬ q.Holds)
    (found : Option IdempotencyRecordEntity) : q.Sees found := by
  cases q with
  | entering => trivial
  | inserting => trivial
  | racing => trivial
  | failing id => trivial
  | settled => trivial
  | reclaiming id => exact h.elim
  | answered body =>
      obtain ⟨_, he, hcompleted, -⟩ := h
      obtain rfl := Option.some.inj he
      rw [hrecord] at hcompleted
      cases hcompleted
  | _ => exact absurd trivial hq

theorem not_holds_caught (id : Uuid) (e : Exception) : ¬ (RequestStage.caught id e).Holds := by
  unfold RequestStage.caught
  cases Idempotency.normalizeError e <;> exact fun h => h

theorem sees_caught (id : Uuid) (e : Exception) (found : Option IdempotencyRecordEntity) :
    (RequestStage.caught id e).Sees found := by
  unfold RequestStage.caught
  cases Idempotency.normalizeError e <;> trivial

end RequestStage

/-! ### Who holds the record -/

/-- The thread holds the record of the key. -/
def Holding (key : JsString × JsString) (stages : List (Task × Stage)) (i : ℕ) : Prop :=
  ∃ r q, stages[i]? = some (.request r, .request q) ∧ Uses key r ∧ q.Holds

/-- **The invariant**: one request at most holds the record of the key, and all see it as
their stage says. -/
structure Single (key : JsString × JsString) (w : World) (stages : List (Task × Stage)) :
    Prop where
  sees : ∀ (i : ℕ) (r : HttpRequest) (q : RequestStage),
    stages[i]? = some (.request r, .request q) → Uses key r → q.Sees (w.recordOf key)
  one : ∀ i i', Holding key stages i → Holding key stages i' → i = i'

section Single

variable {env : Env} {key : JsString × JsString} {w w' : World} {stages : List (Task × Stage)}
  {i : ℕ} {id : Uuid} {task : Task} {r : HttpRequest} {s s' : Stage}

/-- A step of one thread, after which the others see what they see. -/
theorem Single.step (h : Single key w stages) (hi : stages[i]? = some (task, s))
    (hothers : ∀ (i' : ℕ) (r : HttpRequest) (q : RequestStage), i' ≠ i →
      stages[i']? = some (.request r, .request q) → Uses key r → q.Sees (w'.recordOf key))
    (hown : ∀ (r : HttpRequest) (q : RequestStage), (task, s') = (.request r, .request q) →
      Uses key r → q.Sees (w'.recordOf key) ∧
        (q.Holds → Holding key stages i ∨ ∀ i', ¬ Holding key stages i')) :
    Single key w' (stages.set i (task, s')) := by
  have hlt : i < stages.length := (List.getElem?_eq_some_iff.1 hi).1
  have hself : (stages.set i (task, s'))[i]? = some (task, s') := by
    rw [List.getElem?_set, if_pos rfl, if_pos hlt]
  have hother : ∀ i', i' ≠ i → (stages.set i (task, s'))[i']? = stages[i']? := fun i' hne => by
    rw [List.getElem?_set, if_neg hne.symm]
  have hholding : ∀ i', Holding key (stages.set i (task, s')) i' →
      Holding key stages i' ∨ i' = i ∧ ∀ i', ¬ Holding key stages i' := by
    rintro i' ⟨r, q₁, hstage, huses, hholds⟩
    by_cases he : i' = i
    · subst he
      rw [hself] at hstage
      exact ((hown r q₁ (Option.some.inj hstage) huses).2 hholds).imp_right fun h => ⟨rfl, h⟩
    · rw [hother i' he] at hstage
      exact Or.inl ⟨r, q₁, hstage, huses, hholds⟩
  refine ⟨fun i' r q₁ hstage huses => ?_, fun i₁ i₂ h₁ h₂ => ?_⟩
  · by_cases he : i' = i
    · subst he
      rw [hself] at hstage
      exact (hown r q₁ (Option.some.inj hstage) huses).1
    · rw [hother i' he] at hstage
      exact hothers i' r q₁ he hstage huses
  · rcases hholding i₁ h₁ with h₁ | ⟨rfl, hnone⟩
    · rcases hholding i₂ h₂ with h₂ | ⟨-, hnone⟩
      · exact h.one i₁ i₂ h₁ h₂
      · exact absurd h₁ (hnone i₁)
    · rcases hholding i₂ h₂ with h₂ | ⟨rfl, -⟩
      · exact absurd h₂ (hnone i₂)
      · rfl

/-- A step that leaves the record of the key alone. -/
theorem Single.same (h : Single key w stages) (hi : stages[i]? = some (task, s))
    (hrecord : w'.recordOf key = w.recordOf key)
    (hown : ∀ (r : HttpRequest) (q : RequestStage), (task, s') = (.request r, .request q) →
      Uses key r → q.Sees (w.recordOf key) ∧ (q.Holds → Holding key stages i)) :
    Single key w' (stages.set i (task, s')) := by
  refine h.step hi (fun i' r' q₁ _ hstage huses => ?_) fun r q₁ he huses => ?_
  · rw [hrecord]
    exact h.sees i' r' q₁ hstage huses
  · rw [hrecord]
    exact (hown r q₁ he huses).imp_right fun hheld hholds => Or.inl (hheld hholds)

/-- An update of the record of another key. -/
theorem recordOf_update {column : Jsonb} {now : Time} {p : Idempotency.Patch}
    {record : IdempotencyRecordEntity} (hrecord : w.idempotency.records.find? id = some record)
    (hkey : (record.endpoint, record.idempotencyKey) ≠ key) :
    (w.idempotency.records.update id (p.change column now)).lookup key = w.recordOf key := by
  obtain ⟨hmem, hid⟩ := Table.find?_eq_some hrecord
  rw [IndexedTable.lookup_update]
  refine (Option.map_congr fun other hother => ?_).trans Option.map_id_apply
  obtain ⟨hmem', hindex⟩ := IndexedTable.lookup_eq_some hother
  refine IndexedTable.changed_of_ne (fun he => hkey ?_) _
  have hsame : other = record := Table.eq_of_key_eq hmem' hmem (he.trans hid.symm)
  rw [← hindex, hsame]
  rfl

/-- An update of the record of the key. -/
theorem recordOf_update_self {column : Jsonb} {now : Time} {p : Idempotency.Patch}
    {record : IdempotencyRecordEntity} (hrecord : w.recordOf key = some record)
    (hid : record.id = id) :
    (w.idempotency.records.update id (p.change column now)).lookup key =
      some (p.apply column now record) := by
  subst hid
  exact IndexedTable.lookup_update_self hrecord _

theorem Uses.of_index {endpoint k : JsString}
    (h : (endpoint, k) = (r.endpoint.path, r.idempotencyKey.getD [])) (huses : Uses key r) :
    (endpoint, k) = key := by
  obtain ⟨hpath, hkey⟩ := Prod.mk.inj huses
  rw [h, hpath, hkey]
  rfl

theorem Owns.recordOf (h : Owns env r w id) (huses : Uses key r) :
    ∃ record, w.recordOf key = some record ∧ record.id = id := by
  obtain ⟨record, hrecord, hindex, -⟩ := h
  obtain ⟨hmem, hid⟩ := Table.find?_eq_some hrecord
  have he := hindex.trans huses
  obtain ⟨hendpoint, hk⟩ := Prod.mk.inj he
  have hindex : Indexed.index record = key := Prod.ext hendpoint (Option.some.inj hk)
  have hlookup : (w.idempotency.records.lookup key).isSome := by
    by_contra hnone
    rw [Option.not_isSome_iff_eq_none, IndexedTable.lookup_eq_none] at hnone
    exact hnone (hindex ▸ List.mem_map_of_mem hmem)
  obtain ⟨other, hother⟩ := Option.isSome_iff_exists.1 hlookup
  obtain ⟨hmem', hindex'⟩ := IndexedTable.lookup_eq_some hother
  obtain rfl := IndexedTable.eq_of_index_eq hmem' hmem (hindex'.trans hindex.symm)
  exact ⟨other, hother, hid⟩

theorem Owns.find?_ne (h : Owns env r w id) (huses : ¬ Uses key r) :
    ∃ record, w.idempotency.records.find? id = some record ∧
      (record.endpoint, record.idempotencyKey) ≠ key := by
  obtain ⟨record, hrecord, hindex, -⟩ := h
  refine ⟨record, hrecord, fun he => huses ?_⟩
  obtain ⟨hendpoint, hk⟩ := Prod.mk.inj hindex
  obtain ⟨he₁, he₂⟩ := Prod.mk.inj he
  exact Prod.ext (hendpoint.symm.trans he₁) (hk.symm.trans (congrArg some he₂))

/-- A record that is neither PROCESSING nor FAILED is replayed. -/
theorem replayable_of {record : IdempotencyRecordEntity} (hj : Justified env w record)
    (hprocessing : record.status ≠ .processing) (hfailed : record.status ≠ .failed) :
    record.status = .completed ∧ replayable record = true := by
  have hcompleted : record.status = .completed := by
    cases h : record.status with
    | processing => exact absurd h hprocessing
    | completed => rfl
    | failed => exact absurd h hfailed
  obtain ⟨result, ⟨_, -, -, -, request, -, hperformed⟩, -, hbody, -⟩ := hj hcompleted
  refine ⟨hcompleted, ?_⟩
  unfold replayable
  rw [hcompleted, hbody, Jsonb.truthy_store, Bool.and_eq_true]
  refine ⟨rfl, Json.truthy_of_isObject ?_⟩
  cases hperformed <;> rfl

/-! ### One call -/

/-- A lookup by who may hold nothing after it. -/
theorem Single.looked (h : Single key w stages)
    (hi : stages[i]? = some (.request r, s))
    (hrecord : w'.recordOf key = w.recordOf key) {q : RequestStage}
    (hsees : Uses key r → q.Sees (w.recordOf key)) (hholds : ¬ q.Holds) :
    Single key w' (stages.set i (.request r, .request q)) := by
  refine h.same hi hrecord fun r' q' he huses => ?_
  obtain ⟨htask, hstage⟩ := Prod.mk.inj he
  obtain rfl := Task.request.inj htask
  obtain rfl := Stage.request.inj hstage
  exact ⟨hsees huses, fun h => absurd h hholds⟩

/-- **The record of the key is inserted**: nobody has held it. -/
theorem Single.inserted (h : Single key w stages) (hi : stages[i]? = some (.request r, s))
    (hnone : w.recordOf key = none) {record : IdempotencyRecordEntity}
    (hrecord : w'.recordOf key = some record) (hstatus : record.status = .processing)
    {q : RequestStage} (hq : q = .claimed ∨ q = .racing ∨ q = .settled) :
    Single key w' (stages.set i (.request r, .request q)) := by
  have hfree : ∀ i', ¬ Holding key stages i' := by
    rintro i' ⟨r', q', hstage, huses, hholds⟩
    have hsees := h.sees i' r' q' hstage huses
    rw [hnone] at hsees
    exact (hsees.of_none none).2 hholds
  refine h.step hi (fun i' r' q' _ hstage huses => ?_) fun r' q' he huses => ?_
  · have hsees := h.sees i' r' q' hstage huses
    rw [hnone] at hsees
    exact (hsees.of_none _).1
  · obtain ⟨-, hstage⟩ := Prod.mk.inj he
    obtain rfl := Stage.request.inj hstage
    refine ⟨?_, fun _ => Or.inr hfree⟩
    rcases hq with rfl | rfl | rfl
    · exact ⟨record, hrecord, hstatus⟩
    · trivial
    · trivial

/-- **The record of the key is completed** by who holds it, and nobody else does. -/
theorem Single.completed (h : Single key w stages) {result : Idempotency.OperationResult}
    (hi : stages[i]? = some (.request r, .request (.completing id result))) (huses : Uses key r)
    {record : IdempotencyRecordEntity} (hrecord : w'.recordOf key = some record)
    (hstatus : record.status = .completed) (hbody : result.body.Same record.responseBody)
    {q : RequestStage} (hq : q = .answered result.body ∨ ∃ e, q = .caught id e) :
    Single key w' (stages.set i (.request r, .request q)) := by
  obtain ⟨old, hold, hprocessing⟩ := h.sees i r _ hi huses
  have hholding : Holding key stages i := ⟨r, _, hi, huses, trivial⟩
  refine h.step hi (fun i' r' q' hne hstage huses' => ?_) fun r' q' he _ => ?_
  · have hsees := h.sees i' r' q' hstage huses'
    rw [hold] at hsees
    exact hsees.of_processing hprocessing
      (fun hholds => hne (h.one i' i ⟨r', q', hstage, huses', hholds⟩ hholding)) _
  · obtain ⟨-, hstage⟩ := Prod.mk.inj he
    obtain rfl := Stage.request.inj hstage
    rcases hq with rfl | ⟨e, rfl⟩
    · exact ⟨⟨record, hrecord, hstatus, hbody⟩, fun h => h.elim⟩
    · exact ⟨RequestStage.sees_caught id e _,
        fun h => absurd h (RequestStage.not_holds_caught id e)⟩

/-- What an insert does to the records: it adds its row, or nothing, and then it throws. -/
theorem exec_insert (column : Jsonb) (ω : Idempotency.Draw) (new : Idempotency.NewRecord)
    (w : Idempotency.World) :
    (Idempotency.exec column ω (.insert new) w).2.records = w.records ∧
        (∃ e, (Idempotency.exec column ω (.insert new) w).1 = .error e) ∨
      w.records.insert? (new.row ω.id ω.now) =
        some (Idempotency.exec column ω (.insert new) w).2.records := by
  have hanswer : (∃ e, Idempotency.answer column ω (.insert new) w = (.error e, w)) ∨
      ∃ records, w.records.insert? (new.row ω.id ω.now) = some records ∧
        Idempotency.answer column ω (.insert new) w = (.ok (), { w with records }) := by
    simp only [Idempotency.answer]
    cases w.records.insert? (new.row ω.id ω.now) with
    | none => exact Or.inl ⟨_, rfl⟩
    | some records => exact Or.inr ⟨records, rfl, rfl⟩
  cases hx : (Idempotency.exec column ω (.insert new) w).1 with
  | ok r =>
      have hmeet : Idempotency.exec column ω (.insert new) w =
        Idempotency.answer column ω (.insert new) w := Prog.Handler.meet_of_ok hx
      rw [hmeet] at hx ⊢
      rcases hanswer with ⟨e, h⟩ | ⟨records, hins, h⟩
      · rw [h] at hx
        cases hx
      · rw [h]
        exact Or.inr hins
  | error e =>
      rcases Prog.Handler.meet_state (Idempotency.answer column ω) ω.fault (.insert new) w with
        h | h
      · exact Or.inl ⟨congrArg Idempotency.World.records h, e, rfl⟩
      · have hrecords := congrArg Idempotency.World.records h
        rcases hanswer with ⟨e', h'⟩ | ⟨records, hins, h'⟩
        · rw [h'] at hrecords
          exact Or.inl ⟨hrecords, e, rfl⟩
        · rw [h'] at hrecords
          exact Or.inr (hins.trans (congrArg some hrecords.symm))

section Record

variable {endpoint k hash : JsString} {record : IdempotencyRecordEntity} {ω : Draw}

/-- A record that is replayed is COMPLETED. -/
theorem Single.replayed (h : Single key w stages) (hi : stages[i]? = some (.request r, s))
    (hsame : w'.recordOf key = w.recordOf key)
    (hkey : (endpoint, k) = (r.endpoint.path, r.idempotencyKey.getD []))
    (hlookup : w.idempotency.records.lookup (endpoint, k) = some record)
    (hreplay : replayable record = true) :
    Single key w' (stages.set i (.request r, .request (.answered record.responseBody))) := by
  refine h.looked hi hsame (fun huses => ?_) fun h => h
  rw [Uses.of_index hkey huses] at hlookup
  exact ⟨record, hlookup, of_decide_eq_true (Bool.and_eq_true_iff.1 hreplay).1, .refl _⟩

/-- The record of the key is not taken from one that has FAILED. -/
theorem Single.found (h : Single key w stages) (hkept : Kept env w) (hw : Unfailed key w)
    (hi : stages[i]? = some (.request r, s)) (hsame : w'.recordOf key = w.recordOf key)
    (hkey : (endpoint, k) = (r.endpoint.path, r.idempotencyKey.getD []))
    (hlookup : w.idempotency.records.lookup (endpoint, k) = some record) :
    Single key w' (stages.set i (.request r, .request (.found hash record))) := by
  unfold RequestStage.found
  split_ifs with hhash hreplay hprocessing
  · exact h.looked hi hsame (fun _ => trivial) fun h => h
  · exact h.replayed hi hsame hkey hlookup hreplay
  · exact h.looked hi hsame (fun _ => trivial) fun h => h
  · refine h.looked hi hsame (fun huses => ?_) fun h => h
    rw [Uses.of_index hkey huses] at hlookup
    have hj := hkept record (IndexedTable.lookup_eq_some hlookup).1
    exact absurd (replayable_of hj hprocessing (hw record hlookup)).2 hreplay

theorem Single.overtaken (h : Single key w stages) (hi : stages[i]? = some (.request r, s))
    (hsame : w'.recordOf key = w.recordOf key)
    (hkey : (endpoint, k) = (r.endpoint.path, r.idempotencyKey.getD []))
    (hlookup : w.idempotency.records.lookup (endpoint, k) = some record) :
    Single key w' (stages.set i (.request r, .request (.overtaken hash record))) := by
  unfold RequestStage.overtaken
  split_ifs with hhash hreplay
  · exact h.looked hi hsame (fun _ => trivial) fun h => h
  · exact h.replayed hi hsame hkey hlookup hreplay
  · exact h.looked hi hsame (fun _ => trivial) fun h => h

/-- The record that is reloaded goes to who has claimed it. -/
theorem Single.reloaded (h : Single key w stages)
    (hi : stages[i]? = some (.request r, .request .claimed))
    (hsame : w'.recordOf key = w.recordOf key) :
    Single key w' (stages.set i (.request r, .request (.operating id))) := by
  refine h.same hi hsame fun r' q' he huses => ?_
  obtain ⟨htask, hstage⟩ := Prod.mk.inj he
  obtain rfl := Task.request.inj htask
  obtain rfl := Stage.request.inj hstage
  exact ⟨h.sees i r .claimed hi huses, fun _ => ⟨r, .claimed, hi, huses, trivial⟩⟩

/-- The stage after an insert has settled. -/
theorem RequestStage.next_insert (hash : JsString) (new : Idempotency.NewRecord)
    (settled : Except Exception Unit) :
    (RequestStage.inserting.next hash (.insert new) settled = .claimed ∧ settled = .ok ()) ∨
      RequestStage.inserting.next hash (.insert new) settled = .racing ∨
      RequestStage.inserting.next hash (.insert new) settled = .settled := by
  cases settled with
  | ok u => exact Or.inl ⟨rfl, rfl⟩
  | error e => cases e <;> first | exact Or.inr (Or.inl rfl) | exact Or.inr (Or.inr rfl)

/-- An insert, under this key or another. -/
theorem Single.insert (h : Single key w stages)
    (hi : stages[i]? = some (.request r, .request .inserting))
    (hkey : (endpoint, k) = (r.endpoint.path, r.idempotencyKey.getD []))
    (hrecordOf : w'.recordOf key = (Idempotency.exec env.column ω.record
      (.insert ⟨endpoint, k, hash, .processing⟩) w.idempotency).2.records.lookup key) :
    Single key w' (stages.set i (.request r, .request (RequestStage.inserting.next hash
      (.insert ⟨endpoint, k, hash, .processing⟩) (Idempotency.exec env.column ω.record
        (.insert ⟨endpoint, k, hash, .processing⟩) w.idempotency).1))) := by
  have hnext := RequestStage.next_insert hash ⟨endpoint, k, hash, .processing⟩
    (Idempotency.exec env.column ω.record (.insert ⟨endpoint, k, hash, .processing⟩)
      w.idempotency).1
  rcases exec_insert env.column ω.record ⟨endpoint, k, hash, .processing⟩ w.idempotency with
    ⟨hsame, e, hfailed⟩ | hins
  · rw [hsame] at hrecordOf
    rcases hnext with ⟨-, hok⟩ | hq | hq
    · rw [hfailed] at hok
      cases hok
    · rw [hq]
      exact h.looked hi hrecordOf (fun _ => trivial) fun h => h
    · rw [hq]
      exact h.looked hi hrecordOf (fun _ => trivial) fun h => h
  · rw [IndexedTable.lookup_insert hins key] at hrecordOf
    change w'.recordOf key = if (endpoint, k) = key then _ else _ at hrecordOf
    by_cases hindex : (endpoint, k) = key
    · rw [if_pos hindex] at hrecordOf
      have hnone : w.recordOf key = none := hindex ▸ (IndexedTable.insert?_eq_some hins).2.1
      exact h.inserted hi hnone hrecordOf rfl (hnext.imp_left And.left)
    · rw [if_neg hindex] at hrecordOf
      exact h.same hi hrecordOf fun r' q' he huses =>
        absurd (Uses.of_index hkey (Task.request.inj (Prod.mk.inj he).1 ▸ huses)) hindex

/-- A patch of the record of another key. -/
theorem Single.patched_other {c : Idempotency.Command} {p : Idempotency.Patch}
    (h : Single key w stages) (hi : stages[i]? = some (.request r, s))
    (hc : c = .update id p ∨ c = .save id p) (howns : Owns env r w id) (huses : ¬ Uses key r)
    (hrecordOf : w'.recordOf key =
      (Idempotency.exec env.column ω.record c w.idempotency).2.records.lookup key)
    (q : RequestStage) : Single key w' (stages.set i (.request r, .request q)) := by
  obtain ⟨record, hrecord, hne⟩ := howns.find?_ne huses
  have hsame : w'.recordOf key = w.recordOf key := by
    rw [hrecordOf]
    rcases exec_patch env.column ω.record hc w.idempotency with ⟨hp, -⟩ | hp
    · rw [hp]
      rfl
    · rw [hp]
      exact recordOf_update hrecord hne
  exact h.same hi hsame fun r' q' he huses' =>
    absurd (Task.request.inj (Prod.mk.inj he).1 ▸ huses') huses

/-- A patch of the record of the key: it is in the table, or it has thrown. -/
theorem recordOf_patched {c : Idempotency.Command} {p : Idempotency.Patch}
    (hc : c = .update id p ∨ c = .save id p) (howns : Owns env r w id) (huses : Uses key r)
    (hrecordOf : w'.recordOf key =
      (Idempotency.exec env.column ω.record c w.idempotency).2.records.lookup key) :
    (w'.recordOf key = w.recordOf key ∧
        ∃ e, (Idempotency.exec env.column ω.record c w.idempotency).1 = .error e) ∨
      ∃ old, w'.recordOf key = some (p.apply env.column ω.record.now old) := by
  rcases exec_patch env.column ω.record hc w.idempotency with ⟨hp, he⟩ | hp
  · exact Or.inl ⟨by rw [hrecordOf, hp]; rfl, he⟩
  · obtain ⟨old, hold, hid⟩ := howns.recordOf huses
    exact Or.inr ⟨old, by rw [hrecordOf, hp, recordOf_update_self hold hid]⟩

end Record

/-- **A call of the records leaves one holder of the record of the key.** -/
theorem Single.record {ω : Draw} {q : RequestStage} {c : Idempotency.Command}
    (h : Single key w stages) (hkept : Kept env w) (hknows : q.Knows env r w)
    (hw : Unfailed key w) (hw' : Unfailed key (exec env ω (.record c) w).2)
    (hi : stages[i]? = some (.request r, .request q))
    (hc : q.Allows (r.endpoint.path, r.idempotencyKey.getD [])
      (env.requestHash r.endpoint r.body) c)
    (hop : ∀ endpoint key, c ≠ .operation endpoint key) :
    Single key (exec env ω (.record c) w).2 (stages.set i (.request r, .request
      (q.next (env.requestHash r.endpoint r.body) c (exec env ω (.record c) w).1))) := by
  have hsettled : (exec env ω (.record c) w).1 =
      (Idempotency.exec env.column ω.record c w.idempotency).1 := rfl
  have hrecordOf : (exec env ω (.record c) w).2.recordOf key =
      (Idempotency.exec env.column ω.record c w.idempotency).2.records.lookup key := rfl
  generalize (exec env ω (.record c) w).2 = w₁ at hw' hrecordOf ⊢
  rw [hsettled]
  cases hc with
  | operate id hkey => exact absurd rfl (hop _ _)
  | @find endpoint k hkey hk =>
      generalize hx : Idempotency.exec env.column ω.record _ w.idempotency = x at hrecordOf ⊢
      obtain ⟨hworld, hfound⟩ := exec_findOne hx
      have hsame : w₁.recordOf key = w.recordOf key := by rw [hrecordOf, hworld]; rfl
      cases hread : x.1 with
      | error e => exact h.looked hi hsame (fun _ => trivial) fun h => h
      | ok found =>
          cases found with
          | none => exact h.looked hi hsame (fun _ => trivial) fun h => h
          | some record => exact h.found hkept hw hi hsame hkey (hfound record hread)
  | @race endpoint k hkey =>
      generalize hx : Idempotency.exec env.column ω.record _ w.idempotency = x at hrecordOf ⊢
      obtain ⟨hworld, hfound⟩ := exec_findOne hx
      have hsame : w₁.recordOf key = w.recordOf key := by rw [hrecordOf, hworld]; rfl
      cases hread : x.1 with
      | error e => exact h.looked hi hsame (fun _ => trivial) fun h => h
      | ok found =>
          cases found with
          | none => exact h.looked hi hsame (fun _ => trivial) fun h => h
          | some record => exact h.overtaken hi hsame hkey (hfound record hread)
  | @reload endpoint k hkey =>
      generalize hx : Idempotency.exec env.column ω.record _ w.idempotency = x at hrecordOf ⊢
      obtain ⟨hworld, -⟩ := exec_findOneOrFail hx
      have hsame : w₁.recordOf key = w.recordOf key := by rw [hrecordOf, hworld]; rfl
      cases x.1 with
      | error e => exact h.looked hi hsame (fun _ => trivial) fun h => h
      | ok record => exact h.reloaded hi hsame
  | reclaim id =>
      by_cases huses : Uses key r
      · exact (h.sees i r _ hi huses).elim
      · exact h.patched_other hi (Or.inl rfl) hknows huses hrecordOf _
  | @insert endpoint k hkey => exact h.insert hi hkey hrecordOf
  | complete id result =>
      by_cases huses : Uses key r
      · rcases recordOf_patched (Or.inr rfl) hknows.1 huses hrecordOf with
          ⟨hsame, e, he⟩ | ⟨old, hpatched⟩
        · rw [he]
          exact h.looked hi hsame (fun _ => RequestStage.sees_caught id e _)
            (RequestStage.not_holds_caught id e)
        · have hstored : (env.column.store result.body).Same result.body := env.column.same _
          refine h.completed hi huses hpatched rfl (fun path => (hstored path).symm) ?_
          cases (Idempotency.exec env.column ω.record _ w.idempotency).1 with
          | ok u => exact Or.inl rfl
          | error e => exact Or.inr ⟨e, rfl⟩
      · exact h.patched_other hi (Or.inr rfl) hknows.1 huses hrecordOf _
  | fail id normalized =>
      by_cases huses : Uses key r
      · rcases recordOf_patched (Or.inr rfl) hknows huses hrecordOf with
          ⟨hsame, e, he⟩ | ⟨old, hpatched⟩
        · rw [he]
          exact h.looked hi hsame (fun _ => trivial) fun h => h
        · exact absurd rfl (hw' _ hpatched)
      · exact h.patched_other hi (Or.inr rfl) hknows huses hrecordOf _

/-- **The operation is run by who holds the record**, who holds it when it is done. -/
theorem Single.operate {ω : Draw} {request : Api.WriteRequest} (h : Single key w stages)
    (hi : stages[i]? = some (.request r, .request (.operating id))) :
    Single key (exec env ω (commandOf request) w).2 (stages.set i (.request r, .request
      (RequestStage.performed id (commandOf request) (exec env ω (commandOf request) w).1))) := by
  have hrecord : (exec env ω (commandOf request) w).2.recordOf key = w.recordOf key := by
    cases request <;> rfl
  generalize exec env ω (commandOf request) w = settled at hrecord ⊢
  refine h.same hi hrecord fun r' q he huses => ?_
  obtain ⟨htask, hstage⟩ := Prod.mk.inj he
  obtain rfl := Task.request.inj htask
  obtain rfl := Stage.request.inj hstage
  have hsees := h.sees i r _ hi huses
  cases hsettled : settled.1 with
  | error e =>
      exact ⟨RequestStage.sees_caught id e _,
        fun hholds => absurd hholds (RequestStage.not_holds_caught id e)⟩
  | ok answer =>
      cases hresult : resultOf (commandOf request) answer with
      | none =>
          simp only [RequestStage.performed, hresult]
          exact ⟨trivial, fun hholds => hholds.elim⟩
      | some result =>
          simp only [RequestStage.performed, hresult]
          exact ⟨hsees, fun _ => ⟨r, _, hi, huses, trivial⟩⟩

/-- The other threads leave the records alone. -/
theorem Single.other {c : Command} {ω : Draw} (h : Single key w stages)
    (hi : stages[i]? = some (task, s)) (htask : ∀ r, task ≠ .request r)
    (hrecord : (exec env ω c w).2.idempotency = w.idempotency) :
    Single key (exec env ω c w).2 (stages.set i (task, s')) := by
  refine h.same hi ?_ fun r q he => absurd (Prod.mk.inj he).1 (htask r)
  rw [World.recordOf, hrecord]
  rfl

/-- **Every call leaves one holder.** -/
theorem Single.call {c : Command} {ω : Draw} (h : Single key w stages)
    (hknown : (truth env).Holds w stages) (hw : Unfailed key w)
    (hw' : Unfailed key (exec env ω c w).2) (hi : stages[i]? = some (task, s))
    (hallows : s.Allows env task c) :
    Single key (exec env ω c w).2
      (stages.set i (task, Stage.next env task s c (exec env ω c w).1)) := by
  cases hallows with
  | record hc hop =>
      have hknows := hknown.2 _ (List.mem_of_getElem? hi)
      exact h.record hknown.1 hknows.2 hw hw' hi hc hop
  | @operate r id request haccept =>
      have hoperate : Single key (exec env ω (commandOf request) w).2 (stages.set i (.request r,
        .request (RequestStage.performed id _ (exec env ω (commandOf request) w).1))) :=
          h.operate hi
      cases request <;> exact hoperate
  | webhook hc => exact h.other hi (fun _ he => by cases he) rfl
  | reconcile hc => exact h.other hi (fun _ he => by cases he) rfl

/-- A request that arrives holds nothing. -/
theorem Single.spawned (h : Single key w stages) (hs : Spawned w w') :
    Single key w' (stages ++ [(task, (system env).entry task)]) := by
  have hrecord : w'.recordOf key = w.recordOf key := by
    rw [World.recordOf, hs.idempotency]
    rfl
  have hentry : ∀ (i : ℕ) (r : HttpRequest) (q : RequestStage),
      (stages ++ [(task, (system env).entry task)])[i]? = some (.request r, .request q) →
      stages[i]? = some (.request r, .request q) ∨ q = .entering := by
    intro i r q hstage
    rw [List.getElem?_append] at hstage
    split_ifs at hstage
    · exact Or.inl hstage
    · obtain ⟨htask, hq⟩ := Prod.mk.inj (List.mem_singleton.1 (List.mem_of_getElem? hstage))
      obtain rfl := htask
      exact Or.inr (Stage.request.inj hq)
  have hholding : ∀ i, Holding key (stages ++ [(task, (system env).entry task)]) i →
      Holding key stages i := by
    rintro i ⟨r, q, hstage, huses, hholds⟩
    rcases hentry i r q hstage with hstage | rfl
    · exact ⟨r, q, hstage, huses, hholds⟩
    · exact hholds.elim
  refine ⟨fun i r q hstage huses => ?_,
    fun i i' h₁ h₂ => h.one i i' (hholding i h₁) (hholding i' h₂)⟩
  rw [hrecord]
  rcases hentry i r q hstage with hstage | rfl
  · exact h.sees i r q hstage huses
  · trivial

end Single

/-! ### Every run -/

section After

variable {env : Env} {key : JsString × JsString} {labels : List (Label Task Draw)}

/-- **While no attempt has FAILED, one request at most holds the record of the key.** -/
theorem single_after (h : ∀ n, Unfailed key (after env (labels.take n)).world) :
    Single key (after env labels).world (after env labels).stages := by
  have hall :
      Pool.Along (system env) (fun P _ => Unfailed key P.world) (Pool.start .empty) labels :=
    Pool.along_of_take h
  have hstart : Single key World.empty [] := by
    refine ⟨?_, ?_⟩
    · intro i r q hstage
      cases hstage
    · rintro i i' ⟨r, q, hstage, -⟩
      cases hstage
  have hrun := Pool.invariant (system_follows env)
    (J := fun w stages => (truth env).Holds w stages ∧ (Unfailed key w → Single key w stages))
    (fun P task w' hJ hok hspawn =>
      ⟨hJ.1.spawn hspawn, fun _ => (hJ.2 hok).spawned (spawned_spawn hspawn)⟩)
    (fun P i task s c ω hJ hok hi _ hallows =>
      ⟨hJ.1.call hi hallows ω, fun hw' => (hJ.2 hok).call hJ.1 hok hw' hi hallows⟩)
    hall (Pool.tracked_start _ _)
    ⟨Pool.Contract.holds_start fun _ h => absurd h List.not_mem_nil, fun _ => hstart⟩
  have hlast := h labels.length
  rw [List.take_length] at hlast
  exact hrun.2.2 hlast

/-- **Whoever is answered under a key is answered the same**, as long as no attempt under
it has been recorded as FAILED: one request has done the work, and the others read it. -/
theorem answers_agree (h : ∀ n, Unfailed key (after env (labels.take n)).world)
    {r r' : HttpRequest} (hr : Uses key r) (hr' : Uses key r') {body body' : Json}
    (hbody : Answered (after env labels) r body) (hbody' : Answered (after env labels) r' body') :
    body.Same body' := by
  have hsingle := single_after h
  have htracked := (truth_after env labels).1
  obtain ⟨i, hi⟩ := List.getElem?_of_mem (hbody.stage htracked).1
  obtain ⟨i', hi'⟩ := List.getElem?_of_mem (hbody'.stage htracked).1
  obtain ⟨record, hfound, -, hsame⟩ := hsingle.sees i r _ hi hr
  obtain ⟨record', hfound', -, hsame'⟩ := hsingle.sees i' r' _ hi' hr'
  obtain rfl := Option.some.inj (hfound.symm.trans hfound')
  exact fun path => (hsame path).trans (hsame' path).symm

end After

/-- The account is opened, and the request comes again. -/
def repeated : List (Label Task Draw) :=
  opened ++ [.spawn (.request opening), .step 1 (drawn "2")]

instance (key : JsString × JsString) (w : World) : Decidable (Unfailed key w) :=
  decidable_of_iff (∀ record ∈ w.recordOf key, record.status ≠ .failed) Iff.rfl

/-- The endpoint and the key of `opening`. -/
def openingKey : JsString × JsString := (js "POST:/accounts", js "opening")

theorem repeated_unfailed (n : ℕ) :
    Unfailed openingKey (after sampleEnv (repeated.take n)).world :=
  Pool.forall_take_iff (p := fun labels => Unfailed openingKey (after sampleEnv labels).world) |>.2
    (by decide +kernel) n

theorem answers_agree_repeated : ∃ body body',
    (after sampleEnv repeated).threads.map Thread.rest = [.ret (some body), .ret (some body')] ∧
      body.Same body' := by
  have huses : Uses openingKey opening := rfl
  have hfirst : Answered (after sampleEnv repeated) opening openedBody :=
    ⟨_, List.mem_of_getElem? (i := 0) rfl, rfl, rfl⟩
  have hsecond : Answered (after sampleEnv repeated) opening openedBody :=
    ⟨_, List.mem_of_getElem? (i := 1) rfl, rfl, rfl⟩
  exact ⟨_, _, rfl, answers_agree repeated_unfailed huses huses hfirst hsecond⟩

end Engine
end LedgerEngine
