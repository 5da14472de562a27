/-
# A job queue that remembers

A queue of jobs with ids of type `κ`.  A job is live while it waits, is delayed
or is being worked on; the ids of the last `keep` jobs that completed and of the
last `keep` that failed are kept as well.  Adding a job whose id the queue still
has, in whatever state, does nothing.

Which jobs are live and which ids are remembered as finished after each
operation is all that proofs need: `isLive_add`, `isLive_complete`,
`finished_complete` and their companions.
-/

import Mathlib.Data.Int.Notation
import Mathlib.Data.List.Nodup

namespace LedgerEngine

/-- What a live job does; a delayed one waits for a time. -/
inductive JobState : Type
  | waiting
  | delayed (due : ℤ)
  | active
  deriving DecidableEq

/-- A worker may take the job now. -/
def JobState.Ready (now : ℤ) : JobState → Prop
  | .waiting => True
  | .delayed due => due ≤ now
  | .active => False

instance (now : ℤ) : (s : JobState) → Decidable (s.Ready now)
  | .waiting => inferInstanceAs (Decidable True)
  | .delayed due => inferInstanceAs (Decidable (due ≤ now))
  | .active => inferInstanceAs (Decidable False)

/-- A job that no worker has can be taken some time. -/
theorem JobState.exists_ready {s : JobState} (h : s ≠ .active) : ∃ now, s.Ready now := by
  cases s with
  | waiting => exact ⟨0, trivial⟩
  | delayed due => exact ⟨due, Int.le_refl due⟩
  | active => exact absurd rfl h

structure LiveJob (κ : Type) where
  id : κ
  state : JobState
  deriving DecidableEq

/-- The live jobs, and newest first the ids of jobs that completed or failed. -/
structure JobQueue (κ : Type) where
  live : List (LiveJob κ)
  completed : List κ
  failed : List κ
  nodup : (live.map LiveJob.id).Nodup

namespace JobQueue

variable {κ : Type} {q : JobQueue κ} {id j : κ}

def empty : JobQueue κ := ⟨[], [], [], List.nodup_nil⟩

/-- The job waits, is delayed or is being worked on. -/
def IsLive (q : JobQueue κ) (id : κ) : Prop := id ∈ q.live.map LiveJob.id

/-- The job has finished and is still remembered. -/
def Finished (q : JobQueue κ) (id : κ) : Prop := id ∈ q.completed ∨ id ∈ q.failed

/-- The queue has the job, in whatever state. -/
def Has (q : JobQueue κ) (id : κ) : Prop := q.IsLive id ∨ q.Finished id

variable [DecidableEq κ]

instance (q : JobQueue κ) (id : κ) : Decidable (q.IsLive id) :=
  inferInstanceAs (Decidable (id ∈ q.live.map LiveJob.id))

instance (q : JobQueue κ) (id : κ) : Decidable (q.Finished id) :=
  inferInstanceAs (Decidable (id ∈ q.completed ∨ id ∈ q.failed))

instance (q : JobQueue κ) (id : κ) : Decidable (q.Has id) :=
  inferInstanceAs (Decidable (q.IsLive id ∨ q.Finished id))

/-- Add a job, unless the queue has one with this id. -/
def add (q : JobQueue κ) (id : κ) (state : JobState) : JobQueue κ :=
  if h : q.Has id then q
  else
    { q with
      live := q.live ++ [⟨id, state⟩]
      nodup := by
        have hid : id ∉ q.live.map LiveJob.id := fun hid => h (Or.inl hid)
        rw [List.map_append]
        exact List.nodup_append'.2 ⟨q.nodup, List.nodup_singleton _, by simpa using hid⟩ }

/-- A worker takes the job, if it is ready. -/
def start? (q : JobQueue κ) (id : κ) (now : ℤ) : Option (JobQueue κ) :=
  if ∃ job ∈ q.live, job.id = id ∧ job.state.Ready now then
    some { q with
      live := q.live.map fun job => if job.id = id then { job with state := .active } else job
      nodup := by
        have : (LiveJob.id ∘ fun job : LiveJob κ =>
            if job.id = id then { job with state := .active } else job) = LiveJob.id := by
          funext job
          simp only [Function.comp_apply]
          split <;> rfl
        rw [List.map_map, this]
        exact q.nodup }
  else none

/-- The jobs other than this one. -/
def others (q : JobQueue κ) (id : κ) : List (LiveJob κ) := q.live.filter fun job => job.id ≠ id

theorem nodup_others (q : JobQueue κ) (id : κ) : ((q.others id).map LiveJob.id).Nodup :=
  q.nodup.sublist (List.filter_sublist.map _)

/-- The job has completed; the queue remembers the last `keep` that have. -/
def complete (keep : ℕ) (q : JobQueue κ) (id : κ) : JobQueue κ where
  live := q.others id
  completed := (id :: q.completed).take keep
  failed := q.failed
  nodup := q.nodup_others id

/-- The job has failed; the queue remembers the last `keep` that have. -/
def fail (keep : ℕ) (q : JobQueue κ) (id : κ) : JobQueue κ where
  live := q.others id
  completed := q.completed
  failed := (id :: q.failed).take keep
  nodup := q.nodup_others id

theorem add_of_has {state : JobState} (h : q.Has id) : q.add id state = q := dif_pos h

theorem live_add {state : JobState} (h : ¬ q.Has id) :
    (q.add id state).live = q.live ++ [⟨id, state⟩] := by
  rw [add, dif_neg h]

/-- What a worker finds, and the jobs after it has taken its own. -/
theorem live_start? {q' : JobQueue κ} {now : ℤ} (h : q.start? id now = some q') :
    (∃ job ∈ q.live, job.id = id ∧ job.state.Ready now) ∧
      q'.live =
        q.live.map fun job => if job.id = id then { job with state := .active } else job := by
  unfold start? at h
  split at h
  · rename_i hready
    obtain rfl := Option.some.inj h
    exact ⟨hready, rfl⟩
  · exact absurd h (by simp)

theorem start?_isSome {job : LiveJob κ} {now : ℤ} (hjob : job ∈ q.live)
    (h : job.state.Ready now) : (q.start? job.id now).isSome = true := by
  unfold start?
  rw [if_pos ⟨job, hjob, rfl, h⟩]
  rfl

/-- The live jobs after one is added. -/
theorem mem_live_add {state : JobState} {job : LiveJob κ} (h : job ∈ (q.add id state).live) :
    job ∈ q.live ∨ job = ⟨id, state⟩ := by
  by_cases hid : q.Has id
  · rw [add_of_has hid] at h
    exact Or.inl h
  · rw [live_add hid] at h
    simpa using h

omit [DecidableEq κ] in
/-- A job is in the queue once. -/
theorem eq_of_id_eq {job job' : LiveJob κ} (h : job ∈ q.live) (h' : job' ∈ q.live)
    (hid : job.id = job'.id) : job = job' :=
  List.inj_on_of_nodup_map q.nodup h h' hid

theorem isLive_add (state : JobState) :
    (q.add id state).IsLive j ↔ q.IsLive j ∨ j = id ∧ ¬ q.Finished id := by
  unfold add
  split
  · rename_i h
    constructor
    · exact Or.inl
    · rintro (hj | ⟨rfl, hj⟩)
      · exact hj
      · exact h.resolve_right hj
  · rename_i h
    have hfinished : ¬ q.Finished id := fun hid => h (Or.inr hid)
    simp [IsLive, hfinished]

theorem finished_add (state : JobState) : (q.add id state).Finished j ↔ q.Finished j := by
  unfold add
  split <;> rfl

/-- Several jobs added in order, each of them in this state. -/
def addAll (q : JobQueue κ) (ids : List κ) (state : JobState) : JobQueue κ :=
  ids.foldl (fun q id => q.add id state) q

theorem addAll_cons (q : JobQueue κ) (id : κ) (ids : List κ) (state : JobState) :
    q.addAll (id :: ids) state = (q.add id state).addAll ids state := rfl

/-- **Jobs that the queue has are not added again.** -/
theorem addAll_of_has {ids : List κ} {state : JobState} (h : ∀ id ∈ ids, q.Has id) :
    q.addAll ids state = q := by
  induction ids with
  | nil => rfl
  | cons id ids ih =>
      rw [addAll_cons, add_of_has (h id (List.mem_cons_self ..))]
      exact ih fun id' hid' => h id' (List.mem_cons_of_mem _ hid')

theorem finished_addAll {ids : List κ} (state : JobState) :
    (q.addAll ids state).Finished j ↔ q.Finished j := by
  induction ids generalizing q with
  | nil => rfl
  | cons id ids ih =>
      rw [addAll_cons, ih]
      exact finished_add state

/-- **Which jobs are live after several are added**: those that were, and the new. -/
theorem isLive_addAll {ids : List κ} (state : JobState) :
    (q.addAll ids state).IsLive j ↔ q.IsLive j ∨ j ∈ ids ∧ ¬ q.Finished j := by
  induction ids generalizing q with
  | nil => simp [addAll]
  | cons id ids ih =>
      have hfinished : (q.add id state).Finished j ↔ q.Finished j := finished_add state
      rw [addAll_cons, ih, isLive_add, hfinished, List.mem_cons]
      constructor
      · rintro ((hj | ⟨rfl, hnot⟩) | ⟨hj, hnot⟩)
        · exact Or.inl hj
        · exact Or.inr ⟨Or.inl rfl, hnot⟩
        · exact Or.inr ⟨Or.inr hj, hnot⟩
      · rintro (hj | ⟨rfl | hj, hnot⟩)
        · exact Or.inl (Or.inl hj)
        · exact Or.inl (Or.inr ⟨rfl, hnot⟩)
        · exact Or.inr ⟨hj, hnot⟩

theorem mem_live_addAll {ids : List κ} {state : JobState} {job : LiveJob κ}
    (h : job ∈ (q.addAll ids state).live) : job ∈ q.live ∨ job.id ∈ ids ∧ job.state = state := by
  induction ids generalizing q with
  | nil => exact Or.inl h
  | cons id ids ih =>
      rcases ih h with hjob | ⟨hjob, hstate⟩
      · rcases mem_live_add hjob with hold | rfl
        · exact Or.inl hold
        · exact Or.inr ⟨List.mem_cons_self .., rfl⟩
      · exact Or.inr ⟨List.mem_cons_of_mem _ hjob, hstate⟩

omit [DecidableEq κ] in
theorem isLive_of_eq {q' : JobQueue κ} (h : q'.live.map LiveJob.id = q.live.map LiveJob.id) :
    q'.IsLive j ↔ q.IsLive j := by
  rw [IsLive, h, IsLive]

theorem start?_eq_some {q' : JobQueue κ} {now : ℤ} (h : q.start? id now = some q') :
    q.IsLive id ∧ (∀ j, q'.IsLive j ↔ q.IsLive j) ∧ ∀ j, q'.Finished j ↔ q.Finished j := by
  unfold start? at h
  split at h
  · rename_i hready
    obtain ⟨job, hjob, hid, -⟩ := hready
    obtain rfl := Option.some.inj h
    refine ⟨hid ▸ List.mem_map_of_mem hjob, fun j => isLive_of_eq ?_, fun j => Iff.rfl⟩
    rw [List.map_map]
    refine List.map_congr_left fun job _ => ?_
    simp only [Function.comp_apply]
    split <;> rfl
  · exact absurd h (by simp)

theorem mem_others : j ∈ (q.others id).map LiveJob.id ↔ q.IsLive j ∧ j ≠ id := by
  simp only [others, IsLive, List.mem_map, List.mem_filter, decide_eq_true_eq]
  constructor
  · rintro ⟨job, ⟨hjob, hne⟩, rfl⟩
    exact ⟨⟨job, hjob, rfl⟩, hne⟩
  · rintro ⟨⟨job, hjob, rfl⟩, hne⟩
    exact ⟨job, ⟨hjob, hne⟩, rfl⟩

theorem isLive_complete (keep : ℕ) : (q.complete keep id).IsLive j ↔ q.IsLive j ∧ j ≠ id :=
  mem_others

theorem isLive_fail (keep : ℕ) : (q.fail keep id).IsLive j ↔ q.IsLive j ∧ j ≠ id :=
  mem_others

omit [DecidableEq κ] in
theorem mem_of_mem_take_cons {keep : ℕ} {ids : List κ} (h : j ∈ (id :: ids).take keep) :
    j ∈ ids ∨ j = id :=
  (List.mem_cons.1 (List.mem_of_mem_take h)).symm

theorem finished_complete {keep : ℕ} (h : (q.complete keep id).Finished j) :
    q.Finished j ∨ j = id := by
  rcases h with h | h
  · exact (mem_of_mem_take_cons h).imp_left Or.inl
  · exact Or.inl (Or.inr h)

theorem finished_fail {keep : ℕ} (h : (q.fail keep id).Finished j) : q.Finished j ∨ j = id := by
  rcases h with h | h
  · exact Or.inl (Or.inl h)
  · exact (mem_of_mem_take_cons h).imp_left Or.inr

end JobQueue

end LedgerEngine
