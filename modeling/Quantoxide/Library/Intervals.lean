import Mathlib.Algebra.Order.Group.Defs
import Mathlib.Data.List.Nodup
import Mathlib.Order.Bounds.Basic

/-! # Tasks with minimum intervals

A task is due an interval after its last turn. A pass gives a turn to each task that is due
and takes the earliest time one of these is due again as the time of the next pass. -/

namespace Intervals

variable {ι T : Type*}

structure Task (ι T : Type*) where
  id : ι
  last : T
  interval : T

section

variable [Add T] [LinearOrder T] {now top : T} {t u : Task ι T} {ts : List (Task ι T)}

def Task.due (t : Task ι T) : T := t.last + t.interval

/-- The task after a pass. -/
def Task.turn (now : T) (t : Task ι T) : Task ι T :=
  if now < t.due then t else { t with last := now }

/-- The time of the next pass, from a bound of it. -/
def wake (now : T) (ts : List (Task ι T)) (top : T) : T :=
  ts.foldl (fun next t => if now < t.due then next else min next (now + t.interval)) top

theorem turn_id : (t.turn now).id = t.id := by
  unfold Task.turn
  split_ifs <;> rfl

theorem turn_skipped (h : now < t.due) : t.turn now = t := if_pos h

theorem turn_due (h : ¬ now < t.due) : (t.turn now).due = now + t.interval := by
  unfold Task.turn
  rw [if_neg h]
  rfl

theorem wake_append (ts us : List (Task ι T)) :
    wake now (ts ++ us) top = wake now us (wake now ts top) := List.foldl_append

theorem wake_cons_skipped (h : now < t.due) : wake now (t :: ts) top = wake now ts top := by
  simp [wake, h]

theorem wake_cons_due (h : ¬ now < t.due) :
    wake now (t :: ts) top = wake now ts (min top (now + t.interval)) := by
  simp [wake, h]

theorem wake_le_top (top : T) : wake now ts top ≤ top := by
  induction ts generalizing top with
  | nil => exact le_rfl
  | cons t ts ih =>
      by_cases hdue : now < t.due
      · rw [wake_cons_skipped hdue]
        exact ih _
      · rw [wake_cons_due hdue]
        exact (ih _).trans (min_le_left _ _)

theorem wake_le (top : T) (ht : t ∈ ts) (hdue : ¬ now < t.due) :
    wake now ts top ≤ now + t.interval := by
  induction ts generalizing top with
  | nil => simp at ht
  | cons u ts ih =>
      rcases List.mem_cons.mp ht with rfl | ht
      · rw [wake_cons_due hdue]
        exact (wake_le_top _).trans (min_le_right _ _)
      · by_cases hu : now < u.due
        · rw [wake_cons_skipped hu]
          exact ih top ht
        · rw [wake_cons_due hu]
          exact ih _ ht

/-- The next pass is at the bound or when a task that has had its turn is due again. -/
theorem wake_mem (now : T) (ts : List (Task ι T)) (top : T) : wake now ts top = top ∨
    ∃ t ∈ ts, ¬ now < t.due ∧ wake now ts top = now + t.interval := by
  induction ts generalizing top with
  | nil => exact Or.inl rfl
  | cons t ts ih =>
      by_cases hdue : now < t.due
      · rw [wake_cons_skipped hdue]
        refine (ih top).imp_right ?_
        rintro ⟨u, hu, h⟩
        exact ⟨u, List.mem_cons_of_mem _ hu, h⟩
      · rw [wake_cons_due hdue]
        rcases ih (min top (now + t.interval)) with heq | ⟨u, hu, h⟩
        · rw [heq]
          rcases min_choice top (now + t.interval) with hmin | hmin
          · exact Or.inl hmin
          · exact Or.inr ⟨t, List.mem_cons_self, hdue, hmin⟩
        · exact Or.inr ⟨u, List.mem_cons_of_mem _ hu, h⟩

/-- The times the tasks are due at. -/
def dues (ts : List (Task ι T)) : Set T := {x | ∃ t ∈ ts, t.due = x}

/-- Each task that is skipped is due no earlier than one that has its turn is due again. -/
def SkipsNone (now : T) (ts : List (Task ι T)) : Prop :=
  ∀ t ∈ ts, now < t.due → ∃ u ∈ ts, ¬ now < u.due ∧ now + u.interval ≤ t.due

instance : Decidable (SkipsNone now ts) := by
  unfold SkipsNone
  infer_instance

theorem wake_mem_dues (hsome : ∃ t ∈ ts, ¬ now < t.due)
    (htop : ∀ t ∈ ts, ¬ now < t.due → now + t.interval ≤ top) :
    wake now ts top ∈ dues (ts.map (Task.turn now)) := by
  have hreset : ∀ t ∈ ts, ¬ now < t.due → now + t.interval ∈ dues (ts.map (Task.turn now)) :=
    fun t ht hdue => ⟨t.turn now, List.mem_map_of_mem ht, turn_due hdue⟩
  rcases wake_mem now ts top with heq | ⟨t, ht, hdue, heq⟩
  · obtain ⟨t, ht, hdue⟩ := hsome
    have hle := wake_le top ht hdue
    rw [heq] at hle ⊢
    rw [le_antisymm hle (htop t ht hdue)]
    exact hreset t ht hdue
  · rw [heq]
    exact hreset t ht hdue

/-- The next pass is at the earliest time a task is due exactly when no task that is skipped
is due before those that have their turn. -/
theorem wake_isLeast_iff (hsome : ∃ t ∈ ts, ¬ now < t.due)
    (htop : ∀ t ∈ ts, ¬ now < t.due → now + t.interval ≤ top) :
    IsLeast (dues (ts.map (Task.turn now))) (wake now ts top) ↔ SkipsNone now ts := by
  have hmem := wake_mem_dues hsome htop
  constructor
  · intro hleast t ht hskipped
    obtain ⟨x, hx, hle⟩ : ∃ x, wake now ts top = x ∧ x ≤ t.due := by
      refine ⟨_, rfl, hleast.2 ⟨t.turn now, List.mem_map_of_mem ht, ?_⟩⟩
      rw [turn_skipped hskipped]
    rcases wake_mem now ts top with heq | ⟨u, hu, hdue, heq⟩
    · obtain ⟨u, hu, hdue⟩ := hsome
      refine ⟨u, hu, hdue, (htop u hu hdue).trans ?_⟩
      rw [← heq, hx]
      exact hle
    · refine ⟨u, hu, hdue, ?_⟩
      rw [← heq, hx]
      exact hle
  · intro hskips
    refine ⟨hmem, ?_⟩
    rintro x ⟨t', ht', rfl⟩
    obtain ⟨t, ht, rfl⟩ := List.mem_map.mp ht'
    by_cases hdue : now < t.due
    · obtain ⟨u, hu, hu', hle⟩ := hskips t ht hdue
      rw [turn_skipped hdue]
      exact (wake_le top hu hu').trans hle
    · rw [turn_due hdue]
      exact wake_le top ht hdue

end

/-! ### Turns keep their distance -/

/-- Two turns of one task, the earlier before the later, are an interval apart. -/
def Spaced [Add T] [LE T] (interval : ι → T) (log : List (ι × T)) : Prop :=
  log.Pairwise fun a b => a.1 = b.1 → a.2 + interval a.1 ≤ b.2

instance [DecidableEq ι] [Add T] [LE T] [DecidableLE T] (interval : ι → T)
    (log : List (ι × T)) : Decidable (Spaced interval log) := by
  unfold Spaced
  infer_instance

/-- Turns taken at one time extend the log when each is an interval after the last of its
task. -/
theorem Spaced.append [Add T] [LE T] {interval : ι → T} {log : List (ι × T)} {ids : List ι}
    {now : T} (h : Spaced interval log) (hnodup : ids.Nodup)
    (hafter : ∀ e ∈ log, e.1 ∈ ids → e.2 + interval e.1 ≤ now) :
    Spaced interval (log ++ ids.map fun i => (i, now)) := by
  unfold Spaced
  rw [List.pairwise_append]
  refine ⟨h, ?_, ?_⟩
  · rw [List.pairwise_map]
    exact hnodup.imp fun hne heq => absurd heq hne
  · intro a ha b hb heq
    obtain ⟨i, hi, rfl⟩ := List.mem_map.mp hb
    exact hafter a ha (heq ▸ hi)

end Intervals
