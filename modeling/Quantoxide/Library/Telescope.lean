import Mathlib.Algebra.BigOperators.Group.Finset.Piecewise

/-! # Cumulative readings

Each item reports a running total. It is tracked from a baseline on, a later reading replaces
the last one, and the net of the ledger is what the readings have gained over the baselines. -/

structure Telescope (ι M : Type) where
  tracked : Finset ι
  baseline : ι → M
  reading : ι → M

namespace Telescope

variable {ι M : Type} [DecidableEq ι] [AddCommGroup M] {L : Telescope ι M} {i j : ι} {b v : M}

def empty : Telescope ι M := ⟨∅, 0, 0⟩

def net (L : Telescope ι M) : M := ∑ i ∈ L.tracked, (L.reading i - L.baseline i)

def track (L : Telescope ι M) (i : ι) (b v : M) : Telescope ι M where
  tracked := insert i L.tracked
  baseline := Function.update L.baseline i b
  reading := Function.update L.reading i v

/-- Takes the new reading of every item that reports one. -/
def read (L : Telescope ι M) (f : ι → Option M) : Telescope ι M :=
  { L with reading := fun i => (f i).getD (L.reading i) }

/-- Tracks an item from its reading on, unless it is tracked already. -/
def discover (L : Telescope ι M) (i : ι) (v : M) : Telescope ι M :=
  if i ∈ L.tracked then L else L.track i v v

def discoverAll (L : Telescope ι M) (items : List (ι × M)) : Telescope ι M :=
  items.foldl (fun L item => L.discover item.1 item.2) L

omit [DecidableEq ι] in
@[simp] theorem net_empty : (empty : Telescope ι M).net = 0 := rfl

theorem net_track (h : i ∉ L.tracked) : (L.track i b v).net = L.net + (v - b) := by
  have hold : ∀ j ∈ L.tracked, (L.track i b v).reading j - (L.track i b v).baseline j =
      L.reading j - L.baseline j := by
    intro j hj
    have hne : j ≠ i := fun hji => h (hji ▸ hj)
    simp [track, hne]
  show ∑ j ∈ insert i L.tracked, _ = _
  rw [Finset.sum_insert h, Finset.sum_congr rfl hold, add_comm]
  simp [track, net]

/-! ### Readings -/

omit [DecidableEq ι] in
theorem net_read (f : ι → Option M) :
    (L.read f).net = L.net + ∑ i ∈ L.tracked, ((f i).map (· - L.reading i)).getD 0 := by
  show ∑ i ∈ L.tracked, _ = (∑ i ∈ L.tracked, _) + _
  rw [← Finset.sum_add_distrib]
  refine Finset.sum_congr rfl ?_
  intro i _
  cases hf : f i with
  | none => simp [read, hf]
  | some v => simp [read, hf]

/-- The gain of the readings, summed over a list with all the tracked items that report one. -/
theorem net_read_of_nodup {f : ι → Option M} {ids : List ι} (hids : ids.Nodup)
    (hsilent : ∀ i ∈ L.tracked, i ∉ ids → f i = none) :
    (L.read f).net = L.net + (ids.map fun i =>
      if i ∈ L.tracked then ((f i).map (· - L.reading i)).getD 0 else 0).sum := by
  rw [net_read, ← List.sum_toFinset _ hids, Finset.sum_ite_mem]
  congr 1
  symm
  apply Finset.sum_subset Finset.inter_subset_right
  intro i hi hnot
  rw [Finset.mem_inter, List.mem_toFinset, not_and'] at hnot
  rw [hsilent i hi (hnot hi)]
  rfl

/-! ### Discoveries -/

theorem net_discover : (L.discover i v).net = L.net := by
  by_cases h : i ∈ L.tracked
  · rw [discover, if_pos h]
  · rw [discover, if_neg h, net_track h, sub_self, add_zero]

omit [AddCommGroup M] in
theorem mem_tracked_discover : j ∈ (L.discover i v).tracked ↔ j ∈ L.tracked ∨ j = i := by
  by_cases h : i ∈ L.tracked
  · rw [discover, if_pos h]
    constructor
    · exact Or.inl
    · intro hj
      rcases hj with hj | rfl
      · exact hj
      · exact h
  · rw [discover, if_neg h]
    simp [track, or_comm]

omit [AddCommGroup M] in
theorem reading_discover (h : i = j → v = L.reading j) :
    (L.discover i v).reading j = L.reading j := by
  by_cases hi : i ∈ L.tracked
  · rw [discover, if_pos hi]
  · rw [discover, if_neg hi]
    by_cases hij : i = j
    · subst hij
      simp [track, h rfl]
    · simp [track, Function.update_of_ne (Ne.symm hij)]

theorem net_discoverAll (items : List (ι × M)) : (L.discoverAll items).net = L.net := by
  induction items generalizing L with
  | nil => rfl
  | cons item items ih => exact ih.trans net_discover

omit [AddCommGroup M] in
theorem mem_tracked_discoverAll {items : List (ι × M)} :
    j ∈ (L.discoverAll items).tracked ↔ j ∈ L.tracked ∨ j ∈ items.map (·.1) := by
  induction items generalizing L with
  | nil => simp [discoverAll]
  | cons item items ih =>
      show j ∈ ((L.discover item.1 item.2).discoverAll items).tracked ↔ _
      rw [ih, mem_tracked_discover, List.map_cons, List.mem_cons, or_assoc]

omit [AddCommGroup M] in
/-- Discoveries leave the readings that they agree with. -/
theorem reading_discoverAll {items : List (ι × M)}
    (h : ∀ item ∈ items, item.1 = j → item.2 = L.reading j) :
    (L.discoverAll items).reading j = L.reading j := by
  induction items generalizing L with
  | nil => rfl
  | cons item items ih =>
      have hitem := reading_discover (h item List.mem_cons_self)
      show ((L.discover item.1 item.2).discoverAll items).reading j = _
      rw [ih, hitem]
      intro other hother hj
      rw [hitem]
      exact h other (List.mem_cons_of_mem item hother) hj

omit [AddCommGroup M] in
/-- An item that is discovered is tracked from its own reading on. -/
theorem reading_discoverAll_new {items : List (ι × M)} {item : ι × M}
    (hnodup : (items.map (·.1)).Nodup) (hitem : item ∈ items) (hnew : item.1 ∉ L.tracked) :
    (L.discoverAll items).reading item.1 = item.2 := by
  induction items generalizing L with
  | nil => simp at hitem
  | cons head items ih =>
      rw [List.map_cons, List.nodup_cons] at hnodup
      show ((L.discover head.1 head.2).discoverAll items).reading item.1 = _
      rcases List.mem_cons.mp hitem with rfl | htail
      · rw [reading_discoverAll]
        · simp [discover, hnew, track]
        · intro other hother hid
          exact absurd (hid ▸ List.mem_map_of_mem hother) hnodup.1
      · refine ih hnodup.2 htail ?_
        rw [mem_tracked_discover, not_or]
        exact ⟨hnew, fun hid => hnodup.1 (hid ▸ List.mem_map_of_mem htail)⟩

end Telescope
