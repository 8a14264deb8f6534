import Mathlib.Data.List.Dedup
import Mathlib.Order.Lattice

/-! # Grouping a list by key, one element at a time

The keys of a list are listed once each, and the group of a key is the sublist that
carries it. Appending an element either extends the group of its key or opens a new one. -/

namespace Groups

variable {α κ : Type*} [DecidableEq κ]

/-- The keys of a list, each once. -/
def keys (f : α → κ) (xs : List α) : List κ := (xs.map f).dedup

def group (f : α → κ) (xs : List α) (k : κ) : List α := xs.filter (fun x => f x = k)

/-- The keys of a list other than `k`. -/
def keysBut (f : α → κ) (xs : List α) (k : κ) : List κ :=
  keys f (xs.filter (fun x => f x ≠ k))

variable {f : α → κ} {xs : List α}

@[simp] theorem keys_nil : keys f [] = [] := rfl

theorem mem_keys {k : κ} : k ∈ keys f xs ↔ ∃ x ∈ xs, f x = k := by
  simp [keys]

theorem keys_nodup : (keys f xs).Nodup := List.nodup_dedup _

theorem keys_ascending [LinearOrder κ] (h : (xs.map f).Pairwise (· ≤ ·)) :
    (keys f xs).Pairwise (· < ·) := by
  have hle := h.sublist (List.dedup_sublist (xs.map f))
  exact hle.imp₂ (fun _ _ => lt_of_le_of_ne) keys_nodup

theorem union_concat (k : κ) (ks : List κ) :
    ks ∪ [k] = (ks.filter (· ≠ k)).dedup ++ [k] := by
  induction ks with
  | nil => rfl
  | cons a ks ih =>
      by_cases ha : a = k
      · subst ha
        simp [List.cons_union, ih]
      · have hf : (a :: ks).filter (· ≠ k) = a :: ks.filter (· ≠ k) :=
          List.filter_cons_of_pos (by simpa using ha)
        by_cases hm : a ∈ ks
        · have hm' : a ∈ ks.filter (· ≠ k) := by simpa using ⟨hm, ha⟩
          rw [hf, List.dedup_cons_of_mem hm', List.cons_union, ih, List.insert_of_mem]
          simpa using Or.inl ⟨hm, ha⟩
        · have hm' : a ∉ ks.filter (· ≠ k) := by simpa using fun h => absurd h hm
          rw [hf, List.dedup_cons_of_notMem hm', List.cons_union, ih, List.insert_of_not_mem]
          · rfl
          · simpa using ⟨fun h => absurd h hm, ha⟩

theorem keys_concat (x : α) : keys f (xs ++ [x]) = keysBut f xs (f x) ++ [f x] := by
  have hd : ([f x] : List κ).dedup = [f x] := rfl
  rw [keys, List.map_append, List.map_singleton, List.dedup_append, hd, union_concat,
    keysBut, keys, List.filter_map]
  rfl

theorem keysBut_concat_self (x : α) : keysBut f (xs ++ [x]) (f x) = keysBut f xs (f x) := by
  simp [keysBut]

theorem keysBut_of_notMem {k : κ} (h : ∀ x ∈ xs, f x ≠ k) : keysBut f xs k = keys f xs := by
  rw [keysBut, List.filter_eq_self.mpr (by simpa using h)]

theorem ne_of_mem_keysBut {k j : κ} (h : j ∈ keysBut f xs k) : j ≠ k := by
  obtain ⟨x, hx, rfl⟩ := mem_keys.mp h
  simpa using (List.mem_filter.mp hx).2

theorem group_concat_self (x : α) : group f (xs ++ [x]) (f x) = group f xs (f x) ++ [x] := by
  simp [group]

theorem group_concat_of_ne {x : α} {k : κ} (h : f x ≠ k) :
    group f (xs ++ [x]) k = group f xs k := by
  simp [group, h]

theorem group_eq_nil {k : κ} (h : ∀ x ∈ xs, f x ≠ k) : group f xs k = [] := by
  simpa [group] using h

/-- Keys that two parts do not share are listed part by part. -/
theorem keys_append {ys : List α} (h : ∀ x ∈ xs, ∀ y ∈ ys, f x ≠ f y) :
    keys f (xs ++ ys) = keys f xs ++ keys f ys := by
  have hdisjoint : List.Disjoint (xs.map f) (ys.map f) := by
    intro k hk hk'
    obtain ⟨x, hx, rfl⟩ := List.mem_map.mp hk
    obtain ⟨y, hy, heq⟩ := List.mem_map.mp hk'
    exact h x hx y hy heq.symm
  rw [keys, List.map_append, hdisjoint.dedup_append, keys, keys]

theorem group_append {ys : List α} (k : κ) :
    group f (xs ++ ys) k = group f xs k ++ group f ys k := List.filter_append ..

theorem mem_group {x : α} {k : κ} : x ∈ group f xs k ↔ x ∈ xs ∧ f x = k := by
  simp [group]

theorem group_sublist (k : κ) : (group f xs k).Sublist xs := List.filter_sublist

end Groups
