import Mathlib.Data.List.Dedup
import Mathlib.Data.List.Nodup
import Mathlib.Data.Prod.Lex
import Quantoxide.Library.OrdMap

/-! # Entries filed by time and id

A map keyed by time and id, next to a map from each id to its time. As long as the two
describe the same set, an id has one entry and either map answers for it. -/

namespace Indexed

variable {α τ ι : Type} [LinearOrder τ] [LinearOrder ι]

/-- The ids of the entries, in the order of the map. -/
def ids (key : α → τ ×ₗ ι) (m : OrdMap (τ ×ₗ ι) α) : List ι :=
  m.entries.map fun e => (ofLex (key e.2)).2

/-- Every entry is filed under its own key, and its id leads to its time. -/
structure Agree (key : α → τ ×ₗ ι) (m : OrdMap (τ ×ₗ ι) α) (times : OrdMap ι τ) : Prop where
  keyed : ∀ k a, (k, a) ∈ m → k = key a
  times : ∀ i t, times.get i = some t ↔ ∃ a, (toLex (t, i), a) ∈ m

variable {key : α → τ ×ₗ ι} {m m' : OrdMap (τ ×ₗ ι) α} {times : OrdMap ι τ} {i : ι} {a : α}

theorem mem_ids : i ∈ ids key m ↔ ∃ k a, (k, a) ∈ m ∧ (ofLex (key a)).2 = i := by
  simp [ids, OrdMap.mem_def]

theorem Agree.empty : Agree key OrdMap.empty OrdMap.empty := by
  constructor
  · intro k a h
    simp [OrdMap.empty, OrdMap.mem_def] at h
  · intro i t
    simp [OrdMap.empty, OrdMap.mem_def, OrdMap.get]

namespace Agree

theorem get_isSome (h : Agree key m times) : (times.get i).isSome = true ↔ i ∈ ids key m := by
  rw [Option.isSome_iff_exists, mem_ids]
  constructor
  · intro ⟨t, ht⟩
    obtain ⟨a, ha⟩ := (h.times i t).mp ht
    exact ⟨_, a, ha, by rw [← h.keyed _ a ha]; rfl⟩
  · intro ⟨k, a, ha, hi⟩
    obtain rfl := h.keyed k a ha
    subst hi
    exact ⟨(ofLex (key a)).1, (h.times _ _).mpr ⟨a, ha⟩⟩

/-- An id has one entry. -/
theorem eq_of_id (h : Agree key m times) {k k' : τ ×ₗ ι} {b : α} (ha : (k, a) ∈ m)
    (hb : (k', b) ∈ m) (hid : (ofLex (key a)).2 = (ofLex (key b)).2) : k = k' ∧ a = b := by
  obtain rfl := h.keyed k a ha
  obtain rfl := h.keyed k' b hb
  have hta : times.get (ofLex (key a)).2 = some (ofLex (key a)).1 := (h.times _ _).mpr ⟨a, ha⟩
  have htb : times.get (ofLex (key b)).2 = some (ofLex (key b)).1 := (h.times _ _).mpr ⟨b, hb⟩
  have htime : (ofLex (key a)).1 = (ofLex (key b)).1 := by
    rw [hid, htb] at hta
    exact (Option.some.inj hta).symm
  have hkey : key a = key b := ofLex.injective (Prod.ext htime hid)
  refine ⟨hkey, ?_⟩
  rw [← hkey] at hb
  exact OrdMap.eq_of_mem ha hb

theorem nodup (h : Agree key m times) : (ids key m).Nodup := by
  apply List.Nodup.map_on
  · rintro ⟨k, a⟩ he ⟨k', a'⟩ he' hid
    obtain ⟨rfl, rfl⟩ := h.eq_of_id he he' hid
    rfl
  · exact List.Nodup.of_map _ m.nodup_keys

/-- The two maps are of one size. -/
theorem size_eq (h : Agree key m times) : times.size = m.size := by
  have hperm : (times.entries.map (·.1)).Perm (ids key m) := by
    apply (List.perm_ext_iff_of_nodup times.nodup_keys h.nodup).mpr
    intro i
    rw [← h.get_isSome, Option.isSome_iff_exists]
    simp only [OrdMap.get_eq_some, OrdMap.mem_def, List.mem_map, Prod.exists, exists_and_right,
      exists_eq_right]
  simpa [ids, OrdMap.size] using hperm.length_eq

/-- Looking up an id by its time finds the entry of that id. -/
theorem lookup (h : Agree key m times) :
    ((times.get i).bind fun t => m.get (toLex (t, i))) = some a ↔
      (∃ k, (k, a) ∈ m) ∧ (ofLex (key a)).2 = i := by
  rw [Option.bind_eq_some_iff]
  simp only [OrdMap.get_eq_some]
  constructor
  · intro ⟨t, _, ha⟩
    exact ⟨⟨_, ha⟩, by rw [← h.keyed _ a ha]; rfl⟩
  · intro ⟨⟨k, ha⟩, hi⟩
    obtain rfl := h.keyed k a ha
    subst hi
    exact ⟨(ofLex (key a)).1, OrdMap.get_eq_some.mp ((h.times _ _).mpr ⟨a, ha⟩), ha⟩

/-- Rewriting entries under their keys leaves the files as they are. -/
theorem rewrite (h : Agree key m times) (hkeys : m'.entries.map (·.1) = m.entries.map (·.1))
    (hkeyed : ∀ k a, (k, a) ∈ m' → k = key a) :
    Agree key m' times ∧ ids key m' = ids key m := by
  have hids : ∀ n : OrdMap (τ ×ₗ ι) α, (∀ k a, (k, a) ∈ n → k = key a) →
      ids key n = (n.entries.map (·.1)).map fun k => (ofLex k).2 := by
    intro n hn
    rw [ids, List.map_map]
    apply List.map_congr_left
    intro e he
    simp [← hn e.1 e.2 he]
  have hmem : ∀ k, (∃ a, (k, a) ∈ m') ↔ ∃ a, (k, a) ∈ m := by
    intro k
    have hk : k ∈ m'.entries.map (·.1) ↔ k ∈ m.entries.map (·.1) := by rw [hkeys]
    simpa [OrdMap.mem_def] using hk
  exact ⟨⟨hkeyed, fun i t => by rw [h.times, hmem]⟩, by
    rw [hids m' hkeyed, hids m h.keyed, hkeys]⟩

end Agree

/-! ### New entries -/

theorem notMem_of_new (h : (ofLex (key a)).2 ∉ ids key m) (hkeyed : ∀ k b, (k, b) ∈ m → k = key b) :
    ∀ b, (key a, b) ∉ m := by
  intro b hb
  apply h
  rw [hkeyed _ b hb]
  exact mem_ids.mpr ⟨_, b, hb, rfl⟩

/-- Filing an entry with a new id. -/
theorem Agree.insert (h : Agree key m times) (hnew : (ofLex (key a)).2 ∉ ids key m) :
    Agree key (m.insert (key a) a) (times.insert (ofLex (key a)).2 (ofLex (key a)).1) := by
  constructor
  · intro k b hb
    rcases OrdMap.mem_of_mem_insert hb with heq | hold
    · obtain ⟨rfl, rfl⟩ := Prod.mk.inj heq
      rfl
    · exact h.keyed k b hold
  · intro j t
    by_cases hj : j = (ofLex (key a)).2
    · subst hj
      rw [OrdMap.get_insert_self]
      constructor
      · intro ht
        obtain rfl := Option.some.inj ht
        exact ⟨a, OrdMap.mem_insert_self⟩
      · intro ⟨b, hb⟩
        rcases OrdMap.mem_of_mem_insert hb with heq | hold
        · rw [← (Prod.mk.inj heq).1]
          rfl
        · refine absurd (mem_ids.mpr ⟨_, b, hold, ?_⟩) hnew
          rw [← h.keyed _ b hold]
          rfl
    · rw [OrdMap.get_insert_of_ne hj, h.times]
      have hne : toLex (t, j) ≠ key a := fun he => hj (by rw [← he]; rfl)
      constructor
      · intro ⟨b, hb⟩
        exact ⟨b, OrdMap.mem_insert_of_ne hb hne⟩
      · intro ⟨b, hb⟩
        rcases OrdMap.mem_of_mem_insert hb with heq | hold
        · exact absurd (Prod.mk.inj heq).1 hne
        · exact ⟨b, hold⟩

theorem ids_insert (h : Agree key m times) (hnew : (ofLex (key a)).2 ∉ ids key m) :
    (ids key (m.insert (key a) a)).Perm ((ofLex (key a)).2 :: ids key m) := by
  have hperm := OrdMap.entries_insert_perm (a := a) (notMem_of_new hnew h.keyed)
  exact hperm.map fun e => (ofLex (key e.2)).2

end Indexed
