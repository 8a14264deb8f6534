import Mathlib.Data.List.Sort
import Mathlib.Order.Defs.LinearOrder

/-! # Lists in strict order of a key

Such a list is determined by its members, and its part between two keys grows by one
element when the upper key moves to the next. -/

namespace Timeline

variable {α κ : Type*} [LinearOrder κ] {key : α → κ} {xs ys : List α} {lo hi mid : κ}

def Ascending (key : α → κ) (xs : List α) : Prop := xs.Pairwise (fun a b => key a < key b)

/-- The elements whose keys lie between two bounds. -/
def between (key : α → κ) (xs : List α) (lo hi : κ) : List α :=
  xs.filter (fun a => lo ≤ key a ∧ key a ≤ hi)

/-- `c` is the first element of `xs` beyond the key `k`. -/
structure IsNext (key : α → κ) (xs : List α) (k : κ) (c : α) : Prop where
  mem : c ∈ xs
  lt : k < key c
  least : ∀ a ∈ xs, k < key a → key c ≤ key a

theorem Ascending.ext (hx : Ascending key xs) (hy : Ascending key ys)
    (h : ∀ a, a ∈ xs ↔ a ∈ ys) : xs = ys :=
  have : Std.Irrefl (fun a b : α => key a < key b) := ⟨fun _ => lt_irrefl _⟩
  have : Std.Antisymm (fun a b : α => key a < key b) :=
    ⟨fun _ _ hab hba => absurd hba (lt_asymm hab)⟩
  List.Pairwise.eq_of_mem_iff hx hy h

theorem Ascending.filter (p : α → Bool) (h : Ascending key xs) : Ascending key (xs.filter p) :=
  List.Pairwise.sublist List.filter_sublist h

theorem Ascending.append (hx : Ascending key xs) (hy : Ascending key ys)
    (h : ∀ a ∈ xs, ∀ b ∈ ys, key a < key b) : Ascending key (xs ++ ys) :=
  List.pairwise_append.mpr ⟨hx, hy, h⟩

theorem Ascending.between (h : Ascending key xs) (lo hi : κ) :
    Ascending key (between key xs lo hi) := h.filter _

/-- Elements further on have larger keys. -/
theorem Ascending.getElem_lt (h : Ascending key xs) {i j : ℕ} {a b : α} (hi : xs[i]? = some a)
    (hj : xs[j]? = some b) : i < j ↔ key a < key b := by
  obtain ⟨hi', rfl⟩ := List.getElem?_eq_some_iff.mp hi
  obtain ⟨hj', rfl⟩ := List.getElem?_eq_some_iff.mp hj
  have hlt := fun i j hi hj hij => List.pairwise_iff_getElem.mp h i j hi hj hij
  constructor
  · exact hlt i j hi' hj'
  · intro hab
    by_contra hn
    rcases Nat.eq_or_lt_of_le (Nat.le_of_not_lt hn) with he | he
    · subst he
      exact lt_irrefl _ hab
    · exact lt_asymm hab (hlt j i hj' hi' he)

theorem Ascending.eq_of_key_eq (h : Ascending key xs) {a b : α} (ha : a ∈ xs) (hb : b ∈ xs)
    (hkey : key a = key b) : a = b := by
  obtain ⟨i, hi⟩ := List.mem_iff_getElem?.mp ha
  obtain ⟨j, hj⟩ := List.mem_iff_getElem?.mp hb
  have h1 := (h.getElem_lt hi hj).not.mpr (by simp [hkey])
  have h2 := (h.getElem_lt hj hi).not.mpr (by simp [hkey])
  obtain rfl : i = j := by omega
  exact Option.some.inj (hi.symm.trans hj)

theorem Ascending.nodup (h : Ascending key xs) : xs.Nodup :=
  List.Pairwise.imp (fun hab heq => (hab.trans_eq (congrArg key heq.symm)).false) h

/-- What is left once the elements up to a key are taken lies beyond it. -/
theorem Ascending.lt_of_mem_dropWhile (h : Ascending key xs) {k : κ} {a : α}
    (ha : a ∈ xs.dropWhile (fun b => key b ≤ k)) : k < key a := by
  induction xs with
  | nil => cases ha
  | cons b xs ih =>
      obtain ⟨hb, hxs⟩ := List.pairwise_cons.mp h
      by_cases hk : key b ≤ k
      · rw [List.dropWhile_cons_of_pos (by simpa using hk)] at ha
        exact ih hxs ha
      · rw [List.dropWhile_cons_of_neg (by simpa using hk)] at ha
        rcases List.mem_cons.mp ha with rfl | ha
        · exact not_le.mp hk
        · exact (not_le.mp hk).trans (hb a ha)

@[simp] theorem mem_between {a : α} :
    a ∈ between key xs lo hi ↔ a ∈ xs ∧ lo ≤ key a ∧ key a ≤ hi := by
  simp [between]

theorem between_sublist : (between key xs lo hi).Sublist xs := List.filter_sublist

/-- The elements before an inner bound come first. -/
theorem between_split (h : Ascending key xs) (hlo : lo ≤ mid) :
    between key xs lo hi =
      (between key xs lo hi).filter (fun a => key a < mid) ++ between key xs mid hi := by
  apply (h.between lo hi).ext
  · apply ((h.between lo hi).filter _).append (h.between mid hi)
    intro a ha b hb
    have hmid : key a < mid := by simpa using (List.mem_filter.mp ha).2
    exact hmid.trans_le (mem_between.mp hb).2.1
  · intro a
    simp only [List.mem_append, List.mem_filter, mem_between, decide_eq_true_eq]
    constructor
    · intro ha
      rcases lt_or_ge (key a) mid with hm | hm
      · exact Or.inl ⟨ha, hm⟩
      · exact Or.inr ⟨ha.1, hm, ha.2.2⟩
    · rintro (⟨ha, -⟩ | ⟨hx, hm, hle⟩)
      · exact ha
      · exact ⟨hx, hlo.trans hm, hle⟩

/-- A lower upper bound keeps the elements that come first. -/
theorem between_isPrefix (h : Ascending key xs) (hhi : mid ≤ hi) :
    between key xs lo mid <+: between key xs lo hi := by
  refine ⟨(between key xs lo hi).filter (fun a => mid < key a), ?_⟩
  refine (((h.between lo mid).append ((h.between lo hi).filter _) ?_).ext (h.between lo hi) ?_)
  · intro a ha b hb
    have hmid : mid < key b := by simpa using (List.mem_filter.mp hb).2
    exact (mem_between.mp ha).2.2.trans_lt hmid
  · intro a
    simp only [List.mem_append, List.mem_filter, mem_between, decide_eq_true_eq]
    constructor
    · rintro (⟨hx, hl, hle⟩ | ⟨ha, -⟩)
      · exact ⟨hx, hl, hle.trans hhi⟩
      · exact ha
    · intro ha
      rcases le_or_gt (key a) mid with hm | hm
      · exact Or.inl ⟨ha.1, ha.2.1, hm⟩
      · exact Or.inr ⟨ha, hm⟩

/-- Up to the next element there is one more. -/
theorem between_next {k : κ} {c : α} (h : Ascending key xs) (hc : IsNext key xs k c)
    (hlo : lo ≤ key c) : between key xs lo (key c) = between key xs lo k ++ [c] := by
  apply (h.between lo (key c)).ext
  · apply (h.between lo k).append (List.pairwise_singleton _ _)
    intro a ha b hb
    obtain rfl := List.mem_singleton.mp hb
    exact (mem_between.mp ha).2.2.trans_lt hc.lt
  · intro a
    simp only [List.mem_append, mem_between, List.mem_singleton]
    constructor
    · rintro ⟨hx, hl, hle⟩
      rcases le_or_gt (key a) k with hk | hk
      · exact Or.inl ⟨hx, hl, hk⟩
      · exact Or.inr (h.eq_of_key_eq hx hc.mem (le_antisymm hle (hc.least a hx hk)))
    · rintro (⟨hx, hl, hk⟩ | rfl)
      · exact ⟨hx, hl, hk.trans hc.lt.le⟩
      · exact ⟨hc.mem, hlo, le_rfl⟩

/-- The elements up to the one at an index are those up to its key. -/
theorem take_succ_between {i : ℕ} {c : α} (h : Ascending key xs)
    (hc : (between key xs lo hi)[i]? = some c) :
    (between key xs lo hi).take (i + 1) = between key xs lo (key c) := by
  have hb := h.between lo hi
  have hm := mem_between.mp (List.mem_of_getElem? hc)
  apply Ascending.ext (List.Pairwise.sublist (List.take_sublist _ _) hb) (h.between lo (key c))
  intro a
  rw [List.mem_take_iff_getElem, mem_between]
  constructor
  · rintro ⟨j, hj, rfl⟩
    have hjl : j < (between key xs lo hi).length := lt_of_lt_of_le hj (min_le_right _ _)
    have hmj := mem_between.mp (List.getElem_mem hjl)
    have hle := (hb.getElem_lt hc (List.getElem?_eq_getElem hjl)).not.mp
      (by have := lt_of_lt_of_le hj (min_le_left _ _); omega)
    exact ⟨hmj.1, hmj.2.1, not_lt.mp hle⟩
  · rintro ⟨hx, hl, hle⟩
    have hma : a ∈ between key xs lo hi := mem_between.mpr ⟨hx, hl, hle.trans hm.2.2⟩
    obtain ⟨j, hj, rfl⟩ := List.mem_iff_getElem.mp hma
    have hji := (hb.getElem_lt hc (List.getElem?_eq_getElem hj)).not.mpr (not_lt.mpr hle)
    exact ⟨j, by omega, rfl⟩

/-- Inside a part of the list the next element is the next of the whole list. -/
theorem isNext_getElem {i : ℕ} {b c : α} (h : Ascending key xs)
    (hb : (between key xs lo hi)[i]? = some b) (hc : (between key xs lo hi)[i + 1]? = some c) :
    IsNext key xs (key b) c := by
  have hasc := h.between lo hi
  have hmb := mem_between.mp (List.mem_of_getElem? hb)
  have hmc := mem_between.mp (List.mem_of_getElem? hc)
  refine ⟨hmc.1, (hasc.getElem_lt hb hc).mp (Nat.lt_succ_self i), ?_⟩
  intro a ha hlt
  by_contra hn
  have hma : a ∈ between key xs lo hi :=
    mem_between.mpr ⟨ha, hmb.2.1.trans hlt.le, (not_le.mp hn).le.trans hmc.2.2⟩
  obtain ⟨j, hj⟩ := List.mem_iff_getElem?.mp hma
  have h1 := (hasc.getElem_lt hb hj).mpr hlt
  have h2 := (hasc.getElem_lt hj hc).mpr (not_le.mp hn)
  omega

/-- The first element of a part of the list is the next after everything before it. -/
theorem isNext_head {k : κ} {c : α} (h : Ascending key xs)
    (hc : (between key xs lo hi)[0]? = some c) (hk : k < key c)
    (hlo : ∀ a ∈ xs, k < key a → lo ≤ key a) : IsNext key xs k c := by
  have hasc := h.between lo hi
  have hmc := mem_between.mp (List.mem_of_getElem? hc)
  refine ⟨hmc.1, hk, ?_⟩
  intro a ha hlt
  by_contra hn
  have hma : a ∈ between key xs lo hi :=
    mem_between.mpr ⟨ha, hlo a ha hlt, (not_le.mp hn).le.trans hmc.2.2⟩
  obtain ⟨j, hj⟩ := List.mem_iff_getElem?.mp hma
  have h2 := (hasc.getElem_lt hj hc).mpr (not_le.mp hn)
  omega

/-! ### Upserts -/

/-- Puts an element in its place, or rewrites the one already there. -/
def upsert (key : α → κ) (merge : α → α → α) (a : α) : List α → List α
  | [] => [a]
  | x :: xs =>
    if key a < key x then a :: x :: xs
    else if key a = key x then merge a x :: xs
    else x :: upsert key merge a xs

variable {merge : α → α → α} {a b : α}

theorem mem_of_mem_upsert (h : b ∈ upsert key merge a xs) :
    b = a ∨ (∃ x ∈ xs, key x = key a ∧ b = merge a x) ∨ b ∈ xs := by
  induction xs with
  | nil => exact Or.inl (List.mem_singleton.mp h)
  | cons x xs ih =>
      unfold upsert at h
      split_ifs at h with hlt heq
      · exact (List.mem_cons.mp h).imp_right Or.inr
      · rcases List.mem_cons.mp h with h | h
        · exact Or.inr (Or.inl ⟨x, List.mem_cons_self, heq.symm, h⟩)
        · exact Or.inr (Or.inr (List.mem_cons_of_mem x h))
      · rcases List.mem_cons.mp h with h | h
        · exact Or.inr (Or.inr (h ▸ List.mem_cons_self))
        · rcases ih h with h | ⟨y, hy, hkey, hb⟩ | h
          · exact Or.inl h
          · exact Or.inr (Or.inl ⟨y, List.mem_cons_of_mem x hy, hkey, hb⟩)
          · exact Or.inr (Or.inr (List.mem_cons_of_mem x h))

/-- An upsert adds its key to those there are. -/
theorem exists_key_upsert (hmerge : ∀ x, key x = key a → key (merge a x) = key a) {k : κ} :
    (∃ y ∈ upsert key merge a xs, key y = k) ↔ key a = k ∨ ∃ x ∈ xs, key x = k := by
  induction xs with
  | nil => simp [upsert]
  | cons x xs ih =>
      unfold upsert
      by_cases hlt : key a < key x
      · rw [if_pos hlt]
        simp
      by_cases heq : key a = key x
      · rw [if_neg hlt, if_pos heq]
        simp [hmerge x heq.symm, ← heq]
      · rw [if_neg hlt, if_neg heq, List.exists_mem_cons_iff, ih, List.exists_mem_cons_iff]
        exact or_left_comm

/-- An upsert of a new key adds its element. -/
theorem mem_upsert_of_new (h : ∀ x ∈ xs, key x ≠ key a) :
    b ∈ upsert key merge a xs ↔ b = a ∨ b ∈ xs := by
  induction xs with
  | nil => simp [upsert]
  | cons x xs ih =>
      have hx : key a ≠ key x := (h x List.mem_cons_self).symm
      unfold upsert
      by_cases hlt : key a < key x
      · rw [if_pos hlt, List.mem_cons]
      · rw [if_neg hlt, if_neg hx, List.mem_cons, List.mem_cons,
          ih fun y hy => h y (List.mem_cons_of_mem x hy)]
        exact or_left_comm

/-- An upsert that keeps what is there does nothing when its key is. -/
theorem Ascending.upsert_existing (h : Ascending key xs) (hkey : ∃ x ∈ xs, key x = key a) :
    Timeline.upsert key (fun _ existing => existing) a xs = xs := by
  induction xs with
  | nil => simp at hkey
  | cons x xs ih =>
      obtain ⟨hx, hxs⟩ := List.pairwise_cons.mp h
      unfold Timeline.upsert
      by_cases heq : key a = key x
      · rw [if_neg heq.not_lt, if_pos heq]
      · obtain ⟨y, hy, hya⟩ := hkey
        rcases List.mem_cons.mp hy with rfl | hy
        · exact absurd hya.symm heq
        · have hlt : key x < key a := hya ▸ hx y hy
          rw [if_neg hlt.not_gt, if_neg heq, ih hxs ⟨y, hy, hya⟩]

/-- An upsert finds the old element, if any, by its key. -/
theorem find?_upsert (hmerge : ∀ x, key x = key a → key (merge a x) = key a)
    (h : Ascending key xs) (k : κ) :
    (upsert key merge a xs).find? (fun x => key x = k) =
      if k = key a then
        some (((xs.find? fun x => key x = k).map (merge a)).getD a)
      else xs.find? (fun x => key x = k) := by
  induction xs with
  | nil =>
      by_cases hk : k = key a
      · simp [upsert, hk]
      · simp [upsert, hk, Ne.symm hk]
  | cons x xs ih =>
      obtain ⟨hx, hxs⟩ := List.pairwise_cons.mp h
      by_cases hlt : key a < key x
      · have hnone : (x :: xs).find? (fun y => key y = key a) = none := by
          rw [List.find?_eq_none]
          intro y hy
          rcases List.mem_cons.mp hy with rfl | hy
          · simpa using hlt.ne'
          · simpa using (hlt.trans (hx y hy)).ne'
        rw [upsert, if_pos hlt]
        by_cases hk : k = key a
        · subst hk
          rw [if_pos rfl, hnone, List.find?_cons_of_pos (by simp)]
          rfl
        · rw [if_neg hk, List.find?_cons_of_neg (by simpa using Ne.symm hk)]
      by_cases heq : key a = key x
      · have hkey := hmerge x heq.symm
        rw [upsert, if_neg hlt, if_pos heq]
        by_cases hk : k = key a
        · subst hk
          rw [if_pos rfl, List.find?_cons_of_pos (by simpa using hkey),
            List.find?_cons_of_pos (by simpa using heq.symm)]
          rfl
        · rw [if_neg hk, List.find?_cons_of_neg (by simpa [hkey] using Ne.symm hk),
            List.find?_cons_of_neg (by simpa [← heq] using Ne.symm hk)]
      · rw [upsert, if_neg hlt, if_neg heq]
        by_cases hxk : key x = k
        · subst hxk
          rw [if_neg (Ne.symm heq), List.find?_cons_of_pos (by simp),
            List.find?_cons_of_pos (by simp)]
        · rw [List.find?_cons_of_neg (by simpa using hxk), ih hxs,
            List.find?_cons_of_neg (by simpa using hxk)]

theorem Ascending.upsert (hmerge : ∀ x, key x = key a → key (merge a x) = key a)
    (h : Ascending key xs) : Ascending key (upsert key merge a xs) := by
  induction xs with
  | nil => exact List.pairwise_singleton _ _
  | cons x xs ih =>
      obtain ⟨hx, hxs⟩ := List.pairwise_cons.mp h
      unfold Timeline.upsert
      split_ifs with hlt heq
      · refine List.pairwise_cons.mpr ⟨?_, h⟩
        intro y hy
        rcases List.mem_cons.mp hy with rfl | hy
        · exact hlt
        · exact hlt.trans (hx y hy)
      · refine List.pairwise_cons.mpr ⟨?_, hxs⟩
        intro y hy
        rw [hmerge x heq.symm, heq]
        exact hx y hy
      · refine List.pairwise_cons.mpr ⟨?_, ih hxs⟩
        intro y hy
        rcases mem_of_mem_upsert hy with rfl | ⟨z, hz, hkey, rfl⟩ | hy
        · exact lt_of_le_of_ne (not_lt.mp hlt) (Ne.symm heq)
        · rw [hmerge z hkey]
          exact lt_of_le_of_ne (not_lt.mp hlt) (Ne.symm heq)
        · exact hx y hy

/-- A key's element is the one found by it. -/
theorem Ascending.find?_eq_some (h : Ascending key xs) {k : κ} :
    xs.find? (fun x => key x = k) = some a ↔ a ∈ xs ∧ key a = k := by
  constructor
  · intro hfind
    exact ⟨List.mem_of_find?_eq_some hfind, by simpa using List.find?_some hfind⟩
  · rintro ⟨ha, rfl⟩
    cases hfind : xs.find? (fun x => key x = key a) with
    | none =>
        have hne := List.find?_eq_none.mp hfind a ha
        simp at hne
    | some b =>
        have hb : key b = key a := by simpa using List.find?_some hfind
        rw [h.eq_of_key_eq (List.mem_of_find?_eq_some hfind) ha hb]

/-! ### Neighbours -/

/-- The first element has the least key. -/
theorem Ascending.head?_eq_some (h : Ascending key xs) :
    xs.head? = some a ↔ a ∈ xs ∧ ∀ b ∈ xs, key a ≤ key b := by
  cases xs with
  | nil => simp
  | cons x xs =>
      have hx := (List.pairwise_cons.mp h).1
      rw [List.head?_cons, Option.some.injEq]
      constructor
      · rintro rfl
        refine ⟨List.mem_cons_self, fun b hb => ?_⟩
        rcases List.mem_cons.mp hb with rfl | hb
        · exact le_rfl
        · exact (hx b hb).le
      · rintro ⟨ha, hleast⟩
        rcases List.mem_cons.mp ha with rfl | ha
        · rfl
        · exact absurd (hx a ha) (not_lt.mpr (hleast x List.mem_cons_self))

/-- The last element has the greatest key. -/
theorem Ascending.getLast?_eq_some (h : Ascending key xs) :
    xs.getLast? = some a ↔ a ∈ xs ∧ ∀ b ∈ xs, key b ≤ key a := by
  rcases List.eq_nil_or_concat xs with rfl | ⟨ys, y, rfl⟩
  · simp
  · rw [List.concat_eq_append] at h ⊢
    have hy : ∀ b ∈ ys, key b < key y := fun b hb =>
      (List.pairwise_append.mp h).2.2 b hb y (List.mem_singleton_self y)
    rw [List.getLast?_concat, Option.some.injEq]
    constructor
    · rintro rfl
      refine ⟨by simp, fun b hb => ?_⟩
      rcases List.mem_append.mp hb with hb | hb
      · exact (hy b hb).le
      · rw [List.mem_singleton.mp hb]
    · rintro ⟨ha, hgreatest⟩
      rcases List.mem_append.mp ha with ha | ha
      · exact absurd (hy a ha) (not_lt.mpr (hgreatest y (by simp)))
      · exact (List.mem_singleton.mp ha).symm

/-- One of the first `n` elements has fewer than `n` elements before it. -/
theorem mem_take_iff {R : α → α → Prop} [DecidableRel R] {zs : List α} (hR : ∀ x y, R x y → ¬ R y x)
    (h : zs.Pairwise R) {n : ℕ} (ha : a ∈ zs) :
    a ∈ zs.take n ↔ (zs.filter fun x => R x a).length < n := by
  induction zs generalizing n with
  | nil => cases ha
  | cons z zs ih =>
      obtain ⟨hz, hzs⟩ := List.pairwise_cons.mp h
      cases n with
      | zero => simp
      | succ n =>
          rcases List.mem_cons.mp ha with rfl | ha'
          · have hnone : (a :: zs).filter (fun x => R x a) = [] := by
              rw [List.filter_eq_nil_iff]
              intro x hx
              rcases List.mem_cons.mp hx with rfl | hx
              · simpa using fun hself => hR x x hself hself
              · simpa using hR a x (hz x hx)
            simp [hnone]
          · have hne : a ≠ z := by
              rintro rfl
              exact hR a a (hz a ha') (hz a ha')
            rw [List.take_succ_cons, List.mem_cons, or_iff_right hne, ih hzs ha',
              List.filter_cons_of_pos (by simpa using hz a ha'), List.length_cons]
            omega

omit [LinearOrder κ] in
theorem exists_mem_take_iff {R : κ → κ → Prop} [DecidableRel R] {zs : List α}
    (hR : ∀ x y, R x y → ¬ R y x) (h : zs.Pairwise fun x y => R (key x) (key y)) {n : ℕ} {k : κ} :
    (∃ a ∈ zs.take n, key a = k) ↔
      (∃ a ∈ zs, key a = k) ∧ (zs.filter fun x => R (key x) k).length < n := by
  constructor
  · rintro ⟨a, ha, rfl⟩
    have ha' := List.mem_of_mem_take ha
    exact ⟨⟨a, ha', rfl⟩, (mem_take_iff (fun x y => hR (key x) (key y)) h ha').mp ha⟩
  · rintro ⟨⟨a, ha, rfl⟩, hlt⟩
    exact ⟨a, (mem_take_iff (fun x y => hR (key x) (key y)) h ha).mpr hlt, rfl⟩

end Timeline
