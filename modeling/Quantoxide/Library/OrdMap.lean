import Mathlib.Algebra.BigOperators.Group.List.Basic
import Mathlib.Data.List.Forall2
import Mathlib.Data.List.Induction
import Mathlib.Order.Lattice
import Mathlib.Tactic.Abel

/-! # Ordered maps

A finite map kept as its list of entries in strictly ascending order of keys. The order is
part of the value, so a key has one entry. -/

structure OrdMap (κ α : Type) [LinearOrder κ] where
  entries : List (κ × α)
  sorted : entries.Pairwise (fun a b => a.1 < b.1)

namespace OrdMap

variable {κ α : Type} [LinearOrder κ]

instance [DecidableEq α] : DecidableEq (OrdMap κ α) := fun m n =>
  decidable_of_iff (m.entries = n.entries)
    ⟨fun h => by cases m; cases n; simpa using h, fun h => h ▸ rfl⟩

def empty : OrdMap κ α := ⟨[], List.Pairwise.nil⟩

def insertEntry (k : κ) (a : α) : List (κ × α) → List (κ × α)
  | [] => [(k, a)]
  | e :: es =>
    if k < e.1 then (k, a) :: e :: es
    else if k = e.1 then (k, a) :: es
    else e :: insertEntry k a es

theorem mem_insertEntry_of {k : κ} {a : α} {es : List (κ × α)} {e : κ × α}
    (h : e ∈ insertEntry k a es) : e = (k, a) ∨ e ∈ es := by
  induction es with
  | nil => simpa [insertEntry] using h
  | cons d es ih =>
      unfold insertEntry at h
      split_ifs at h with hlt heq
      · simpa using h
      · rcases List.mem_cons.mp h with h | h
        · exact Or.inl h
        · exact Or.inr (List.mem_cons_of_mem d h)
      · rcases List.mem_cons.mp h with h | h
        · exact Or.inr (h ▸ List.mem_cons_self)
        · exact (ih h).imp_right (List.mem_cons_of_mem d)

theorem insertEntry_sorted {k : κ} {a : α} {es : List (κ × α)}
    (h : es.Pairwise (fun a b => a.1 < b.1)) :
    (insertEntry k a es).Pairwise (fun a b => a.1 < b.1) := by
  induction es with
  | nil => exact List.pairwise_singleton _ _
  | cons d es ih =>
      obtain ⟨hd, hes⟩ := List.pairwise_cons.mp h
      unfold insertEntry
      split_ifs with hlt heq
      · refine List.pairwise_cons.mpr ⟨?_, h⟩
        intro e he
        rcases List.mem_cons.mp he with rfl | he
        · exact hlt
        · exact hlt.trans (hd e he)
      · exact List.pairwise_cons.mpr ⟨fun e he => heq ▸ hd e he, hes⟩
      · refine List.pairwise_cons.mpr ⟨?_, ih hes⟩
        intro e he
        rcases mem_insertEntry_of he with rfl | he
        · exact lt_of_le_of_ne (not_lt.mp hlt) (Ne.symm heq)
        · exact hd e he

theorem mem_insertEntry_self (k : κ) (a : α) (es : List (κ × α)) :
    (k, a) ∈ insertEntry k a es := by
  induction es with
  | nil => simp [insertEntry]
  | cons d es ih =>
      simp only [insertEntry]
      split_ifs
      · exact List.mem_cons_self
      · exact List.mem_cons_self
      · exact List.mem_cons_of_mem d ih

theorem mem_insertEntry_of_ne {k : κ} (a : α) {es : List (κ × α)} {e : κ × α} (h : e ∈ es)
    (hk : e.1 ≠ k) : e ∈ insertEntry k a es := by
  induction es with
  | nil => simp at h
  | cons d es ih =>
      simp only [insertEntry]
      split_ifs with hlt heq
      · exact List.mem_cons_of_mem _ h
      · rcases List.mem_cons.mp h with rfl | h
        · exact absurd heq.symm hk
        · exact List.mem_cons_of_mem _ h
      · rcases List.mem_cons.mp h with rfl | h
        · exact List.mem_cons_self
        · exact List.mem_cons_of_mem _ (ih h)

/-- Inserts an entry, replacing the one of the same key. -/
def insert (m : OrdMap κ α) (k : κ) (a : α) : OrdMap κ α :=
  ⟨insertEntry k a m.entries, insertEntry_sorted m.sorted⟩

def get (m : OrdMap κ α) (k : κ) : Option α := (m.entries.find? (fun e => e.1 = k)).map (·.2)

/-- Removes the entry of a key. -/
def erase (m : OrdMap κ α) (k : κ) : OrdMap κ α where
  entries := m.entries.filter fun e => e.1 ≠ k
  sorted := m.sorted.filter _

/-- Writes through the reference to the value of `k`, when there is one. -/
def set (m : OrdMap κ α) (k : κ) (a : α) : OrdMap κ α where
  entries := m.entries.map fun e => (e.1, if e.1 = k then a else e.2)
  sorted := by
    rw [List.pairwise_map]
    exact m.sorted

def size (m : OrdMap κ α) : ℕ := m.entries.length

def isEmpty (m : OrdMap κ α) : Bool := m.entries.isEmpty

/-- The values from the last key to the first. -/
def valuesDesc (m : OrdMap κ α) : List α := (m.entries.map (·.2)).reverse

/-- The map with its values written over, from the last key to the first. -/
def withValuesDesc (m : OrdMap κ α) (vs : List α) : OrdMap κ α where
  entries := List.zipWith (fun e v => (e.1, v)) m.entries vs.reverse
  sorted := by
    have h := m.sorted
    generalize m.entries = es at h
    induction es generalizing vs with
    | nil => simp
    | cons e es ih =>
        obtain ⟨he, hes⟩ := List.pairwise_cons.mp h
        cases hv : vs.reverse with
        | nil => simp
        | cons v ws =>
            have ihw := ih ws.reverse hes
            rw [List.reverse_reverse] at ihw
            refine List.pairwise_cons.mpr ⟨?_, ihw⟩
            intro x hx
            obtain ⟨i, hi, rfl⟩ := List.mem_iff_getElem.mp hx
            simp only [List.getElem_zipWith]
            exact he _ (List.getElem_mem _)

/-- Applies a fallible function to each value, in ascending order of keys. -/
def traverseEntries {ε β : Type} (f : κ → α → Except ε β) :
    List (κ × α) → Except ε (List (κ × β))
  | [] => .ok []
  | e :: es =>
    match f e.1 e.2 with
    | .error err => .error err
    | .ok b =>
      match traverseEntries f es with
      | .error err => .error err
      | .ok rest => .ok ((e.1, b) :: rest)

omit [LinearOrder κ] in
theorem traverseEntries_forall₂ {ε β : Type} {f : κ → α → Except ε β} {es : List (κ × α)}
    {es' : List (κ × β)} (h : traverseEntries f es = .ok es') :
    List.Forall₂ (fun e e' => e'.1 = e.1 ∧ f e.1 e.2 = .ok e'.2) es es' := by
  induction es generalizing es' with
  | nil =>
      cases h
      exact List.Forall₂.nil
  | cons e es ih =>
      unfold traverseEntries at h
      cases hb : f e.1 e.2 with
      | error err => simp [hb] at h
      | ok b =>
          cases hrest : traverseEntries f es with
          | error err => simp [hb, hrest] at h
          | ok rest =>
              simp only [hb, hrest, Except.ok.injEq] at h
              subst h
              exact List.Forall₂.cons ⟨rfl, hb⟩ (ih hrest)

omit [LinearOrder κ] in
theorem map_fst_of_forall₂ {β : Type} {R : κ × α → κ × β → Prop} {es : List (κ × α)}
    {es' : List (κ × β)} (h : List.Forall₂ R es es') (hR : ∀ e e', R e e' → e'.1 = e.1) :
    es'.map (·.1) = es.map (·.1) := by
  induction h with
  | nil => rfl
  | cons hr _ ih => rw [List.map_cons, List.map_cons, hR _ _ hr, ih]

omit [LinearOrder κ] in
theorem exists_mem_of_forall₂_left {β : Type} {R : κ × α → κ × β → Prop} {es : List (κ × α)}
    {es' : List (κ × β)} (h : List.Forall₂ R es es') {e : κ × α} (he : e ∈ es) :
    ∃ e' ∈ es', R e e' := by
  induction h with
  | nil => simp at he
  | cons hr _ ih =>
      rcases List.mem_cons.mp he with rfl | he
      · exact ⟨_, List.mem_cons_self, hr⟩
      · obtain ⟨e', he', hr'⟩ := ih he
        exact ⟨e', List.mem_cons_of_mem _ he', hr'⟩

omit [LinearOrder κ] in
theorem exists_mem_of_forall₂_right {β : Type} {R : κ × α → κ × β → Prop} {es : List (κ × α)}
    {es' : List (κ × β)} (h : List.Forall₂ R es es') {e' : κ × β} (he : e' ∈ es') :
    ∃ e ∈ es, R e e' := by
  induction h with
  | nil => simp at he
  | cons hr _ ih =>
      rcases List.mem_cons.mp he with rfl | he
      · exact ⟨_, List.mem_cons_self, hr⟩
      · obtain ⟨e, he, hr'⟩ := ih he
        exact ⟨e, List.mem_cons_of_mem _ he, hr'⟩

theorem sorted_of_keys {β : Type} {es : List (κ × α)} {es' : List (κ × β)}
    (h : es'.map (·.1) = es.map (·.1)) (hs : es.Pairwise (fun a b => a.1 < b.1)) :
    es'.Pairwise (fun a b => a.1 < b.1) := by
  have hkeys : (es.map (·.1)).Pairwise (· < ·) := List.pairwise_map.mpr hs
  rw [← h] at hkeys
  exact List.pairwise_map.mp hkeys

def traverse {ε β : Type} (f : κ → α → Except ε β) (m : OrdMap κ α) : Except ε (OrdMap κ β) :=
  match h : traverseEntries f m.entries with
  | .error err => .error err
  | .ok es =>
    .ok ⟨es, sorted_of_keys (map_fst_of_forall₂ (traverseEntries_forall₂ h) fun _ _ hr => hr.1)
      m.sorted⟩

instance : Membership (κ × α) (OrdMap κ α) := ⟨fun m e => e ∈ m.entries⟩

theorem mem_def {m : OrdMap κ α} {e : κ × α} : e ∈ m ↔ e ∈ m.entries := Iff.rfl

variable {m : OrdMap κ α} {k : κ} {a b : α} {e : κ × α}

/-! ### One entry for each key -/

theorem eq_of_mem (h : (k, a) ∈ m) (h' : (k, b) ∈ m) : a = b := by
  have hs := m.sorted
  rw [mem_def] at h h'
  generalize m.entries = es at h h' hs
  induction es with
  | nil => simp at h
  | cons d es ih =>
      obtain ⟨hd, hes⟩ := List.pairwise_cons.mp hs
      rcases List.mem_cons.mp h with rfl | h1
      · rcases List.mem_cons.mp h' with he | h2
        · exact (congrArg Prod.snd he).symm
        · exact absurd (hd _ h2) (lt_irrefl k)
      · rcases List.mem_cons.mp h' with rfl | h2
        · exact absurd (hd _ h1) (lt_irrefl k)
        · exact ih h1 h2 hes

theorem get_eq_some : m.get k = some a ↔ (k, a) ∈ m := by
  unfold get
  constructor
  · intro h
    obtain ⟨e, he, rfl⟩ := Option.map_eq_some_iff.mp h
    obtain rfl : e.1 = k := by simpa using List.find?_some he
    exact List.mem_of_find?_eq_some he
  · intro h
    have hs : (m.entries.find? (fun e => e.1 = k)).isSome := by
      rw [List.find?_isSome]
      exact ⟨(k, a), h, by simp⟩
    obtain ⟨e, he⟩ := Option.isSome_iff_exists.mp hs
    obtain rfl : e.1 = k := by simpa using List.find?_some he
    rw [he, Option.map_some, eq_of_mem (List.mem_of_find?_eq_some he) h]

theorem get_eq_none : m.get k = none ↔ ∀ a, (k, a) ∉ m := by
  rw [Option.eq_none_iff_forall_ne_some]
  simp only [ne_eq, get_eq_some]

/-! ### Traversal -/

variable {ε β : Type} {f : κ → α → Except ε β} {m' : OrdMap κ β}

theorem traverse_eq_ok (h : m.traverse f = .ok m') :
    traverseEntries f m.entries = .ok m'.entries := by
  unfold traverse at h
  split at h
  · cases h
  · cases h
    assumption

theorem get_traverse (h : m.traverse f = .ok m') {b : β} :
    m'.get k = some b ↔ ∃ a, m.get k = some a ∧ f k a = .ok b := by
  have hrel := traverseEntries_forall₂ (traverse_eq_ok h)
  simp only [get_eq_some, mem_def]
  constructor
  · intro hb
    obtain ⟨e, he, hk, hf⟩ := exists_mem_of_forall₂_right hrel hb
    obtain ⟨j, a⟩ := e
    obtain rfl : k = j := hk
    exact ⟨a, he, hf⟩
  · rintro ⟨a, ha, hf⟩
    obtain ⟨e, he, hk, hf'⟩ := exists_mem_of_forall₂_left hrel ha
    obtain ⟨j, c⟩ := e
    obtain rfl : j = k := hk
    obtain rfl : b = c := Except.ok.inj (hf.symm.trans hf')
    exact he

omit [LinearOrder κ] in
theorem traverseEntries_isOk {es : List (κ × α)} (h : ∀ e ∈ es, ∃ b, f e.1 e.2 = .ok b) :
    ∃ es', traverseEntries f es = .ok es' := by
  induction es with
  | nil => exact ⟨[], rfl⟩
  | cons e es ih =>
      obtain ⟨b, hb⟩ := h e List.mem_cons_self
      obtain ⟨es', hes⟩ := ih fun d hd => h d (List.mem_cons_of_mem e hd)
      exact ⟨(e.1, b) :: es', by simp [traverseEntries, hb, hes]⟩

/-- A traversal that succeeds at each entry succeeds. -/
theorem traverse_isOk (h : ∀ e ∈ m, ∃ b, f e.1 e.2 = .ok b) : ∃ m', m.traverse f = .ok m' := by
  obtain ⟨es', hes⟩ := traverseEntries_isOk h
  unfold traverse
  split
  · rename_i err herr
    rw [hes] at herr
    cases herr
  · exact ⟨_, rfl⟩

/-! ### Insertion and writing -/

theorem mem_insert_self : (k, a) ∈ m.insert k a := mem_insertEntry_self k a m.entries

theorem mem_of_mem_insert (h : e ∈ m.insert k a) : e = (k, a) ∨ e ∈ m := mem_insertEntry_of h

theorem mem_insert_of_ne (h : e ∈ m) (hk : e.1 ≠ k) : e ∈ m.insert k a :=
  mem_insertEntry_of_ne a h hk

theorem get_insert_self : (m.insert k a).get k = some a := get_eq_some.mpr mem_insert_self

theorem get_insert_of_ne {j : κ} (h : j ≠ k) : (m.insert k a).get j = m.get j := by
  apply Option.ext
  intro b
  rw [get_eq_some, get_eq_some]
  constructor
  · intro hb
    rcases mem_of_mem_insert hb with he | hb
    · exact absurd (congrArg Prod.fst he) h
    · exact hb
  · intro hb
    exact mem_insert_of_ne hb h

theorem mem_erase : e ∈ m.erase k ↔ e ∈ m ∧ e.1 ≠ k := by
  simp [mem_def, erase]

theorem get_erase_self : (m.erase k).get k = none :=
  get_eq_none.mpr fun _ h => (mem_erase.mp h).2 rfl

theorem get_erase_of_ne {j : κ} (h : j ≠ k) : (m.erase k).get j = m.get j := by
  apply Option.ext
  intro b
  rw [get_eq_some, get_eq_some, mem_erase]
  exact and_iff_left h

/-- An insertion below every key puts the entry first. -/
theorem entries_insert_of_lt (h : ∀ e ∈ m, k < e.1) :
    (m.insert k a).entries = (k, a) :: m.entries := by
  have hlist : ∀ es : List (κ × α), (∀ e ∈ es, k < e.1) → insertEntry k a es = (k, a) :: es := by
    intro es hes
    cases es with
    | nil => rfl
    | cons d es => exact if_pos (hes d List.mem_cons_self)
  exact hlist m.entries h

/-- A new key adds one entry. -/
theorem entries_insert_perm (h : ∀ b, (k, b) ∉ m) :
    (m.insert k a).entries.Perm ((k, a) :: m.entries) := by
  have hlist : ∀ es : List (κ × α), (∀ b, (k, b) ∉ es) →
      (insertEntry k a es).Perm ((k, a) :: es) := by
    intro es hes
    induction es with
    | nil => exact List.Perm.refl _
    | cons d es ih =>
        have hne : k ≠ d.1 := by
          rintro rfl
          exact hes d.2 List.mem_cons_self
        simp only [insertEntry, hne, if_false]
        split_ifs
        · exact List.Perm.refl _
        · have htail := ih fun b hb => hes b (List.mem_cons_of_mem d hb)
          exact (htail.cons d).trans (List.Perm.swap _ _ _)
  exact hlist m.entries h

theorem size_insert_le : (m.insert k a).size ≤ m.size + 1 := by
  have hlist : ∀ es : List (κ × α), (insertEntry k a es).length ≤ es.length + 1 := by
    intro es
    induction es with
    | nil => simp [insertEntry]
    | cons d es ih =>
        simp only [insertEntry]
        split_ifs
        · simp
        · simp
        · simpa using ih
  exact hlist m.entries

theorem size_insert (h : m.get k = none) : (m.insert k a).size = m.size + 1 := by
  have hperm := entries_insert_perm (a := a) (get_eq_none.mp h)
  simpa [size] using hperm.length_eq

theorem mem_set : e ∈ m.set k a ↔ ∃ d ∈ m, e = (d.1, if d.1 = k then a else d.2) := by
  simp only [mem_def, set, List.mem_map, @eq_comm _ e]

omit [LinearOrder κ] in
theorem mem_zipWith_of_forall₂ {R : α → α → Prop} {es : List (κ × α)} {vs : List α}
    (h : List.Forall₂ R (es.map (·.2)) vs)
    (he : e ∈ List.zipWith (fun d v => (d.1, v)) es vs) : ∃ d ∈ es, e.1 = d.1 ∧ R d.2 e.2 := by
  induction es generalizing vs with
  | nil => simp at he
  | cons d es ih =>
      cases h with
      | cons hd hes =>
          rcases List.mem_cons.mp he with rfl | he
          · exact ⟨d, List.mem_cons_self, rfl, hd⟩
          · obtain ⟨d', hd', hk, hr⟩ := ih hes he
            exact ⟨d', List.mem_cons_of_mem d hd', hk, hr⟩

/-- An entry written over relates to the one it replaces. -/
theorem mem_withValuesDesc {R : α → α → Prop} {vs : List α} (h : List.Forall₂ R m.valuesDesc vs)
    (he : e ∈ m.withValuesDesc vs) : ∃ d ∈ m, e.1 = d.1 ∧ R d.2 e.2 := by
  have hrev := List.rel_reverse h
  rw [valuesDesc, List.reverse_reverse] at hrev
  exact mem_zipWith_of_forall₂ hrev he

theorem value_mem_of_mem_withValuesDesc {vs : List α} (he : e ∈ m.withValuesDesc vs) :
    e.2 ∈ vs := by
  obtain ⟨i, hi, rfl⟩ := List.mem_iff_getElem.mp he
  simp only [withValuesDesc, List.getElem_zipWith]
  exact List.mem_reverse.mp (List.getElem_mem _)

theorem mem_valuesDesc : a ∈ m.valuesDesc ↔ ∃ k, (k, a) ∈ m := by
  simp [valuesDesc, mem_def]

theorem nodup_keys (m : OrdMap κ α) : (m.entries.map (·.1)).Nodup :=
  List.pairwise_map.mpr (m.sorted.imp fun h => h.ne)

theorem isEmpty_iff : m.isEmpty = true ↔ m.entries = [] := List.isEmpty_iff

/-! ### Rebuilding -/

@[ext] theorem ext {m n : OrdMap κ α} (h : m.entries = n.entries) : m = n := by
  cases m
  cases n
  simpa using h

theorem ext_get {m n : OrdMap κ α} (h : ∀ k, m.get k = n.get k) : m = n := by
  have hmem : ∀ e, e ∈ m.entries ↔ e ∈ n.entries := by
    intro e
    have hget : m.get e.1 = some e.2 ↔ n.get e.1 = some e.2 := by rw [h]
    exact (get_eq_some.symm.trans hget).trans get_eq_some
  have hnodup : ∀ m : OrdMap κ α, m.entries.Nodup := fun m => m.sorted.imp fun hlt heq =>
    hlt.ne (congrArg Prod.fst heq)
  exact ext (((List.perm_ext_iff_of_nodup (hnodup m) (hnodup n)).mpr hmem).eq_of_pairwise
    (fun a b _ _ hab hba => absurd hab hba.asymm) m.sorted n.sorted)

/-- Writing the values of a map over it leaves it alone, and nothing else does. -/
theorem withValuesDesc_eq_self {vs : List α} (hlen : vs.length = m.valuesDesc.length) :
    m.withValuesDesc vs = m ↔ vs = m.valuesDesc := by
  have hlist : ∀ (es : List (κ × α)) (us : List α), us.length = es.length →
      (List.zipWith (fun d v => (d.1, v)) es us = es ↔ us = es.map (·.2)) := by
    intro es
    induction es with
    | nil => simp
    | cons e es ih =>
        intro us hus
        cases us with
        | nil => simp at hus
        | cons u us =>
            have htail := ih us (by simpa using hus)
            rw [List.zipWith_cons_cons, List.map_cons, List.cons.injEq, List.cons.injEq, htail]
            exact and_congr_left' ⟨fun hu => congrArg Prod.snd hu, fun hu => by rw [hu]⟩
  have hrev : vs.reverse.length = m.entries.length := by
    simpa [valuesDesc] using hlen
  have hentries : m.withValuesDesc vs = m ↔ (m.withValuesDesc vs).entries = m.entries :=
    ⟨fun he => by rw [he], ext⟩
  rw [hentries, withValuesDesc, hlist m.entries vs.reverse hrev, valuesDesc,
    List.reverse_eq_iff]

/-! ### Insertions in turn -/

section Insertions

variable {β : Type} (key : β → κ) (value : β → α)

/-- The last of the elements with a key. -/
def lastWith (k : κ) (xs : List β) : Option β := xs.reverse.find? fun x => key x = k

theorem get_foldl_insert (xs : List β) (m : OrdMap κ α) (k : κ) :
    (xs.foldl (fun m x => m.insert (key x) (value x)) m).get k =
      ((lastWith key k xs).map value).or (m.get k) := by
  induction xs using List.reverseRecOn with
  | nil => rfl
  | append_singleton xs x ih =>
      rw [List.foldl_append, List.foldl_cons, List.foldl_nil, lastWith, List.reverse_append,
        List.reverse_singleton, List.singleton_append, List.find?_cons]
      by_cases hk : key x = k
      · subst hk
        rw [get_insert_self]
        simp
      · rw [get_insert_of_ne (Ne.symm hk), ih]
        simp [hk, lastWith]

/-- Insertions leave a map alone when it holds already what they leave under each key. -/
theorem foldl_insert_eq_self (xs : List β) (m : OrdMap κ α) :
    xs.foldl (fun m x => m.insert (key x) (value x)) m = m ↔
      ∀ k, ∀ x ∈ lastWith key k xs, m.get k = some (value x) := by
  constructor
  · intro h k x hx
    rw [← h, get_foldl_insert, Option.mem_def.mp hx]
    rfl
  · intro h
    apply ext_get
    intro k
    rw [get_foldl_insert]
    cases hlast : lastWith key k xs with
    | none => rfl
    | some x => exact (h k x hlast).symm

end Insertions

/-- Inserting the values of a map by their own keys, from the last, gives the map back. -/
theorem foldl_insert_valuesDesc (key : α → κ) (h : ∀ e ∈ m, e.1 = key e.2) :
    m.valuesDesc.foldl (fun acc a => acc.insert (key a) a) empty = m := by
  rw [valuesDesc, List.foldl_reverse]
  apply ext
  have hs := m.sorted
  simp only [mem_def] at h
  generalize m.entries = es at h hs
  induction es with
  | nil => rfl
  | cons e es ih =>
      obtain ⟨he, hes⟩ := List.pairwise_cons.mp hs
      have htail := ih (fun d hd => h d (List.mem_cons_of_mem e hd)) hes
      rw [List.map_cons, List.foldr_cons, entries_insert_of_lt, htail,
        ← h e List.mem_cons_self]
      intro d hd
      rw [mem_def, htail] at hd
      rw [← h e List.mem_cons_self]
      exact he d hd

/-! ### Totals -/

variable {M : Type} [AddCommGroup M] (f : α → M)

/-- The sum of `f` over the values. -/
def total (m : OrdMap κ α) : M := (m.entries.map fun e => f e.2).sum

@[simp] theorem total_empty : total f (empty : OrdMap κ α) = 0 := rfl

theorem total_eq_valuesDesc : m.total f = (m.valuesDesc.map f).sum := by
  rw [valuesDesc, List.map_reverse, List.sum_reverse, List.map_map]
  rfl

theorem total_insert (h : ∀ b, (k, b) ∉ m) : (m.insert k a).total f = f a + m.total f := by
  have hperm := (entries_insert_perm (a := a) h).map fun e => f e.2
  exact hperm.sum_eq

theorem sum_set_of_notMem {es : List (κ × α)} (h : ∀ d ∈ es, d.1 ≠ k) :
    ((es.map fun d => (d.1, if d.1 = k then a else d.2)).map fun d => f d.2).sum =
      (es.map fun d => f d.2).sum := by
  rw [List.map_map]
  congr 1
  apply List.map_congr_left
  intro d hd
  simp [h d hd]

theorem sum_set {es : List (κ × α)} (h : (k, b) ∈ es)
    (hs : es.Pairwise (fun a b => a.1 < b.1)) :
    ((es.map fun d => (d.1, if d.1 = k then a else d.2)).map fun d => f d.2).sum =
      (es.map fun d => f d.2).sum - f b + f a := by
  induction es with
  | nil => simp at h
  | cons d es ih =>
      obtain ⟨hd, hes⟩ := List.pairwise_cons.mp hs
      rw [List.map_cons, List.map_cons, List.sum_cons, List.map_cons, List.sum_cons]
      rcases List.mem_cons.mp h with rfl | h
      · rw [sum_set_of_notMem f fun d hd' => (hd d hd').ne', if_pos rfl]
        abel
      · have hne : d.1 ≠ k := (hd _ h).ne
        rw [ih h hes, if_neg hne]
        abel

theorem total_set (h : (k, b) ∈ m) : (m.set k a).total f = m.total f - f b + f a :=
  sum_set f h m.sorted

end OrdMap
