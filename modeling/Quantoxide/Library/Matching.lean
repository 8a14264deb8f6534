import Mathlib.Data.List.Basic

/-! # Matched collections

Two lists match when each element of one has a related element in the other. When both move
element by element, related elements alike, they match again. -/

namespace Matching

universe u v

variable {α : Type u} {β : Type v} {R : α → β → Prop} {P : α → α → Prop} {Q : β → β → Prop}
  {as as' : List α} {bs bs' : List β} {a : α} {b b' : β}

structure Matches (R : α → β → Prop) (as : List α) (bs : List β) : Prop where
  left : ∀ a ∈ as, ∃ b ∈ bs, R a b
  right : ∀ b ∈ bs, ∃ a ∈ as, R a b

/-- What an element moves to is in the new list, and nothing else is. -/
structure Becomes (P : α → α → Prop) (as as' : List α) : Prop where
  moves : ∀ a ∈ as, (∃ a', P a a') → ∃ a' ∈ as', P a a'
  moved : ∀ a' ∈ as', ∃ a ∈ as, P a a'

theorem Matches.nil (R : α → β → Prop) : Matches R [] [] := ⟨nofun, nofun⟩

/-- Related elements move together, to related ones. -/
theorem Matches.becomes (h : Matches R as bs) (hP : Becomes P as as') (hQ : Becomes Q bs bs')
    (hstep : ∀ a ∈ as, ∀ b ∈ bs, R a b → ((∃ a', P a a') ↔ ∃ b', Q b b'))
    (hmove : ∀ a ∈ as, ∀ b ∈ bs, R a b → ∀ a' b', P a a' → Q b b' → R a' b') :
    Matches R as' bs' := by
  constructor
  · intro a' ha'
    obtain ⟨a, ha, hmoved⟩ := hP.moved a' ha'
    obtain ⟨b, hb, hab⟩ := h.left a ha
    obtain ⟨b', hb', hmoved'⟩ := hQ.moves b hb ((hstep a ha b hb hab).mp ⟨a', hmoved⟩)
    exact ⟨b', hb', hmove a ha b hb hab a' b' hmoved hmoved'⟩
  · intro b' hb'
    obtain ⟨b, hb, hmoved'⟩ := hQ.moved b' hb'
    obtain ⟨a, ha, hab⟩ := h.right b hb
    obtain ⟨a', ha', hmoved⟩ := hP.moves a ha ((hstep a ha b hb hab).mpr ⟨b', hmoved'⟩)
    exact ⟨a', ha', hmove a ha b hb hab a' b' hmoved hmoved'⟩

/-- Where keys tell the elements apart, what matches after a move was related before it. -/
theorem Matches.before {κ : Type*} {k : α → κ} {l : β → κ} (h : Matches R as bs)
    (h' : Matches R as' bs') (hP : Becomes P as as')
    (hkeys : ∀ a ∈ as, ∀ c ∈ as, k a = k c → a = c) (hR : ∀ a b, R a b → k a = l b)
    (hPkey : ∀ a a', P a a' → k a' = k a) (hQkey : ∀ b b', Q b b' → l b' = l b) (hb : b ∈ bs)
    (hb' : b' ∈ bs') (hQ : Q b b') : ∃ a ∈ as, ∃ a', R a b ∧ P a a' ∧ R a' b' := by
  obtain ⟨a', ha', hab'⟩ := h'.right b' hb'
  obtain ⟨a, ha, hmoved⟩ := hP.moved a' ha'
  obtain ⟨c, hc, hcb⟩ := h.right b hb
  have hkey : k a = k c := by
    rw [← hPkey a a' hmoved, hR a' b' hab', hQkey b b' hQ, hR c b hcb]
  obtain rfl := hkeys a ha c hc hkey
  exact ⟨a, ha, a', hcb, hmoved, hab'⟩

theorem Matches.map {f : α → α} {g : β → β} (h : Matches R as bs)
    (has : ∀ a', a' ∈ as' ↔ ∃ a ∈ as, a' = f a) (hbs : ∀ b', b' ∈ bs' ↔ ∃ b ∈ bs, b' = g b)
    (hmove : ∀ a ∈ as, ∀ b ∈ bs, R a b → R (f a) (g b)) : Matches R as' bs' := by
  constructor
  · intro a' ha'
    obtain ⟨a, ha, rfl⟩ := (has a').mp ha'
    obtain ⟨b, hb, hab⟩ := h.left a ha
    exact ⟨g b, (hbs _).mpr ⟨b, hb, rfl⟩, hmove a ha b hb hab⟩
  · intro b' hb'
    obtain ⟨b, hb, rfl⟩ := (hbs b').mp hb'
    obtain ⟨a, ha, hab⟩ := h.right b hb
    exact ⟨f a, (has _).mpr ⟨a, ha, rfl⟩, hmove a ha b hb hab⟩

theorem Matches.insert (h : Matches R as bs) (hab : R a b)
    (has : ∀ x, x ∈ as' ↔ x ∈ as ∨ x = a) (hbs : ∀ y, y ∈ bs' ↔ y ∈ bs ∨ y = b) :
    Matches R as' bs' := by
  constructor
  · intro x hx
    rcases (has x).mp hx with hx | rfl
    · obtain ⟨y, hy, hxy⟩ := h.left x hx
      exact ⟨y, (hbs y).mpr (Or.inl hy), hxy⟩
    · exact ⟨b, (hbs b).mpr (Or.inr rfl), hab⟩
  · intro y hy
    rcases (hbs y).mp hy with hy | rfl
    · obtain ⟨x, hx, hxy⟩ := h.right y hy
      exact ⟨x, (has x).mpr (Or.inl hx), hxy⟩
    · exact ⟨a, (has a).mpr (Or.inr rfl), hab⟩

end Matching
