import Mathlib.Data.List.Forall2
import Mathlib.Data.Nat.Notation

/-! # Fallible computations

A successful chain of fallible steps splits into the success of each. -/

namespace Result

variable {ε ε' α β : Type}

/-- `Option::ok_or`. -/
def okOr (o : Option α) (e : ε) : Except ε α :=
  match o with
  | none => .error e
  | some a => .ok a

@[simp] theorem okOr_eq_ok {o : Option α} {e : ε} {a : α} : okOr o e = .ok a ↔ o = some a := by
  cases o <;> simp [okOr]

@[simp] theorem bind_eq_ok {x : Except ε α} {f : α → Except ε β} {b : β} :
    x >>= f = .ok b ↔ ∃ a, x = .ok a ∧ f a = .ok b := by
  cases x with
  | error e => simp [bind, Except.bind]
  | ok a => simp [bind, Except.bind]

theorem bind_isOk {x : Except ε α} {f : α → Except ε β} :
    (∃ b, x >>= f = .ok b) ↔ ∃ a, x = .ok a ∧ ∃ b, f a = .ok b := by
  simp only [bind_eq_ok]
  exact exists_comm.trans (exists_congr fun _ => exists_and_left)

@[simp] theorem mapError_ok {a : α} {f : ε → ε'} :
    (Except.ok a : Except ε α).mapError f = .ok a := rfl

@[simp] theorem mapError_error {e : ε} {f : ε → ε'} :
    (Except.error e : Except ε α).mapError f = .error (f e) := rfl

@[simp] theorem mapError_eq_ok {x : Except ε α} {f : ε → ε'} {a : α} :
    x.mapError f = .ok a ↔ x = .ok a := by
  cases x <;> simp

@[simp] theorem map_eq_ok {x : Except ε α} {f : α → β} {b : β} :
    f <$> x = .ok b ↔ ∃ a, x = .ok a ∧ f a = b := by
  cases x with
  | error e => simp [Functor.map, Except.map]
  | ok a => simp [Functor.map, Except.map]

@[simp] theorem exceptMap_eq_ok {x : Except ε α} {f : α → β} {b : β} :
    x.map f = .ok b ↔ ∃ a, x = .ok a ∧ f a = b := by
  cases x <;> simp [Except.map]

instance decidableExistsOk (x : Except ε α) (P : α → Prop) [DecidablePred P] :
    Decidable (∃ a, x = .ok a ∧ P a) :=
  match x with
  | .ok a => decidable_of_iff (P a) (by simp)
  | .error _ => isFalse (by simp)

@[simp] theorem pure_eq_ok {a b : α} : (pure a : Except ε α) = .ok b ↔ a = b := by
  simp [pure, Except.pure]

/-- The value of a computation known to succeed. -/
def get (x : Except ε α) (h : x.isOk = true) : α :=
  match x with
  | .ok a => a
  | .error _ => absurd h (by simp [Except.isOk, Except.toBool])

theorem eq_ok_get {x : Except ε α} (h : x.isOk = true) : x = .ok (get x h) := by
  cases x with
  | error e => simp [Except.isOk, Except.toBool] at h
  | ok a => rfl

/-! ### Failures -/

/-- Every failure of the computation meets `P`. -/
def FailsOnly (P : ε → Prop) (x : Except ε α) : Prop :=
  ∀ e, x = .error e → P e

section FailsOnly

variable {P : ε → Prop} {x : Except ε α} {a : α} {e : ε}

theorem failsOnly_ok : FailsOnly P (.ok a : Except ε α) := by
  intro e he
  cases he

theorem failsOnly_error (h : P e) : FailsOnly P (.error e : Except ε α) := by
  intro e' he
  cases he
  exact h

theorem failsOnly_okOr {o : Option α} (h : P e) : FailsOnly P (okOr o e) := by
  cases o with
  | none => exact failsOnly_error h
  | some a => exact failsOnly_ok

theorem FailsOnly.bind {f : α → Except ε β} (hx : FailsOnly P x)
    (hf : ∀ a, x = .ok a → FailsOnly P (f a)) : FailsOnly P (x >>= f) := by
  cases x with
  | error e => exact failsOnly_error (hx e rfl)
  | ok a => exact hf a rfl

theorem FailsOnly.map {f : α → β} (hx : FailsOnly P x) : FailsOnly P (x.map f) := by
  cases x with
  | error e => exact failsOnly_error (hx e rfl)
  | ok a => exact failsOnly_ok

theorem FailsOnly.mapError {P' : ε' → Prop} {f : ε → ε'} (hx : FailsOnly P x)
    (hf : ∀ e, P e → P' (f e)) : FailsOnly P' (x.mapError f) := by
  cases x with
  | error e => exact failsOnly_error (hf e (hx e rfl))
  | ok a => exact failsOnly_ok

theorem failsOnly_mapError {P' : ε' → Prop} {f : ε → ε'} (hf : ∀ e, P' (f e)) :
    FailsOnly P' (x.mapError f) :=
  FailsOnly.mapError (P := fun _ => True) (fun _ _ => trivial) fun e _ => hf e

theorem FailsOnly.foldlM {f : β → α → Except ε β} (hf : ∀ b a, FailsOnly P (f b a))
    (xs : List α) (b : β) : FailsOnly P (xs.foldlM f b) := by
  induction xs generalizing b with
  | nil => exact failsOnly_ok
  | cons a xs ih =>
      rw [List.foldlM_cons]
      exact (hf b a).bind fun c _ => ih c

end FailsOnly

/-! ### Lists -/

/-- A successful pass over a list succeeds at each index. -/
theorem mapM_getElem {f : α → Except ε β} {xs : List α} {ys : List β} (h : xs.mapM f = .ok ys)
    {i : ℕ} {x : α} (hx : xs[i]? = some x) : ∃ y, ys[i]? = some y ∧ f x = .ok y := by
  induction xs generalizing ys i with
  | nil => simp at hx
  | cons a xs ih =>
      simp only [List.mapM_cons, bind_eq_ok, pure_eq_ok] at h
      obtain ⟨b, hb, ys, hys, rfl⟩ := h
      cases i with
      | zero =>
          obtain rfl : a = x := by simpa using hx
          exact ⟨b, by simp, hb⟩
      | succ i =>
          obtain ⟨y, hy, hfy⟩ := ih hys (by simpa using hx)
          exact ⟨y, by simpa using hy, hfy⟩

/-- A successful pass has each element's result in its place. -/
theorem forall₂_of_mapM {f : α → Except ε β} {xs : List α} {ys : List β}
    (h : xs.mapM f = .ok ys) : List.Forall₂ (fun x y => f x = .ok y) xs ys := by
  induction xs generalizing ys with
  | nil =>
      simp only [List.mapM_nil, pure_eq_ok] at h
      subst h
      exact .nil
  | cons x xs ih =>
      simp only [List.mapM_cons, bind_eq_ok, pure_eq_ok] at h
      obtain ⟨y, hy, ys, hys, rfl⟩ := h
      exact .cons hy (ih hys)

/-- What a successful pass returns, seen through `g`, when each element's result is. -/
theorem map_eq_of_mapM {γ : Type} {f : α → Except ε β} {g : β → γ} {h : α → γ} {xs : List α}
    {ys : List β} (hf : ∀ x ∈ xs, ∀ y, f x = .ok y → g y = h x) (hys : xs.mapM f = .ok ys) :
    ys.map g = xs.map h := by
  have hall := forall₂_of_mapM hys
  clear hys
  induction hall with
  | nil => rfl
  | cons hy hall ih =>
      rw [List.map_cons, List.map_cons, hf _ List.mem_cons_self _ hy,
        ih fun x hx => hf x (List.mem_cons_of_mem _ hx)]

/-- A pass succeeds when each element does. -/
theorem mapM_isOk {f : α → Except ε β} {xs : List α} :
    (∃ ys, xs.mapM f = .ok ys) ↔ ∀ x ∈ xs, ∃ y, f x = .ok y := by
  induction xs with
  | nil => simp [pure, Except.pure]
  | cons x xs ih =>
      simp only [List.mapM_cons, bind_eq_ok, pure_eq_ok, List.forall_mem_cons, ← ih]
      constructor
      · rintro ⟨_, y, hy, ys, hys, -⟩
        exact ⟨⟨y, hy⟩, ys, hys⟩
      · rintro ⟨⟨y, hy⟩, ys, hys⟩
        exact ⟨y :: ys, y, hy, ys, hys, rfl⟩

theorem mem_of_mapM {f : α → Except ε β} {xs : List α} {ys : List β} (h : xs.mapM f = .ok ys)
    {y : β} : y ∈ ys ↔ ∃ x ∈ xs, f x = .ok y := by
  have hall := forall₂_of_mapM h
  clear h
  induction hall with
  | nil => simp
  | cons hx _ ih => simp [ih, hx, eq_comm]

/-- A pass over the list in another order. -/
theorem mapM_perm {f : α → Except ε β} {xs xs' : List α} (hperm : xs.Perm xs') {ys : List β}
    (h : xs.mapM f = .ok ys) : ∃ ys', xs'.mapM f = .ok ys' ∧ ys.Perm ys' := by
  induction hperm generalizing ys with
  | nil => exact ⟨ys, h, .refl ys⟩
  | cons x _ ih =>
      simp only [List.mapM_cons, bind_eq_ok, pure_eq_ok] at h ⊢
      obtain ⟨y, hy, ys, hys, rfl⟩ := h
      obtain ⟨ys', hys', hperm'⟩ := ih hys
      exact ⟨y :: ys', ⟨y, hy, ys', hys', rfl⟩, hperm'.cons y⟩
  | swap x x' xs =>
      simp only [List.mapM_cons, bind_eq_ok, pure_eq_ok] at h ⊢
      obtain ⟨y', hy', _, ⟨y, hy, ys, hys, rfl⟩, rfl⟩ := h
      exact ⟨y :: y' :: ys, ⟨y, hy, _, ⟨y', hy', ys, hys, rfl⟩, rfl⟩, .swap y y' ys⟩
  | trans _ _ ih ih' =>
      obtain ⟨ys', hys', hperm'⟩ := ih h
      obtain ⟨ys'', hys'', hperm''⟩ := ih' hys'
      exact ⟨ys'', hys'', hperm'.trans hperm''⟩

/-- Passes made one after the other act on each index alone. -/
theorem foldlM_mapM_getElem {γ : Type} {g : γ → α → Except ε α} {cs : List γ} {xs ys : List α}
    (h : cs.foldlM (fun xs c => xs.mapM (g c)) xs = .ok ys) {i : ℕ} {x : α}
    (hx : xs[i]? = some x) :
    ∃ y, ys[i]? = some y ∧ cs.foldlM (fun x c => g c x) x = .ok y := by
  induction cs generalizing xs x with
  | nil =>
      simp only [List.foldlM_nil, pure_eq_ok] at h
      subst h
      exact ⟨x, hx, rfl⟩
  | cons c cs ih =>
      simp only [List.foldlM_cons, bind_eq_ok] at h ⊢
      obtain ⟨zs, hzs, h⟩ := h
      obtain ⟨z, hz, hgz⟩ := mapM_getElem hzs hx
      obtain ⟨y, hy, hfold⟩ := ih h hz
      exact ⟨y, hy, z, hgz, hfold⟩

/-! ### Folds -/

/-- What each step of a successful fold keeps, from the elements passed so far, holds at the
end for the whole list. -/
theorem foldlM_invariant {f : β → α → Except ε β} {P : List α → β → Prop} {xs : List α}
    {b b' : β} (h : xs.foldlM f b = .ok b') (h0 : P [] b)
    (hstep : ∀ done a rest b b', xs = done ++ a :: rest → P done b → f b a = .ok b' →
      P (done ++ [a]) b') : P xs b' := by
  suffices hgen : ∀ done rest b, xs = done ++ rest → P done b → rest.foldlM f b = .ok b' →
      P xs b' from hgen [] xs b rfl h0 h
  intro done rest
  induction rest generalizing done with
  | nil =>
      intro b hxs hP h
      simp only [List.foldlM_nil, pure_eq_ok] at h
      rw [← h, hxs, List.append_nil]
      exact hP
  | cons a rest ih =>
      intro b hxs hP h
      simp only [List.foldlM_cons, bind_eq_ok] at h
      obtain ⟨c, hc, h⟩ := h
      exact ih (done ++ [a]) c (by rw [hxs, List.append_cons]) (hstep done a rest b c hxs hP hc) h

/-- A fold succeeds when each step does from whatever the earlier steps leave. -/
theorem foldlM_isOk {f : β → α → Except ε β} {P : List α → β → Prop} {xs : List α} {b : β}
    (h0 : P [] b)
    (hstep : ∀ done a rest b, xs = done ++ a :: rest → P done b →
      ∃ b', f b a = .ok b' ∧ P (done ++ [a]) b') : ∃ b', xs.foldlM f b = .ok b' := by
  suffices hgen : ∀ done rest b, xs = done ++ rest → P done b →
      ∃ b', rest.foldlM f b = .ok b' from hgen [] xs b rfl h0
  intro done rest
  induction rest generalizing done with
  | nil =>
      intro b hxs hP
      exact ⟨b, rfl⟩
  | cons a rest ih =>
      intro b hxs hP
      obtain ⟨c, hc, hP⟩ := hstep done a rest b hxs hP
      obtain ⟨b', hb'⟩ := ih (done ++ [a]) c (by rw [hxs, List.append_cons]) hP
      exact ⟨b', by rw [List.foldlM_cons, hc]; exact hb'⟩

/-- A fold whose steps succeed or fail by their elements alone. -/
theorem foldlM_isOk_iff {f : β → α → Except ε β} {P : α → Prop}
    (hP : ∀ b a, (∃ b', f b a = .ok b') ↔ P a) {xs : List α} {b : β} :
    (∃ b', xs.foldlM f b = .ok b') ↔ ∀ a ∈ xs, P a := by
  induction xs generalizing b with
  | nil => simp [pure, Except.pure]
  | cons a xs ih =>
      simp only [List.foldlM_cons, bind_eq_ok, List.forall_mem_cons]
      constructor
      · rintro ⟨b', c, hc, hrest⟩
        exact ⟨(hP b a).mp ⟨c, hc⟩, ih.mp ⟨b', hrest⟩⟩
      · rintro ⟨ha, hxs⟩
        obtain ⟨c, hc⟩ := (hP b a).mpr ha
        obtain ⟨b', hb'⟩ := ih.mpr hxs
        exact ⟨b', c, hc, hb'⟩

/-- A fold whose steps combine what their elements alone give. -/
theorem foldlM_eq_ok_iff {γ : Type} {f : β → α → Except ε β} {g : α → Except ε γ}
    {combine : β → γ → β} (hf : ∀ b a, f b a = (g a).map (combine b)) {xs : List α} {b b' : β} :
    xs.foldlM f b = .ok b' ↔ ∃ ys, xs.mapM g = .ok ys ∧ ys.foldl combine b = b' := by
  induction xs generalizing b with
  | nil => simp [pure, Except.pure]
  | cons x xs ih =>
      simp only [List.foldlM_cons, List.mapM_cons, bind_eq_ok, pure_eq_ok, hf, exceptMap_eq_ok, ih]
      constructor
      · rintro ⟨_, ⟨y, hy, rfl⟩, ys, hys, rfl⟩
        exact ⟨y :: ys, ⟨y, hy, ys, hys, rfl⟩, rfl⟩
      · rintro ⟨_, ⟨y, hy, ys, hys, rfl⟩, rfl⟩
        exact ⟨_, ⟨y, hy, rfl⟩, ys, hys, rfl⟩

/-- What the steps of a successful fold append in turn. -/
theorem foldlM_filterMap {γ : Type} {f : β → α → Except ε β} {out : β → List γ}
    {g : α → Option γ} (hstep : ∀ b a b', f b a = .ok b' → out b' = out b ++ (g a).toList)
    {xs : List α} {b b' : β} (h : xs.foldlM f b = .ok b') : out b' = out b ++ xs.filterMap g := by
  induction xs generalizing b with
  | nil =>
      simp only [List.foldlM_nil, pure_eq_ok] at h
      simp [h]
  | cons a xs ih =>
      simp only [List.foldlM_cons, bind_eq_ok] at h
      obtain ⟨c, hc, h⟩ := h
      rw [ih h, hstep b a c hc, List.append_assoc]
      cases hg : g a with
      | none => simp [hg]
      | some x => simp [hg]

end Result
