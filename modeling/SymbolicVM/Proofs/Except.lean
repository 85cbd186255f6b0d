/-!
# Computations that succeed

How a success of a composed computation splits into successes of its parts. Proofs about the machine
take computations apart with these equivalences and never unfold the composition. `Yields` says what
all successes of a computation have in common, and `Avoids` goes through a computation for an error
that no part fails with.
-/

namespace SymbolicVM

variable {ε α β : Type}

theorem ok_bind (a : α) (f : α → Except ε β) : (Except.ok a >>= f) = f a := rfl

theorem bind_eq_ok {x : Except ε α} {f : α → Except ε β} {b : β} :
    (x >>= f) = .ok b ↔ ∃ a, x = .ok a ∧ f a = .ok b := by
  cases x with
  | error e =>
    constructor
    · intro h; contradiction
    · rintro ⟨a, h, -⟩; contradiction
  | ok a =>
    constructor
    · intro h; exact ⟨a, rfl, h⟩
    · rintro ⟨a', h, hb⟩
      rwa [← Except.ok.inj h] at hb

theorem bind_eq_error {x : Except ε α} {f : α → Except ε β} {e : ε} :
    (x >>= f) = .error e ↔ x = .error e ∨ ∃ a, x = .ok a ∧ f a = .error e := by
  cases x with
  | error e' =>
    constructor
    · intro h; exact .inl (congrArg Except.error (Except.error.inj h))
    · rintro (h | ⟨a, h, -⟩)
      · exact congrArg Except.error (Except.error.inj h)
      · contradiction
  | ok a =>
    constructor
    · intro h; exact .inr ⟨a, rfl, h⟩
    · rintro (h | ⟨a', h, hf⟩)
      · contradiction
      · rwa [← Except.ok.inj h] at hf

/-- Compositions are the same if their first parts are and their second parts agree on what these
return. -/
theorem bind_congr_ok {x y : Except ε α} {f g : α → Except ε β} (hx : x = y)
    (hf : ∀ a, y = .ok a → f a = g a) : (x >>= f) = (y >>= g) := by
  subst hx
  cases x with
  | error e => rfl
  | ok a => exact hf a rfl

theorem map_eq_ok {x : Except ε α} {f : α → β} {b : β} :
    x.map f = .ok b ↔ ∃ a, x = .ok a ∧ f a = b := by
  cases x with
  | error e =>
    constructor
    · intro h; contradiction
    · rintro ⟨a, h, -⟩; contradiction
  | ok a =>
    constructor
    · intro h; exact ⟨a, rfl, Except.ok.inj h⟩
    · rintro ⟨a', h, rfl⟩
      rw [Except.ok.inj h]
      rfl

theorem mapError_eq_ok {ε' : Type} {x : Except ε α} {f : ε → ε'} {a : α} :
    x.mapError f = .ok a ↔ x = .ok a := by
  cases x with
  | error e =>
    constructor
    · intro h; contradiction
    · intro h; contradiction
  | ok b =>
    constructor
    · intro h; exact congrArg Except.ok (Except.ok.inj h)
    · intro h; exact congrArg Except.ok (Except.ok.inj h)

theorem mapError_eq_error {ε' : Type} {x : Except ε α} {f : ε → ε'} {e' : ε'} :
    x.mapError f = .error e' ↔ ∃ e, x = .error e ∧ f e = e' := by
  cases x with
  | error e =>
    constructor
    · intro h; exact ⟨e, rfl, Except.error.inj h⟩
    · rintro ⟨e₁, h, rfl⟩
      rw [Except.error.inj h]
      rfl
  | ok a =>
    constructor
    · intro h; contradiction
    · rintro ⟨e, h, -⟩; contradiction

/-- A traversal that succeeds at every item. -/
theorem mapM_eq_ok_map {f : α → Except ε β} {g : α → β} {l : List α}
    (h : ∀ a ∈ l, f a = .ok (g a)) : l.mapM f = .ok (l.map g) := by
  induction l with
  | nil => rfl
  | cons a l ih =>
    have hrest := ih fun a' ha' => h a' (List.mem_cons_of_mem _ ha')
    rw [List.mapM_cons, h a List.mem_cons_self, ok_bind, hrest, ok_bind]
    rfl

/-- A fold succeeds if every step of it does. -/
theorem exists_foldlM_eq_ok {f : β → α → Except ε β} {l : List α}
    (h : ∀ a ∈ l, ∀ b, ∃ b', f b a = .ok b') (b : β) : ∃ b', l.foldlM f b = .ok b' := by
  induction l generalizing b with
  | nil => exact ⟨b, rfl⟩
  | cons a l ih =>
    obtain ⟨b₁, hfirst⟩ := h a List.mem_cons_self b
    obtain ⟨b', hrest⟩ := ih (fun a' ha' => h a' (List.mem_cons_of_mem _ ha')) b₁
    exact ⟨b', by rw [List.foldlM_cons]; exact bind_eq_ok.mpr ⟨b₁, hfirst, hrest⟩⟩

/-- What every step of a fold keeps holds at its end. -/
theorem foldlM_invariant {P : β → Prop} {f : β → α → Except ε β} {l : List α} {b b' : β}
    (hstep : ∀ a b b', P b → f b a = .ok b' → P b') (hb : P b) (h : l.foldlM f b = .ok b') :
    P b' := by
  induction l generalizing b with
  | nil => rwa [← Except.ok.inj h]
  | cons a l ih =>
    rw [List.foldlM_cons] at h
    obtain ⟨b₁, hfirst, hrest⟩ := bind_eq_ok.mp h
    exact ih (hstep a b b₁ hb hfirst) hrest

/-! ### Every success -/

/-- Every success of the computation has the property. -/
def Yields (P : α → Prop) (x : Except ε α) : Prop :=
  ∀ a, x = .ok a → P a

namespace Yields

variable {P : α → Prop}

theorem ok {a : α} (h : P a) : Yields P (Except.ok a : Except ε α) := by
  intro b hb
  rwa [← Except.ok.inj hb]

theorem error (e : ε) : Yields P (Except.error e) := by
  intro a h
  contradiction

end Yields

/-! ### A failure that does not happen -/

/-- The computation does not fail with this error. -/
def Avoids (e : ε) (x : Except ε α) : Prop :=
  x ≠ .error e

namespace Avoids

variable {e : ε} {x : Except ε α} {f : α → Except ε β}

theorem ok (a : α) : Avoids e (Except.ok a) := by
  intro h
  contradiction

theorem error {e' : ε} (h : e' ≠ e) : Avoids e (Except.error e' : Except ε α) := by
  intro heq
  exact h (Except.error.inj heq)

theorem bind (hx : Avoids e x) (hf : ∀ a, Avoids e (f a)) : Avoids e (x >>= f) := by
  intro h
  rcases bind_eq_error.mp h with hfirst | ⟨a, -, hsecond⟩
  · exact hx hfirst
  · exact hf a hsecond

theorem map {g : α → β} (hx : Avoids e x) : Avoids e (x.map g) := by
  cases x with
  | error e' => exact error fun h => hx (congrArg Except.error h)
  | ok a => exact ok (g a)

theorem mapM {l : List α} (h : ∀ a ∈ l, Avoids e (f a)) : Avoids e (l.mapM f) := by
  induction l with
  | nil => exact ok []
  | cons a l ih =>
    rw [List.mapM_cons]
    exact bind (h a List.mem_cons_self) fun _ =>
      bind (ih fun a' ha' => h a' (List.mem_cons_of_mem _ ha')) fun _ => ok _

/-- If the first part avoids an error, a composition that fails with it fails in its second part. -/
theorem bind_eq_error_iff (hx : Avoids e x) :
    (x >>= f) = .error e ↔ ∃ a, x = .ok a ∧ f a = .error e := by
  rw [bind_eq_error, or_iff_right hx]

end Avoids

theorem toOption_eq_some {x : Except ε α} {a : α} (h : x.toOption = some a) : x = .ok a := by
  cases x with
  | error e => contradiction
  | ok b => exact congrArg Except.ok (Option.some.inj h)

/-- The error that a computation fails with. -/
def failure? : Except ε α → Option ε
  | .ok _ => none
  | .error e => some e

theorem failure?_eq_some_iff {x : Except ε α} {e : ε} : failure? x = some e ↔ x = .error e := by
  cases x with
  | error e' => simp [failure?]
  | ok a => simp [failure?]

theorem toOption_eq_none_iff {x : Except ε α} : x.toOption = none ↔ ∀ a, x ≠ .ok a := by
  cases x with
  | error e => simp [Except.toOption]
  | ok a => simp [Except.toOption]

theorem toOption_eq_some_iff {x : Except ε α} {a : α} : x.toOption = some a ↔ x = .ok a :=
  ⟨toOption_eq_some, fun h => h ▸ rfl⟩

end SymbolicVM
