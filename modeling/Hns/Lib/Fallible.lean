import Mathlib.Tactic

/-!
# Fallible computations

How computations that may fail compose: in `Except`, and in `EStateM`, where
the state reached is kept when they fail. A computation that is known to
succeed, or to fail, is replaced by its outcome.
-/

/-! ## Lists in step -/

namespace List.Forall₂

variable {α β : Type*} {r : α → β → Prop} {l : List α} {l' : List β}

/-- Every item on the left stands beside one on the right. -/
theorem exists_right (h : Forall₂ r l l') : ∀ a ∈ l, ∃ b ∈ l', r a b := by
  induction h with
  | nil => simp
  | cons hab _ ih =>
    rw [forall_mem_cons]
    refine ⟨⟨_, mem_cons_self, hab⟩, fun a ha => ?_⟩
    obtain ⟨b, hb, hr⟩ := ih a ha
    exact ⟨b, mem_cons_of_mem _ hb, hr⟩

/-- Every item on the right stands beside one on the left. -/
theorem exists_left (h : Forall₂ r l l') : ∀ b ∈ l', ∃ a ∈ l, r a b := h.flip.exists_right

end List.Forall₂

namespace Except

variable {ε α β : Type}

@[simp] theorem ok_bind (a : α) (f : α → Except ε β) : (Except.ok a >>= f) = f a := rfl

@[simp] theorem error_bind (e : ε) (f : α → Except ε β) :
    ((Except.error e : Except ε α) >>= f) = .error e := rfl

/-- A sequence succeeds when its parts do. -/
theorem bind_eq_ok {x : Except ε α} {f : α → Except ε β} {b : β} :
    (x >>= f) = .ok b ↔ ∃ a, x = .ok a ∧ f a = .ok b := by
  cases x with
  | error e => simp
  | ok a => simp

/-- A sequence fails when one of its parts does. -/
theorem bind_eq_error {x : Except ε α} {f : α → Except ε β} {e : ε} :
    (x >>= f) = .error e ↔ x = .error e ∨ ∃ a, x = .ok a ∧ f a = .error e := by
  cases x with
  | error e' => simp
  | ok a => simp

/-- The value of an option, or an error. -/
def ofOption (e : ε) : Option α → Except ε α
  | none => .error e
  | some a => .ok a

@[simp] theorem ofOption_some (e : ε) (a : α) : ofOption e (some a) = .ok a := rfl

@[simp] theorem ofOption_none (e : ε) : ofOption e (none : Option α) = .error e := rfl

@[simp] theorem ofOption_eq_ok {e : ε} {o : Option α} {a : α} :
    ofOption e o = .ok a ↔ o = some a := by
  cases o <;> simp [ofOption]

theorem ofOption_eq_error {e e' : ε} {o : Option α} (h : ofOption e o = .error e') : e' = e := by
  cases o with
  | none => exact (Except.error.inj h).symm
  | some a => cases h

/-- The error of a computation, translated. -/
theorem mapError_eq_ok {ε' : Type} {f : ε → ε'} {x : Except ε α} {a : α} :
    x.mapError f = .ok a ↔ x = .ok a := by
  cases x <;> simp [Except.mapError]

/-- A check that throws lets the rest go on when it passes. -/
theorem throw_unless {c : Prop} [Decidable c] {e : ε} {f : PUnit → Except ε α} {a : α} :
    (if c then throw e >>= f else f ⟨⟩) = .ok a ↔ ¬c ∧ f ⟨⟩ = .ok a := by
  by_cases hc : c
  · simp [hc, throw, throwThe, MonadExceptOf.throw]
  · simp [hc]

/-- A computation on every item, in order. -/
theorem mapM_eq_ok {f : α → Except ε β} {l : List α} {r : List β} :
    l.mapM f = .ok r ↔ List.Forall₂ (fun a b => f a = .ok b) l r := by
  induction l generalizing r with
  | nil => simp [pure, Except.pure, eq_comm]
  | cons a l ih =>
    rw [List.mapM_cons, bind_eq_ok]
    constructor
    · rintro ⟨b, hb, h⟩
      obtain ⟨r', hr', h⟩ := bind_eq_ok.1 h
      cases h
      exact .cons hb (ih.1 hr')
    · rintro (_ | ⟨hb, h⟩)
      exact ⟨_, hb, bind_eq_ok.2 ⟨_, ih.2 h, rfl⟩⟩

/-- A computation that succeeds on every item succeeds on all of them. -/
theorem exists_mapM_eq_ok {f : α → Except ε β} {l : List α} (h : ∀ a ∈ l, ∃ b, f a = .ok b) :
    ∃ r, l.mapM f = .ok r := by
  induction l with
  | nil => exact ⟨[], rfl⟩
  | cons a l ih =>
    rw [List.forall_mem_cons] at h
    obtain ⟨⟨b, hb⟩, h⟩ := h
    obtain ⟨r, hr⟩ := ih h
    exact ⟨b :: r, mapM_eq_ok.2 (.cons hb (mapM_eq_ok.1 hr))⟩

/-- A search in order finds an item when the items before it are all rejected. -/
theorem anyM_eq_ok_true {p : α → Except ε Bool} {l : List α} :
    l.anyM p = .ok true ↔
      ∃ k a, l[k]? = some a ∧ p a = .ok true ∧ ∀ b ∈ l.take k, p b = .ok false := by
  induction l with
  | nil => simp [List.anyM, pure, Except.pure]
  | cons c l ih =>
    rw [List.anyM, bind_eq_ok]
    constructor
    · rintro ⟨_ | _, hc, h⟩
      · -- Rejected: the search goes on behind it.
        obtain ⟨k, a, hk, ha, hb⟩ := ih.1 h
        exact ⟨k + 1, a, hk, ha, List.forall_mem_cons.2 ⟨hc, hb⟩⟩
      · exact ⟨0, c, rfl, hc, by simp⟩
    · rintro ⟨_ | k, a, hk, ha, hb⟩
      · obtain rfl : c = a := by simpa using hk
        exact ⟨true, ha, rfl⟩
      · rw [List.take_succ_cons, List.forall_mem_cons] at hb
        exact ⟨false, hb.1, ih.2 ⟨k, a, hk, ha, hb.2⟩⟩

end Except

/-- How a computation fails that may also panic. -/
inductive Fault (ε : Type)
  | failed (error : ε)
  | panic
  deriving DecidableEq

instance EStateM.Result.instDecidableEq {ε σ α : Type} [DecidableEq ε] [DecidableEq σ]
    [DecidableEq α] : DecidableEq (EStateM.Result ε σ α)
  | .ok a s, .ok a' s' => decidable_of_iff (a = a' ∧ s = s') (by rw [EStateM.Result.ok.injEq])
  | .error e s, .error e' s' =>
    decidable_of_iff (e = e' ∧ s = s') (by rw [EStateM.Result.error.injEq])
  | .ok _ _, .error _ _ => isFalse (by rintro ⟨⟩)
  | .error _ _, .ok _ _ => isFalse (by rintro ⟨⟩)

namespace EStateM

variable {ε σ α β : Type}

/-- A computation that does not touch the state. -/
def checked (x : Except ε α) : EStateM ε σ α := fun s =>
  match x with
  | .ok a => .ok a s
  | .error e => .error e s

/-- The outcome of a computation as a value. -/
def attempt (x : EStateM ε σ α) : EStateM ε σ (Except ε α) := fun s =>
  match x s with
  | .ok a s => .ok (.ok a) s
  | .error e s => .ok (.error e) s

theorem attempt_eq_ok {x : EStateM ε σ α} {s s' : σ} {r : Except ε α} :
    attempt x s = .ok r s' ↔
      (∃ a, r = .ok a ∧ x s = .ok a s') ∨ ∃ e, r = .error e ∧ x s = .error e s' := by
  rw [attempt]
  rcases x s with ⟨a, s₁⟩ | ⟨e, s₁⟩
  · constructor
    · rintro ⟨⟩
      exact .inl ⟨a, rfl, rfl⟩
    · rintro (⟨_, rfl, ⟨⟩⟩ | ⟨_, -, ⟨⟩⟩)
      rfl
  · constructor
    · rintro ⟨⟩
      exact .inr ⟨e, rfl, rfl⟩
    · rintro (⟨_, -, ⟨⟩⟩ | ⟨_, rfl, ⟨⟩⟩)
      rfl

/-- What the state allows to read, or an error. -/
def reads (f : σ → Except ε α) : EStateM ε σ α := fun s => checked (f s) s

theorem reads_ok {f : σ → Except ε α} {s : σ} {a : α} (h : f s = .ok a) :
    reads f s = .ok a s := by
  rw [reads, h]
  rfl

theorem reads_error {f : σ → Except ε α} {s : σ} {e : ε} (h : f s = .error e) :
    reads f s = .error e s := by
  rw [reads, h]
  rfl

theorem checked_ok {x : Except ε α} {s : σ} {a : α} (h : x = .ok a) :
    checked x s = .ok a s := reads_ok (f := fun _ => x) h

theorem checked_error {x : Except ε α} {s : σ} {e : ε} (h : x = .error e) :
    checked x s = .error e s := reads_error (f := fun _ => x) h

theorem bind_ok {x : EStateM ε σ α} {f : α → EStateM ε σ β} {s s' : σ} {a : α}
    (h : x s = .ok a s') : (x >>= f) s = f a s' := by
  change EStateM.bind x f s = _
  rw [EStateM.bind, h]

theorem bind_error {x : EStateM ε σ α} {f : α → EStateM ε σ β} {s s' : σ} {e : ε}
    (h : x s = .error e s') : (x >>= f) s = .error e s' := by
  change EStateM.bind x f s = _
  rw [EStateM.bind, h]

/-- A check that throws lets the rest go on when it passes. -/
theorem throw_unless {c : Prop} [Decidable c] {e : ε} {f : PUnit → EStateM ε σ α} {s s' : σ}
    {a : α} :
    (if c then throw e >>= f else f ⟨⟩) s = .ok a s' ↔ ¬c ∧ f ⟨⟩ s = .ok a s' := by
  by_cases hc : c
  · have herror : (throw e : EStateM ε σ PUnit) s = .error e s := rfl
    simp [hc, bind_error herror]
  · simp [hc]

/-- A sequence succeeds when its parts do. -/
theorem run_bind_eq_ok {x : EStateM ε σ α} {f : α → EStateM ε σ β} {s s' : σ} {b : β} :
    (x >>= f) s = .ok b s' ↔ ∃ a s₁, x s = .ok a s₁ ∧ f a s₁ = .ok b s' := by
  cases h : x s with
  | ok a s₁ => simp [bind_ok h]
  | error e s₁ => simp [bind_error h]

theorem reads_eq_ok {f : σ → Except ε α} {s s' : σ} {a : α} :
    reads f s = .ok a s' ↔ f s = .ok a ∧ s' = s := by
  cases h : f s with
  | ok b => simp [reads_ok h, eq_comm]
  | error e => simp [reads_error h]

theorem checked_eq_ok {x : Except ε α} {s s' : σ} {a : α} :
    checked x s = .ok a s' ↔ x = .ok a ∧ s' = s := reads_eq_ok (f := fun _ => x)

/-- A sequence that begins with a computation that does not touch the state. -/
theorem checked_bind_eq_ok {x : Except ε α} {f : α → EStateM ε σ β} {s s' : σ} {b : β} :
    (checked x >>= f) s = .ok b s' ↔ ∃ a, x = .ok a ∧ f a s = .ok b s' := by
  rw [run_bind_eq_ok]
  constructor
  · rintro ⟨a, s₁, hx, h⟩
    obtain ⟨ha, rfl⟩ := checked_eq_ok.1 hx
    exact ⟨a, ha, h⟩
  · rintro ⟨a, hx, h⟩
    exact ⟨a, s, checked_ok hx, h⟩

theorem reads_bind (f : σ → Except ε α) (g : α → EStateM ε σ β) (s : σ) :
    (reads f >>= g) s =
      match f s with
      | .ok a => g a s
      | .error e => .error e s := by
  cases h : f s with
  | ok a => exact bind_ok (reads_ok h)
  | error e => exact bind_error (reads_error h)

theorem checked_bind (x : Except ε α) (g : α → EStateM ε σ β) (s : σ) :
    (checked x >>= g) s =
      match x with
      | .ok a => g a s
      | .error e => .error e s := reads_bind (fun _ => x) g s

/-- A loop goes on after a round that succeeds. -/
theorem forM_cons_ok {f : α → EStateM ε σ Unit} {a : α} {l : List α} {s s' : σ}
    (h : f a s = .ok () s') : (a :: l).forM f s = l.forM f s' := bind_ok h

/-- The state a computation leaves. -/
def Result.state : Result ε σ α → σ
  | .ok _ s => s
  | .error _ s => s

@[simp] theorem Result.state_ok (a : α) (s : σ) : (Result.ok a s : Result ε σ α).state = s := rfl

@[simp] theorem Result.state_error (e : ε) (s : σ) :
    (Result.error e s : Result ε σ α).state = s := rfl

/-- Whether a computation succeeded. -/
def Result.isOk : Result ε σ α → Bool
  | .ok _ _ => true
  | .error _ _ => false

theorem Result.eq_ok_of_isOk {r : Result ε σ α} (h : r.isOk) : ∃ a, r = .ok a r.state := by
  cases r with
  | ok a s => exact ⟨a, rfl⟩
  | error e s => cases h

/-- The computation does not change `p` of the state, even when it fails. -/
def Keeps {γ : Type} (p : σ → γ) (x : EStateM ε σ α) : Prop := ∀ s, p (x s).state = p s

section Keeps

variable {γ : Type} {p : σ → γ}

theorem Keeps.pure (a : α) : Keeps p (pure a : EStateM ε σ α) := fun _ => rfl

theorem Keeps.reads (f : σ → Except ε α) : Keeps p (reads f) := by
  intro s
  cases h : f s with
  | ok a => rw [reads_ok h, Result.state_ok]
  | error e => rw [reads_error h, Result.state_error]

theorem Keeps.checked (x : Except ε α) : Keeps p (checked x) := .reads fun _ => x

theorem Keeps.bind {x : EStateM ε σ α} {f : α → EStateM ε σ β} (hx : Keeps p x)
    (hf : ∀ a, Keeps p (f a)) : Keeps p (x >>= f) := by
  intro s
  have hs := hx s
  cases h : x s with
  | ok a s' => rw [bind_ok h, hf a s', ← hs, h, Result.state_ok]
  | error e s' => rw [bind_error h, ← hs, h, Result.state_error, Result.state_error]

/-- What the rest of a sequence keeps is as its beginning leaves it. -/
theorem Keeps.state_bind {x : EStateM ε σ α} {f : α → EStateM ε σ β} (hf : ∀ a, Keeps p (f a))
    (s : σ) : p ((x >>= f) s).state = p (x s).state := by
  cases h : x s with
  | ok a s' => rw [bind_ok h, hf a s', Result.state_ok]
  | error e s' => rw [bind_error h, Result.state_error, Result.state_error]

theorem Keeps.ite {c : Prop} [Decidable c] {x y : EStateM ε σ α} (hx : Keeps p x)
    (hy : Keeps p y) : Keeps p (if c then x else y) := by
  split_ifs
  · exact hx
  · exact hy

/-- A check that throws keeps the state. -/
theorem Keeps.throw_unless {c : Prop} [Decidable c] {e : ε} {f : PUnit → EStateM ε σ α}
    (hf : Keeps p (f ⟨⟩)) : Keeps p (if c then throw e >>= f else f ⟨⟩) :=
  .ite (Keeps.bind (fun _ => rfl) fun _ => hf) hf

/-- A loop keeps what its rounds keep. -/
theorem Keeps.forM {f : α → EStateM ε σ Unit} (hf : ∀ a, Keeps p (f a)) (l : List α) :
    Keeps p (l.forM f) := by
  induction l with
  | nil => exact Keeps.pure ()
  | cons a l ih => exact (hf a).bind fun _ => ih

end Keeps

/-- The computation takes each state to one that is related to it, also where it throws. -/
def Evolves (R : σ → σ → Prop) (x : EStateM ε σ α) : Prop := ∀ s, R s (x s).state

section Evolves

variable {R : σ → σ → Prop}

theorem Evolves.pure (hrefl : ∀ s, R s s) (a : α) : Evolves R (pure a : EStateM ε σ α) :=
  fun s => hrefl s

theorem Evolves.of_throw (hrefl : ∀ s, R s s) (e : ε) : Evolves R (throw e : EStateM ε σ α) :=
  fun s => hrefl s

theorem Evolves.checked (hrefl : ∀ s, R s s) (x : Except ε α) : Evolves R (checked x) := by
  intro s
  have hs : (EStateM.checked x s).state = s := Keeps.checked (p := id) x s
  rw [hs]
  exact hrefl s

/-- What comes after a computation may rely on its value. -/
theorem Evolves.bind_of_ok (htrans : ∀ s₁ s₂ s₃, R s₁ s₂ → R s₂ s₃ → R s₁ s₃)
    {x : EStateM ε σ α} {f : α → EStateM ε σ β} (hx : Evolves R x)
    (hf : ∀ s a s', x s = .ok a s' → Evolves R (f a)) : Evolves R (x >>= f) := by
  intro s
  have hs := hx s
  cases h : x s with
  | ok a s' =>
    rw [h] at hs
    rw [bind_ok h]
    exact htrans _ _ _ hs (hf s a s' h s')
  | error e s' =>
    rw [h] at hs
    rw [bind_error h]
    exact hs

theorem Evolves.bind (htrans : ∀ s₁ s₂ s₃, R s₁ s₂ → R s₂ s₃ → R s₁ s₃) {x : EStateM ε σ α}
    {f : α → EStateM ε σ β} (hx : Evolves R x) (hf : ∀ a, Evolves R (f a)) :
    Evolves R (x >>= f) :=
  .bind_of_ok htrans hx fun _ a _ _ => hf a

theorem Evolves.ite {c : Prop} [Decidable c] {x y : EStateM ε σ α} (hx : Evolves R x)
    (hy : Evolves R y) : Evolves R (if c then x else y) := by
  split_ifs
  · exact hx
  · exact hy

theorem Evolves.attempt {x : EStateM ε σ α} (hx : Evolves R x) : Evolves R (attempt x) := by
  intro s
  have hs := hx s
  rw [EStateM.attempt]
  cases h : x s with
  | ok a s' => rwa [h] at hs
  | error e s' => rwa [h] at hs

theorem Evolves.of_ok {x : EStateM ε σ α} (hx : Evolves R x) {s s' : σ} {a : α}
    (h : x s = .ok a s') : R s s' := by
  have hs := hx s
  rwa [h] at hs

end Evolves

/-- Between the two states the computation is run, with the value. -/
def Ran (R : σ → σ → Prop) (x : EStateM ε σ α) (a : α) (s s' : σ) : Prop :=
  ∃ s₁ s₂, R s s₁ ∧ x s₁ = .ok a s₂ ∧ R s₂ s'

theorem Ran.mono {R : σ → σ → Prop} (htrans : ∀ s₁ s₂ s₃, R s₁ s₂ → R s₂ s₃ → R s₁ s₃)
    {x : EStateM ε σ α} {a : α} {s₀ s s' s₃ : σ} (h : Ran R x a s s') (hbefore : R s₀ s)
    (hafter : R s' s₃) : Ran R x a s₀ s₃ := by
  obtain ⟨s₁, s₂, h₁, hrun, h₂⟩ := h
  exact ⟨s₁, s₂, htrans _ _ _ hbefore h₁, hrun, htrans _ _ _ h₂ hafter⟩

end EStateM

namespace StateT

variable {ε σ α β : Type}

/-- Every value a computation succeeds with satisfies `post`. -/
def Ensures (x : StateT σ (Except ε) α) (post : α → Prop) : Prop :=
  ∀ s a s', x s = .ok (a, s') → post a

section Ensures

variable {post : β → Prop}

theorem Ensures.pure {b : β} (h : post b) : Ensures (pure b : StateT σ (Except ε) β) post := by
  rintro s _ _ ⟨⟩
  exact h

theorem Ensures.bind {x : StateT σ (Except ε) α} {f : α → StateT σ (Except ε) β}
    (hf : ∀ a, Ensures (f a) post) : Ensures (x >>= f) post := by
  intro s b s' h
  change (x s >>= fun r => f r.1 r.2) = _ at h
  obtain ⟨r, -, h⟩ := Except.bind_eq_ok.1 h
  exact hf r.1 r.2 b s' h

theorem Ensures.throw_bind {e : ε} {f : α → StateT σ (Except ε) β} :
    Ensures ((throw e : StateT σ (Except ε) α) >>= f) post := by
  rintro s b s' ⟨⟩

theorem Ensures.ite {c : Prop} [Decidable c] {x y : StateT σ (Except ε) β}
    (hx : c → Ensures x post) (hy : ¬c → Ensures y post) : Ensures (if c then x else y) post := by
  split_ifs with h
  · exact hx h
  · exact hy h

end Ensures

/-- Every error a computation fails with satisfies `P`. -/
def Fails (P : ε → Prop) (x : StateT σ (Except ε) α) : Prop := ∀ s e, x s = .error e → P e

section Fails

variable {P : ε → Prop}

theorem Fails.pure (a : α) : Fails P (pure a : StateT σ (Except ε) α) := by
  rintro s e ⟨⟩

theorem Fails.get : Fails P (get : StateT σ (Except ε) σ) := by
  rintro s e ⟨⟩

theorem Fails.set (s : σ) : Fails P (set s : StateT σ (Except ε) PUnit) := by
  rintro s e ⟨⟩

theorem Fails.modify (f : σ → σ) : Fails P (modify f : StateT σ (Except ε) PUnit) := by
  rintro s e ⟨⟩

theorem Fails.lift {x : Except ε α} (h : ∀ e, x = .error e → P e) :
    Fails P (liftM x : StateT σ (Except ε) α) := by
  intro s e hs
  cases x with
  | ok a => cases hs
  | error e' =>
    cases hs
    exact h e rfl

theorem Fails.bind {x : StateT σ (Except ε) α} {f : α → StateT σ (Except ε) β}
    (hx : Fails P x) (hf : ∀ a, Fails P (f a)) : Fails P (x >>= f) := by
  intro s e h
  change (x s >>= fun r => f r.1 r.2) = _ at h
  cases hs : x s with
  | error e' =>
    rw [hs] at h
    cases h
    exact hx s e hs
  | ok r =>
    rw [hs] at h
    exact hf r.1 r.2 e h

theorem Fails.throw_bind {e : ε} {f : α → StateT σ (Except ε) β} (h : P e) :
    Fails P ((throw e : StateT σ (Except ε) α) >>= f) := by
  rintro s _ ⟨⟩
  exact h

theorem Fails.ite {c : Prop} [Decidable c] {x y : StateT σ (Except ε) α} (hx : Fails P x)
    (hy : Fails P y) : Fails P (if c then x else y) := by
  split_ifs
  · exact hx
  · exact hy

/-- A loop fails as its rounds do. -/
theorem Fails.forM {f : α → StateT σ (Except ε) PUnit} (hf : ∀ a, Fails P (f a)) (l : List α) :
    Fails P (l.forM f) := by
  induction l with
  | nil => exact Fails.pure _
  | cons a l ih => exact (hf a).bind fun _ => ih

end Fails

end StateT
