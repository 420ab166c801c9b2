import Hns.Lib.Fallible

/-!
# Computations on a view of the state

Two representations of one state: `view` shows the first as the second. A
computation on the first *tracks* one on the second at a state when it gives
the same value or error there, and leaves a state whose view is what the other
leaves. A sequence tracks another when its parts do, each at the state where it
is run (`Tracks.bind`), and so do computations on lists of items run one after
the other, while an invariant of the views is kept (`runEach_eq`).
-/

namespace EStateM

variable {ε σ τ α β : Type}

/-- The outcome of a computation, with the view of its state. -/
def Result.mapState (view : σ → τ) : Result ε σ α → Result ε τ α
  | .ok a s => .ok a (view s)
  | .error e s => .error e (view s)

/-- At the state, the computation does what `y` does on its view. -/
def Tracks (view : σ → τ) (x : EStateM ε σ α) (y : EStateM ε τ α) (s : σ) : Prop :=
  (x s).mapState view = y (view s)

section Tracks

variable {view : σ → τ} {s : σ}

theorem Tracks.of_ok {x : EStateM ε σ α} {y : EStateM ε τ α} {s' : σ} {a : α}
    (hx : x s = .ok a s') (hy : y (view s) = .ok a (view s')) : Tracks view x y s := by
  rw [Tracks, hx, hy]
  rfl

theorem Tracks.of_error {x : EStateM ε σ α} {y : EStateM ε τ α} {s' : σ} {e : ε}
    (hx : x s = .error e s') (hy : y (view s) = .error e (view s')) : Tracks view x y s := by
  rw [Tracks, hx, hy]
  rfl

theorem Tracks.pure (a : α) : Tracks view (pure a : EStateM ε σ α) (pure a) s := rfl

/-- Reading what the view shows. -/
theorem Tracks.reads {f : σ → Except ε α} {g : τ → Except ε α} (h : f s = g (view s)) :
    Tracks view (reads f) (reads g) s := by
  cases hg : g (view s) with
  | ok a => exact .of_ok (reads_ok (h.trans hg)) (reads_ok hg)
  | error e => exact .of_error (reads_error (h.trans hg)) (reads_error hg)

theorem Tracks.checked (x : Except ε α) :
    Tracks view (checked x : EStateM ε σ α) (EStateM.checked x) s :=
  .reads (f := fun _ => x) rfl

theorem Tracks.bind {x : EStateM ε σ α} {y : EStateM ε τ α} {f : α → EStateM ε σ β}
    {g : α → EStateM ε τ β} (hx : Tracks view x y s)
    (hf : ∀ a s', x s = .ok a s' → Tracks view (f a) (g a) s') :
    Tracks view (x >>= f) (y >>= g) s := by
  rw [Tracks] at hx ⊢
  cases h : x s with
  | ok a s' =>
    rw [h] at hx
    rw [bind_ok h, bind_ok hx.symm]
    exact hf a s' h
  | error e s' =>
    rw [h] at hx
    rw [bind_error h, bind_error hx.symm]
    rfl

/-- A sequence that begins by reading what the view shows. -/
theorem Tracks.reads_bind {f : σ → Except ε α} {g : τ → Except ε α} {x : α → EStateM ε σ β}
    {y : α → EStateM ε τ β} (h : f s = g (view s))
    (hx : ∀ a, f s = .ok a → Tracks view (x a) (y a) s) :
    Tracks view (EStateM.reads f >>= x) (EStateM.reads g >>= y) s := by
  refine .bind (.reads h) fun a s' hs => ?_
  obtain ⟨ha, rfl⟩ := reads_eq_ok.1 hs
  exact hx a ha

theorem Tracks.checked_bind {e : Except ε α} {x : α → EStateM ε σ β} {y : α → EStateM ε τ β}
    (hx : ∀ a, e = .ok a → Tracks view (x a) (y a) s) :
    Tracks view (EStateM.checked e >>= x) (EStateM.checked e >>= y) s :=
  .reads_bind (f := fun _ => e) rfl hx

theorem Tracks.ite {c : Prop} [Decidable c] {x x' : EStateM ε σ α} {y y' : EStateM ε τ α}
    (hx : c → Tracks view x y s) (hx' : ¬c → Tracks view x' y' s) :
    Tracks view (if c then x else x') (if c then y else y') s := by
  split_ifs with hc
  · exact hx hc
  · exact hx' hc

theorem Result.state_mapState (r : Result ε σ α) : (r.mapState view).state = view r.state := by
  cases r <;> rfl

theorem Tracks.state_eq {x : EStateM ε σ α} {y : EStateM ε τ α} (h : Tracks view x y s) :
    (y (view s)).state = view (x s).state := by
  rw [← h, Result.state_mapState]

end Tracks

/-- What is done with its value does not change the state a computation leaves. -/
theorem state_map (f : α → β) (x : EStateM ε σ α) (s : σ) :
    ((f <$> x) s).state = (x s).state := Keeps.state_bind (p := id) (fun _ => .pure _) s

/-! ## One after the other -/

/-- What a computation gives. -/
def Result.value : Result ε σ α → Except ε α
  | .ok a _ => .ok a
  | .error e _ => .error e

theorem Result.value_mapState (view : σ → τ) (r : Result ε σ α) :
    (r.mapState view).value = r.value := by
  cases r <;> rfl

/-- The items of a list one after the other, whether the ones before fail or not: what each
    gives, and the state in the end. -/
def runEach (f : β → EStateM ε σ α) : List β → σ → List (Except ε α) × σ
  | [], s => ([], s)
  | b :: l, s =>
    let r := f b s
    let rest := runEach f l r.state
    (r.value :: rest.1, rest.2)

/-- Computations that track others where an invariant of the views holds, which they keep. -/
theorem runEach_eq {view : σ → τ} {Inv : τ → Prop} {f : β → EStateM ε σ α}
    {g : β → EStateM ε τ α} (htracks : ∀ b s, Inv (view s) → Tracks view (f b) (g b) s)
    (hinv : ∀ b t, Inv t → Inv (g b t).state) (l : List β) {s : σ} (h : Inv (view s)) :
    (runEach f l s).1 = (runEach g l (view s)).1 ∧
      view (runEach f l s).2 = (runEach g l (view s)).2 := by
  induction l generalizing s with
  | nil => exact ⟨rfl, rfl⟩
  | cons b l ih =>
    have hstep := htracks b s h
    have hstate := hstep.state_eq
    have hvalue : (f b s).value = (g b (view s)).value := by rw [← hstep, Result.value_mapState]
    obtain ⟨hvalues, hview⟩ := @ih (f b s).state (hstate ▸ hinv b (view s) h)
    rw [← hstate] at hvalues hview
    exact ⟨congrArg₂ List.cons hvalue hvalues, hview⟩

end EStateM
