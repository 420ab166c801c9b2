import Hns.Lib.Fallible

/-!
# Programs of atomic actions

Programs that share a state. Each does one action at a time, and the others do
theirs in between, in any order (`Pool.Step`). What holds of a program whatever
the others do (`Atomic.Meets`) is about the history of the state: what a program
has seen at some time may not be so any more when it is done.

* `Meets.bind`, `Gives.bind`: a sequence meets what its parts meet, one after the
  other;
* `Pool.Reachable.meets`: in a pool, a program meets what it meets by itself, if
  all that the others do is allowed;
* `Pool.Reachable.alone`: a program may also do all that it does without any
  other one in between (`Atomic.alone`).
-/

/-- A program on a shared state: it is done, or it changes the state and goes on with what it has
    seen before the change. -/
inductive Atomic (σ α : Type)
  | done (result : α)
  | act (update : σ → σ) (next : σ → Atomic σ α)

namespace Atomic

variable {σ ε α β : Type}

def bind : Atomic σ α → (α → Atomic σ β) → Atomic σ β
  | .done result, f => f result
  | .act update next, f => .act update fun s => (next s).bind f

instance : Monad (Atomic σ) where
  pure := .done
  bind := bind

/-- One action that changes nothing. -/
def read (f : σ → α) : Atomic σ α := .act id fun s => .done (f s)

/-- One action with a result. -/
def change (f : σ → α × σ) : Atomic σ α := .act (fun s => (f s).2) fun s => .done (f s).1

end Atomic

/-! ## Histories -/

/-- The states of a shared state up to now, the latest first. -/
structure History (σ : Type) where
  now : σ
  past : List σ

namespace History

variable {σ : Type} {allowed : σ → σ → Prop} {h h₁ h₂ : History σ}

def states (h : History σ) : List σ := h.now :: h.past

def push (h : History σ) (s : σ) : History σ := ⟨s, h.now :: h.past⟩

/-- What comes after, when all that happens is allowed. -/
inductive Extends (allowed : σ → σ → Prop) (h : History σ) : History σ → Prop
  | refl : Extends allowed h h
  | push {h' : History σ} {s : σ} : Extends allowed h h' → allowed h'.now s →
      Extends allowed h (h'.push s)

theorem Extends.trans (h₀ : h.Extends allowed h₁) (h₁₂ : h₁.Extends allowed h₂) :
    h.Extends allowed h₂ := by
  induction h₁₂ with
  | refl => exact h₀
  | push _ hstep ih => exact .push ih hstep

theorem Extends.suffix (he : h.Extends allowed h₁) : h.states <:+ h₁.states := by
  induction he with
  | refl => exact List.suffix_rfl
  | push _ _ ih => exact ih.trans (List.suffix_cons _ _)

/-- What every step keeps holds from then on. -/
theorem Extends.keeps {p : σ → Prop} (hkeep : ∀ s s', allowed s s' → p s → p s')
    (he : h.Extends allowed h₁) (hp : p h.now) : p h₁.now := by
  induction he with
  | refl => exact hp
  | push _ hstep ih => exact hkeep _ _ hstep ih

end History

/-! ## What programs meet -/

namespace Atomic

open History

variable {σ ε α β : Type} {allowed : σ → σ → Prop} {h h' : History σ}

/-- Whatever is allowed happens in between, the program does only what is allowed, and its result is
    as it should be from then on. -/
def Meets (allowed : σ → σ → Prop) (post : History σ → α → Prop) : Atomic σ α → History σ → Prop
  | .done result, h => ∀ h', h.Extends allowed h' → post h' result
  | .act update next, h => ∀ h', h.Extends allowed h' →
      allowed h'.now (update h'.now) ∧ (next h'.now).Meets allowed post (h'.push (update h'.now))

theorem Meets.of_extends {post : History σ → α → Prop} {p : Atomic σ α}
    (hp : p.Meets allowed post h) (he : h.Extends allowed h') : p.Meets allowed post h' := by
  cases p with
  | done result => exact fun h'' he' => hp h'' (he.trans he')
  | act update next => exact fun h'' he' => hp h'' (he.trans he')

theorem Meets.mono {post post' : History σ → α → Prop} {p : Atomic σ α}
    (hp : p.Meets allowed post h) (hpost : ∀ h' a, post h' a → post' h' a) :
    p.Meets allowed post' h := by
  induction p generalizing h with
  | done result => exact fun h' he => hpost _ _ (hp h' he)
  | act update next ih => exact fun h' he => ⟨(hp h' he).1, ih _ (hp h' he).2⟩

/-- What a program meets is met after its start. -/
theorem Meets.and_extends {post : History σ → α → Prop} {p : Atomic σ α}
    (hp : p.Meets allowed post h) (he : h'.Extends allowed h) :
    p.Meets allowed (fun h₁ a => post h₁ a ∧ h'.Extends allowed h₁) h := by
  induction p generalizing h with
  | done result => exact fun h₁ he₁ => ⟨hp h₁ he₁, he.trans he₁⟩
  | act update next ih =>
    intro h₁ he₁
    obtain ⟨hallowed, hnext⟩ := hp h₁ he₁
    exact ⟨hallowed, ih _ hnext ((he.trans he₁).push hallowed)⟩

/-- A sequence meets what its second part meets after the first one. -/
theorem Meets.bind {post : History σ → β → Prop} {p : Atomic σ α} {f : α → Atomic σ β}
    (hp : p.Meets allowed (fun h a => (f a).Meets allowed post h) h) :
    (p >>= f).Meets allowed post h := by
  induction p generalizing h with
  | done result => exact hp h .refl
  | act update next ih => exact fun h' he => ⟨(hp h' he).1, ih _ (hp h' he).2⟩

theorem Meets.pure {post : History σ → α → Prop} {a : α}
    (hpost : ∀ h', h.Extends allowed h' → post h' a) :
    (Pure.pure a : Atomic σ α).Meets allowed post h := hpost

/-- To read the state is to see it at some time from now on. -/
theorem Meets.read {post : History σ → α → Prop} {f : σ → α} (hrefl : ∀ s, allowed s s)
    (hpost : ∀ h₁ h₂, h.Extends allowed h₁ → h₁.Extends allowed h₂ → post h₂ (f h₁.now)) :
    (Atomic.read f).Meets allowed post h := fun h₁ he =>
  ⟨hrefl _, fun h₂ he' => hpost h₁ h₂ he ((Extends.push .refl (hrefl _)).trans he')⟩

/-- A change is made at some time from now on. -/
theorem Meets.change {post : History σ → α → Prop} {f : σ → α × σ}
    (hallowed : ∀ h₁, h.Extends allowed h₁ → allowed h₁.now (f h₁.now).2)
    (hpost : ∀ h₁ h₂, h.Extends allowed h₁ → h.Extends allowed h₂ →
      (h₁.push (f h₁.now).2).Extends allowed h₂ → post h₂ (f h₁.now).1) :
    (Atomic.change f).Meets allowed post h := fun h₁ he =>
  ⟨hallowed h₁ he, fun h₂ he' => hpost h₁ h₂ he ((he.push (hallowed h₁ he)).trans he') he'⟩

/-! ### Programs that may fail -/

/-- What is asked of a result, and what is asked of an error. -/
def outcome (ok : History σ → α → Prop) (error : History σ → ε → Prop) :
    History σ → Except ε α → Prop
  | h, .ok a => ok h a
  | h, .error e => error h e

/-- Whatever is allowed happens in between, the program does only what is allowed, and if it does not
    fail its result is as it should be from then on. -/
def Gives (allowed : σ → σ → Prop) (ok : History σ → α → Prop) (p : ExceptT ε (Atomic σ) α)
    (h : History σ) : Prop :=
  p.run.Meets allowed (outcome ok fun _ _ => True) h

theorem Gives.of_extends {ok : History σ → α → Prop} {p : ExceptT ε (Atomic σ) α}
    (hp : Gives allowed ok p h) (he : h.Extends allowed h') : Gives allowed ok p h' :=
  Meets.of_extends hp he

theorem Gives.mono {ok ok' : History σ → α → Prop} {p : ExceptT ε (Atomic σ) α}
    (hp : Gives allowed ok p h) (hok : ∀ h' a, ok h' a → ok' h' a) : Gives allowed ok' p h :=
  Meets.mono hp fun h' a ha => by
    cases a with
    | ok a => exact hok h' a ha
    | error e => trivial

/-- A sequence ends when its first part fails, or gives what its second part gives after it. -/
theorem Gives.bind {ok : History σ → β → Prop} {p : ExceptT ε (Atomic σ) α}
    {f : α → ExceptT ε (Atomic σ) β}
    (hp : Gives allowed (fun h a => Gives allowed ok (f a) h) p h) :
    Gives allowed ok (p >>= f) h := by
  change (Atomic.bind p (ExceptT.bindCont f)).Meets allowed _ h
  replace hp : Atomic.Meets allowed _ p h := hp
  induction p generalizing h with
  | done result =>
    cases result with
    | ok a => exact hp h .refl
    | error e => exact hp
  | act update next ih => exact fun h' he => ⟨(hp h' he).1, ih _ (hp h' he).2⟩

/-- What a program gives is given after its start. -/
theorem Gives.and_extends {ok : History σ → α → Prop} {p : ExceptT ε (Atomic σ) α}
    (hp : Gives allowed ok p h) : Gives allowed (fun h' a => ok h' a ∧ h.Extends allowed h') p h :=
  (Meets.and_extends hp .refl).mono fun h' a ha => by
    cases a with
    | ok a => exact ha
    | error e => trivial

theorem Gives.pure {ok : History σ → α → Prop} {a : α}
    (hok : ∀ h', h.Extends allowed h' → ok h' a) :
    Gives allowed ok (Pure.pure a : ExceptT ε (Atomic σ) α) h := hok

theorem Gives.throw {ok : History σ → α → Prop} {e : ε} :
    Gives allowed ok (throw e : ExceptT ε (Atomic σ) α) h := fun _ _ => trivial

theorem Gives.settled {ok : History σ → α → Prop} {x : Except ε α}
    (hok : ∀ a h', x = .ok a → h.Extends allowed h' → ok h' a) :
    Gives allowed ok (ExceptT.mk (Pure.pure x) : ExceptT ε (Atomic σ) α) h := by
  intro h' he
  cases x with
  | ok a => exact hok a h' rfl he
  | error e => trivial

theorem Gives.read {ok : History σ → α → Prop} {f : σ → Except ε α} (hrefl : ∀ s, allowed s s)
    (hok : ∀ a h₁ h₂, f h₁.now = .ok a → h.Extends allowed h₁ → h₁.Extends allowed h₂ → ok h₂ a) :
    Gives allowed ok (ExceptT.mk (Atomic.read f) : ExceptT ε (Atomic σ) α) h := by
  refine Meets.read hrefl fun h₁ h₂ he he' => ?_
  cases hf : f h₁.now with
  | ok a => exact hok a h₁ h₂ hf he he'
  | error e => trivial

theorem Gives.change {ok : History σ → α → Prop} {f : σ → Except ε α × σ}
    (hallowed : ∀ h₁, h.Extends allowed h₁ → allowed h₁.now (f h₁.now).2)
    (hok : ∀ a h₁ h₂, (f h₁.now).1 = .ok a → h.Extends allowed h₁ → h.Extends allowed h₂ →
      (h₁.push (f h₁.now).2).Extends allowed h₂ → ok h₂ a) :
    Gives allowed ok (ExceptT.mk (Atomic.change f) : ExceptT ε (Atomic σ) α) h := by
  refine Meets.change hallowed fun h₁ h₂ he he₂ he' => ?_
  cases hf : (f h₁.now).1 with
  | ok a => exact hok a h₁ h₂ hf he he₂ he'
  | error e => trivial

/-- Once a program is done, its result is as it should be. -/
theorem Meets.result {post : History σ → α → Prop} {a : α}
    (hp : (Atomic.done a).Meets allowed post h) : post h a := hp h .refl

/-! ### Programs alone -/

/-- The result of a program, and the history after it, when nothing else happens in between. -/
def alone : Atomic σ α → History σ → α × History σ
  | .done result, h => (result, h)
  | .act update next, h => (next h.now).alone (h.push (update h.now))

@[simp] theorem alone_pure (a : α) (h : History σ) : (pure a : Atomic σ α).alone h = (a, h) := rfl

@[simp] theorem alone_read (f : σ → α) (h : History σ) :
    (Atomic.read f).alone h = (f h.now, h.push h.now) := rfl

@[simp] theorem alone_change (f : σ → α × σ) (h : History σ) :
    (Atomic.change f).alone h = ((f h.now).1, h.push (f h.now).2) := rfl

@[simp] theorem alone_bind (p : Atomic σ α) (f : α → Atomic σ β) (h : History σ) :
    (p >>= f).alone h = (f (p.alone h).1).alone (p.alone h).2 := by
  induction p generalizing h with
  | done result => rfl
  | act update next ih => exact ih _ _

/-- A sequence goes on after what has not failed. -/
theorem alone_run_bind {p : ExceptT ε (Atomic σ) α} {f : α → ExceptT ε (Atomic σ) β} {a : α}
    (hp : p.run.alone h = (.ok a, h')) : (p >>= f).run.alone h = (f a).run.alone h' := by
  change (Atomic.bind p (ExceptT.bindCont f)).alone h = _
  rw [show Atomic.bind p (ExceptT.bindCont f) = p.run >>= ExceptT.bindCont f from rfl, alone_bind,
    hp]
  rfl

end Atomic

/-! ## Pools of programs -/

/-- A program that has been started with an input, and what is left of it. -/
structure Thread (σ ι α : Type) where
  input : ι
  started : History σ
  rest : Atomic σ α

/-- Programs on one state. -/
structure Pool (σ ι α : Type) where
  history : History σ
  threads : List (Thread σ ι α)

namespace Pool

variable {σ ι α : Type}

def initial (s : σ) : Pool σ ι α := ⟨⟨s, []⟩, []⟩

/-- A program is started, or one of them does an action, or the state is changed otherwise. -/
inductive Step (program : ι → Atomic σ α) (others : σ → σ → Prop) : Pool σ ι α → Pool σ ι α → Prop
  | start (input : ι) (pool : Pool σ ι α) : Step program others pool
      ⟨pool.history, pool.threads ++ [⟨input, pool.history, program input⟩]⟩
  | act {pool : Pool σ ι α} {before after : List (Thread σ ι α)} {input : ι} {started : History σ}
      {update : σ → σ} {next : σ → Atomic σ α}
      (hthread : pool.threads = before ++ ⟨input, started, .act update next⟩ :: after) :
      Step program others pool ⟨pool.history.push (update pool.history.now),
        before ++ ⟨input, started, next pool.history.now⟩ :: after⟩
  | other {pool : Pool σ ι α} {s : σ} (h : others pool.history.now s) :
      Step program others pool ⟨pool.history.push s, pool.threads⟩

inductive Reachable (program : ι → Atomic σ α) (others : σ → σ → Prop) (init : σ → Prop) :
    Pool σ ι α → Prop
  | init {s : σ} : init s → Reachable program others init (initial s)
  | step {pool pool' : Pool σ ι α} : Reachable program others init pool →
      Step program others pool pool' → Reachable program others init pool'

variable {program : ι → Atomic σ α} {others allowed : σ → σ → Prop} {init p : σ → Prop}
  {post : ι → History σ → History σ → α → Prop}

/-- What the programs of a pool meet, if each of them meets it by itself from a state with what
    everything that is allowed keeps. -/
theorem Reachable.meets {pool : Pool σ ι α} (hinit : ∀ s, init s → p s)
    (hkeep : ∀ s s', allowed s s' → p s → p s') (hothers : ∀ s s', others s s' → allowed s s')
    (hprogram : ∀ input h, p h.now → (program input).Meets allowed (post input h) h)
    (h : Reachable program others init pool) :
    p pool.history.now ∧ ∀ thread ∈ pool.threads,
      thread.rest.Meets allowed (post thread.input thread.started) pool.history := by
  induction h with
  | init h => exact ⟨hinit _ h, fun _ hmem => absurd hmem List.not_mem_nil⟩
  | step _ hstep ih =>
    obtain ⟨hp, hmeets⟩ := ih
    cases hstep with
    | start input =>
      refine ⟨hp, fun thread hmem => ?_⟩
      rcases List.mem_append.1 hmem with hmem | hmem
      · exact hmeets thread hmem
      · rw [List.mem_singleton] at hmem
        subst hmem
        exact hprogram input _ hp
    | act hthread =>
      rw [hthread] at hmeets
      have hnext := hmeets _ (List.mem_append_right _ List.mem_cons_self) _ .refl
      refine ⟨hkeep _ _ hnext.1 hp, fun thread hmem => ?_⟩
      rcases List.mem_append.1 hmem with hmem | hmem
      · exact (hmeets thread (List.mem_append_left _ hmem)).of_extends (.push .refl hnext.1)
      · rcases List.mem_cons.1 hmem with rfl | hmem
        · exact hnext.2
        · exact (hmeets thread (List.mem_append_right _ (List.mem_cons_of_mem _ hmem))).of_extends
            (.push .refl hnext.1)
    | other hs =>
      exact ⟨hkeep _ _ (hothers _ _ hs) hp, fun thread hmem =>
        (hmeets thread hmem).of_extends (.push .refl (hothers _ _ hs))⟩

/-- A program of a pool may go on alone. -/
theorem Reachable.alone_of_thread {pool : Pool σ ι α} (h : Reachable program others init pool)
    {before after : List (Thread σ ι α)} {input : ι} {started : History σ} {rest : Atomic σ α}
    (hthread : pool.threads = before ++ ⟨input, started, rest⟩ :: after) :
    Reachable program others init ⟨(rest.alone pool.history).2,
      before ++ ⟨input, started, .done (rest.alone pool.history).1⟩ :: after⟩ := by
  induction rest generalizing pool with
  | done result =>
    have hpool : pool = ⟨pool.history, before ++ ⟨input, started, .done result⟩ :: after⟩ := by
      rw [← hthread]
    exact hpool ▸ h
  | act update next ih => exact ih _ (h.step (.act hthread)) rfl

/-- A program may be started, and run alone. -/
theorem Reachable.alone {pool : Pool σ ι α} (h : Reachable program others init pool) (input : ι) :
    Reachable program others init ⟨((program input).alone pool.history).2,
      pool.threads ++ [⟨input, pool.history, .done ((program input).alone pool.history).1⟩]⟩ :=
  alone_of_thread (h.step (.start input pool)) rfl

end Pool
