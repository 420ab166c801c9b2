import Mathlib.Tactic

/-!
# Loops that receive

A loop that receives items until one of them makes it return. It also returns
when nothing more can be received; what it is to receive next may go on without
an end, so that the loop need not return at all.

* `returnsWithin_iff_after`: a loop returns in time if receiving fails in time, or if
  the first items do not leave it waiting;
* `Steady.after_eq_none_iff`: which items end a loop whose state does not change
  but for the answers that it has sent.
-/

namespace Hns

/-- A loop over what it receives: on an item it returns or goes on, on a failure it returns. -/
structure ReceiveLoop (σ ι ε β : Type) where
  next : σ → ι → β ⊕ σ
  fail : σ → ε → β

namespace ReceiveLoop

variable {σ ι ε β : Type} (loop : ReceiveLoop σ ι ε β)

/-- What the loop returns after at most `fuel` rounds, with the number of items it has consumed. -/
def run : ℕ → σ → (ℕ → Except ε ι) → Option (ℕ × β)
  | 0, _, _ => none
  | fuel + 1, s, receive =>
    match receive 0 with
    | .error e => some (0, loop.fail s e)
    | .ok item =>
      match loop.next s item with
      | .inl result => some (1, result)
      | .inr s => (run fuel s fun k => receive (k + 1)).map fun (n, result) => (n + 1, result)

/-- The loop returns, and has not consumed more than `bound` items then. -/
def ReturnsWithin (bound : ℕ) (s : σ) (receive : ℕ → Except ε ι) : Prop :=
  ∃ fuel n result, loop.run fuel s receive = some (n, result) ∧ n ≤ bound

/-- A call returns in time at its start, or in the loop that it goes on with. -/
def CallReturnsWithin (bound : ℕ) (start : β ⊕ σ) (receive : ℕ → Except ε ι) : Prop :=
  match start with
  | .inl _ => True
  | .inr s => loop.ReturnsWithin bound s receive

/-- The state in which the loop waits for more after the items, unless it has returned. -/
def after : σ → List ι → Option σ
  | s, [] => some s
  | s, item :: items =>
    match loop.next s item with
    | .inl _ => none
    | .inr s => after s items

/-- What the loop returns on the items, after which receiving fails. -/
def finish : σ → List ι → ε → β
  | s, [], e => loop.fail s e
  | s, item :: items, e =>
    match loop.next s item with
    | .inl result => result
    | .inr s => finish s items e

/-- What a call returns on the items, after which receiving fails. -/
def finishCall (start : β ⊕ σ) (items : List ι) (e : ε) : β :=
  match start with
  | .inl result => result
  | .inr s => loop.finish s items e

end ReceiveLoop

/-- The items among the first `n` that are received. -/
def firstReceived {ι ε : Type} (receive : ℕ → Except ε ι) (n : ℕ) : List ι :=
  (List.range n).filterMap fun k => (receive k).toOption

/-- The items are received, and then receiving fails. -/
def receiveThenFail {ι ε : Type} (items : List ι) (e : ε) (k : ℕ) : Except ε ι :=
  match items[k]? with
  | some item => .ok item
  | none => .error e

section First

variable {ι ε : Type} {receive : ℕ → Except ε ι}

@[simp] theorem firstReceived_zero : firstReceived receive 0 = [] := rfl

theorem firstReceived_succ {item : ι} (h : receive 0 = .ok item) (n : ℕ) :
    firstReceived receive (n + 1) = item :: firstReceived (fun k => receive (k + 1)) n := by
  rw [firstReceived, List.range_succ_eq_map, List.filterMap_cons_some (b := item) (by rw [h]; rfl),
    List.filterMap_map]
  rfl

@[simp] theorem firstReceived_const (item : ι) (n : ℕ) :
    firstReceived (fun _ => (.ok item : Except ε ι)) n = List.replicate n item := by
  induction n with
  | zero => rfl
  | succ n ih =>
    have hfirst : firstReceived (fun _ => (.ok item : Except ε ι)) (n + 1) =
        item :: firstReceived (fun _ => (.ok item : Except ε ι)) n :=
      @firstReceived_succ _ _ (fun _ => .ok item) _ rfl n
    rw [hfirst, ih, List.replicate_succ]

theorem firstReceived_one {item : ι} (h : receive 0 = .ok item) :
    firstReceived receive 1 = [item] := firstReceived_succ h 0

end First

namespace ReceiveLoop

variable {σ ι ε β : Type} {loop : ReceiveLoop σ ι ε β} {s s' : σ} {receive : ℕ → Except ε ι}

/-! ## When a loop returns -/

theorem returnsWithin_of_error {e : ε} (h : receive 0 = .error e) (bound : ℕ) :
    loop.ReturnsWithin bound s receive :=
  ⟨1, 0, loop.fail s e, by simp only [run, h], bound.zero_le⟩

/-- A loop that receives an item consumes it. -/
theorem not_returnsWithin_zero {item : ι} (h : receive 0 = .ok item) :
    ¬loop.ReturnsWithin 0 s receive := by
  rintro ⟨fuel, n, result, hrun, hle⟩
  obtain rfl : n = 0 := Nat.le_zero.1 hle
  cases fuel with
  | zero => cases hrun
  | succ fuel =>
    simp only [run, h] at hrun
    cases hnext : loop.next s item with
    | inl result => simp [hnext] at hrun
    | inr s' => simp [hnext] at hrun

theorem returnsWithin_of_next_inl {item : ι} {result : β} (h : receive 0 = .ok item)
    (hnext : loop.next s item = .inl result) (bound : ℕ) :
    loop.ReturnsWithin (bound + 1) s receive :=
  ⟨1, 1, result, by simp only [run, h, hnext], Nat.le_add_left 1 bound⟩

theorem returnsWithin_succ_iff {item : ι} (h : receive 0 = .ok item)
    (hnext : loop.next s item = .inr s') (bound : ℕ) :
    loop.ReturnsWithin (bound + 1) s receive ↔
      loop.ReturnsWithin bound s' fun k => receive (k + 1) := by
  constructor
  · rintro ⟨fuel, n, result, hrun, hle⟩
    cases fuel with
    | zero => cases hrun
    | succ fuel =>
      simp only [run, h, hnext, Option.map_eq_some_iff, Prod.exists] at hrun
      obtain ⟨n', result', hrun, hpair⟩ := hrun
      obtain ⟨rfl, rfl⟩ := Prod.mk.inj hpair
      exact ⟨fuel, n', result', hrun, Nat.le_of_succ_le_succ hle⟩
  · rintro ⟨fuel, n, result, hrun, hle⟩
    exact ⟨fuel + 1, n + 1, result, by simp only [run, h, hnext, hrun, Option.map_some],
      Nat.succ_le_succ hle⟩

/-- A loop returns in time just when receiving fails in time or the first items end it. -/
theorem returnsWithin_iff_after (bound : ℕ) :
    loop.ReturnsWithin bound s receive ↔
      (∃ k ≤ bound, ∃ e, receive k = .error e) ∨
        loop.after s (firstReceived receive bound) = none := by
  induction bound generalizing s receive with
  | zero =>
    cases h : receive 0 with
    | error e => exact iff_of_true (returnsWithin_of_error h 0) (.inl ⟨0, le_rfl, e, h⟩)
    | ok item =>
      refine iff_of_false (not_returnsWithin_zero h) ?_
      simp [after, h]
  | succ bound ih =>
    cases h : receive 0 with
    | error e =>
      exact iff_of_true (returnsWithin_of_error h _) (.inl ⟨0, Nat.zero_le _, e, h⟩)
    | ok item =>
      -- Whether receiving fails is decided by what follows the item.
      have hfails : (∃ k ≤ bound + 1, ∃ e, receive k = .error e) ↔
          ∃ k ≤ bound, ∃ e, receive (k + 1) = .error e := by
        constructor
        · rintro ⟨_ | k, hk, e, he⟩
          · cases h.symm.trans he
          · exact ⟨k, Nat.le_of_succ_le_succ hk, e, he⟩
        · rintro ⟨k, hk, e, he⟩
          exact ⟨k + 1, Nat.succ_le_succ hk, e, he⟩
      rw [firstReceived_succ h, after, hfails]
      cases hnext : loop.next s item with
      | inl result => exact iff_of_true (returnsWithin_of_next_inl h hnext _) (.inr rfl)
      | inr s' => rw [returnsWithin_succ_iff h hnext, ih]

/-- On finitely many items a loop returns, as `finish` says. -/
theorem exists_run_receiveThenFail (s : σ) (items : List ι) (e : ε) :
    ∃ n ≤ items.length, loop.run (items.length + 1) s (receiveThenFail items e) =
      some (n, loop.finish s items e) := by
  induction items generalizing s with
  | nil => exact ⟨0, le_rfl, rfl⟩
  | cons item items ih =>
    have hfirst : receiveThenFail (item :: items) e 0 = .ok item := rfl
    have hrest : (fun k => receiveThenFail (item :: items) e (k + 1)) = receiveThenFail items e :=
      rfl
    rw [List.length_cons]
    cases hnext : loop.next s item with
    | inl result =>
      refine ⟨1, Nat.le_add_left 1 _, ?_⟩
      rw [run, hfirst]
      simp only [finish, hnext]
    | inr s' =>
      obtain ⟨n, hle, hrun⟩ := ih s'
      refine ⟨n + 1, Nat.succ_le_succ hle, ?_⟩
      rw [run, hfirst]
      simp only [finish, hnext, hrest, hrun, Option.map_some]

end ReceiveLoop

/-! ## Replies -/

/-- None of the first `n` things that are sent fails, where what is not in the list does not. -/
def AllSent {δ : Type} (sends : List (Option δ)) (n : ℕ) : Prop := ∀ send ∈ sends.take n, send = none

namespace AllSent

variable {δ : Type} {sends : List (Option δ)} {n : ℕ}

@[simp] theorem zero (sends : List (Option δ)) : AllSent sends 0 := by simp [AllSent]

@[simp] theorem nil (n : ℕ) : AllSent ([] : List (Option δ)) n := by simp [AllSent]

theorem succ_iff : AllSent sends (n + 1) ↔ AllSent sends 1 ∧ AllSent sends.tail n := by
  cases sends <;> simp [AllSent]

@[simp] theorem none_cons : AllSent (none :: sends) 1 := by simp [AllSent]

@[simp] theorem some_cons (error : δ) : ¬AllSent (some error :: sends) 1 := by simp [AllSent]

end AllSent

namespace ReceiveLoop

variable {σ ι ε β δ : Type} {loop : ReceiveLoop σ ι ε β} {state : List (Option δ) → σ}
  {answered : ι → Bool} {keep : ι → Prop}

/-- The loop goes on waiting on the items of `keep`, and answers those that are `answered`. Its state
    is given by what becomes of what it has yet to send. -/
structure Steady (loop : ReceiveLoop σ ι ε β) (state : List (Option δ) → σ) (answered : ι → Bool)
    (keep : ι → Prop) : Prop where
  ignored : ∀ {item} sends, keep item → answered item = false →
    loop.next (state sends) item = .inr (state sends)
  sent : ∀ {item sends}, keep item → answered item → AllSent sends 1 →
    loop.next (state sends) item = .inr (state sends.tail)
  unsent : ∀ {item sends}, keep item → answered item → ¬AllSent sends 1 →
    ∃ result, loop.next (state sends) item = .inl result
  ends : ∀ {item} sends, ¬keep item → ∃ result, loop.next (state sends) item = .inl result

/-- Such a loop returns on an item that it does not wait on, and when an answer cannot be sent. -/
theorem Steady.after_eq_none_iff (h : loop.Steady state answered keep) (sends : List (Option δ))
    (items : List ι) :
    loop.after (state sends) items = none ↔
      ¬((∀ item ∈ items, keep item) ∧ AllSent sends (items.countP answered)) := by
  induction items generalizing sends with
  | nil => simp [after]
  | cons item items ih =>
    rw [after, List.forall_mem_cons]
    by_cases hkeep : keep item
    · cases hanswered : answered item with
      | false =>
        have hcount : (item :: items).countP answered = items.countP answered :=
          List.countP_cons_of_neg (by simp [hanswered])
        rw [h.ignored sends hkeep hanswered, hcount]
        simp only [hkeep, true_and, ih]
      | true =>
        rw [List.countP_cons_of_pos hanswered, AllSent.succ_iff]
        by_cases hsent : AllSent sends 1
        · rw [h.sent hkeep hanswered hsent]
          simp only [hkeep, hsent, true_and, ih]
        · obtain ⟨result, hnext⟩ := h.unsent hkeep hanswered hsent
          simp [hnext, hsent]
    · obtain ⟨result, hnext⟩ := h.ends sends hkeep
      simp [hnext, hkeep]

/-- A call that starts by sending something returns in time if receiving fails in time, if the first
    items do not leave it waiting, or if it cannot send what it starts with and its answers. -/
theorem callReturnsWithin_iff {start : β ⊕ σ} {sends : List (Option δ)} {waits : List ι → Prop}
    (hsent : AllSent sends 1 → start = .inr (state sends.tail))
    (hunsent : ¬AllSent sends 1 → ∃ result, start = .inl result)
    (hafter : ∀ sends items, loop.after (state sends) items = none ↔
      ¬(waits items ∧ AllSent sends (items.countP answered)))
    (bound : ℕ) (receive : ℕ → Except ε ι) :
    loop.CallReturnsWithin bound start receive ↔
      (∃ k ≤ bound, ∃ e, receive k = .error e) ∨
        ¬(waits (firstReceived receive bound) ∧
          AllSent sends ((firstReceived receive bound).countP answered + 1)) := by
  rw [AllSent.succ_iff]
  by_cases h : AllSent sends 1
  · rw [hsent h, CallReturnsWithin, returnsWithin_iff_after, hafter]
    simp only [h, true_and]
  · obtain ⟨result, hstart⟩ := hunsent h
    rw [hstart]
    exact iff_of_true trivial (.inr fun hwaits => h hwaits.2.1)

end ReceiveLoop

end Hns
