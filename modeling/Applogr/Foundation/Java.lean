import Mathlib.Tactic.Common

/-!
# Computations with exceptions

A computation of a Java method changes a state and either returns or throws.  The changes
made before an exception is thrown are kept: they are seen by the handler that catches the
exception, and by the rest of the process when no handler does.
-/

/-- The exceptions that the methods throw. -/
inductive JavaException where
  | nullPointer
  | arrayIndexOutOfBounds
  | concurrentModification
  | fileNotFound
  | jsonSyntax
  | jsonIo
  | illegalArgument
deriving DecidableEq, Repr

/-- A computation on a state `σ` that returns a result of type `α` or throws. -/
abbrev Java (σ α : Type) : Type := EStateM JavaException σ α

namespace Java

variable {σ τ α β : Type}

@[simp]
theorem pure_apply (a : α) (s : σ) :
  (pure a : Java σ α) s = .ok a s
  := rfl

theorem bind_apply (m : Java σ α) (f : α → Java σ β) (s : σ) :
  (m >>= f) s = match m s with
    | .ok a s' => f a s'
    | .error e s' => .error e s'
  := by
  simp only [bind, EStateM.bind]
  cases m s <;> rfl

/-- After a computation that returns, the computation goes on with the result. -/
theorem bind_of_ok {m : Java σ α} {s s' : σ} {a : α} (h : m s = .ok a s')
    (f : α → Java σ β) :
  (m >>= f) s = f a s'
  := by
  rw [bind_apply, h]

/-- After a computation that throws, nothing is executed. -/
theorem bind_of_error {m : Java σ α} {s s' : σ} {e : JavaException} (h : m s = .error e s')
    (f : α → Java σ β) :
  (m >>= f) s = .error e s'
  := by
  rw [bind_apply, h]

/-- A computation in sequence returns exactly when both parts return. -/
theorem bind_eq_ok_iff {m : Java σ α} {f : α → Java σ β} {s s' : σ} {b : β} :
  (m >>= f) s = .ok b s' ↔ ∃ a t, m s = .ok a t ∧ f a t = .ok b s'
  := by
  rw [bind_apply]
  cases m s with
  | ok a t =>
      constructor
      · intro h
        use a, t
      · rintro ⟨_, _, h, hf⟩
        cases h
        apply hf
  | error e t => simp

@[simp]
theorem get_apply (s : σ) :
  (get : Java σ σ) s = .ok s s
  := rfl

@[simp]
theorem modify_apply (f : σ → σ) (s : σ) :
  (modify f : Java σ PUnit) s = .ok ⟨⟩ (f s)
  := rfl

@[simp]
theorem throw_apply (e : JavaException) (s : σ) :
  (throw e : Java σ α) s = .error e s
  := rfl

/-- A computation on a part of the state, as a computation on the state. -/
def zoom (part : σ → τ) (update : τ → σ → σ) (m : Java τ α) : Java σ α := fun s =>
  match m (part s) with
  | .ok a t => .ok a (update t s)
  | .error e t => .error e (update t s)

/-- `try m catch (e) handler`, for the exceptions `e` with `caught e`.  The other exceptions
pass through. -/
def tryCatch (m : Java σ Unit) (caught : JavaException → Bool) (handler : Java σ Unit) :
    Java σ Unit := fun s =>
  match m s with
  | .ok a s' => .ok a s'
  | .error e s' => if caught e then handler s' else .error e s'

theorem tryCatch_of_ok {m : Java σ Unit} {s s' : σ} {a : Unit} (h : m s = .ok a s')
    (caught : JavaException → Bool) (handler : Java σ Unit) :
  tryCatch m caught handler s = .ok a s'
  := by
  rw [tryCatch, h]

theorem tryCatch_of_error {m handler : Java σ Unit} {s s' : σ} {e : JavaException}
    {caught : JavaException → Bool} (h : m s = .error e s') (he : caught e = true) :
  tryCatch m caught handler s = handler s'
  := by
  rw [tryCatch, h]
  simp only [he, if_true]

/-- An exception that is not caught passes through. -/
theorem tryCatch_of_uncaught {m : Java σ Unit} {s s' : σ} {e : JavaException}
    {caught : JavaException → Bool} (h : m s = .error e s') (he : caught e = false)
    (handler : Java σ Unit) :
  tryCatch m caught handler s = .error e s'
  := by
  rw [tryCatch, h]
  simp only [he, Bool.false_eq_true, if_false]

/-- Dereferencing a reference that may be null. -/
def deref : Option α → Java σ α
  | some a => pure a
  | none => throw .nullPointer

@[simp]
theorem deref_some (a : α) :
  (deref (some a) : Java σ α) = pure a
  := rfl

@[simp]
theorem deref_none :
  (deref none : Java σ α) = throw .nullPointer
  := rfl

/-- What a function gives that does not change the state. -/
def ofExcept : Except JavaException α → Java σ α
  | .ok a => pure a
  | .error e => throw e

/-! ### Invariants -/

/-- The computation keeps the invariant, whether it returns or throws. -/
def Keeps (I : σ → Prop) (m : Java σ α) : Prop :=
  ∀ s, I s → match m s with
    | .ok _ s' => I s'
    | .error _ s' => I s'

section Keeps

variable {I : σ → Prop}

theorem Keeps.ok {m : Java σ α} (hm : Keeps I m) {s s' : σ} {a : α} (hs : I s)
    (h : m s = .ok a s') :
  I s'
  := by
  have hs' := hm s hs
  rw [h] at hs'
  apply hs'

theorem Keeps.error {m : Java σ α} (hm : Keeps I m) {s s' : σ} {e : JavaException} (hs : I s)
    (h : m s = .error e s') :
  I s'
  := by
  have hs' := hm s hs
  rw [h] at hs'
  apply hs'

theorem Keeps.pure (a : α) :
  Keeps I (pure a : Java σ α)
  := by
  intro s hs
  apply hs

theorem Keeps.throw (e : JavaException) :
  Keeps I (throw e : Java σ α)
  := by
  intro s hs
  apply hs

theorem Keeps.modify {f : σ → σ} (hf : ∀ s, I s → I (f s)) :
  Keeps I (modify f : Java σ PUnit)
  := hf

theorem Keeps.bind {m : Java σ α} {f : α → Java σ β} (hm : Keeps I m) (hf : ∀ a, Keeps I (f a)) :
  Keeps I (m >>= f)
  := by
  intro s hs
  rw [bind_apply]
  cases h : m s with
  | ok a s' => apply hf a s' (hm.ok hs h)
  | error e s' => apply hm.error hs h

theorem Keeps.tryCatch {m handler : Java σ Unit} {caught : JavaException → Bool}
    (hm : Keeps I m) (hh : Keeps I handler) :
  Keeps I (tryCatch m caught handler)
  := by
  intro s hs
  rw [Java.tryCatch]
  cases h : m s with
  | ok a s' => apply hm.ok hs h
  | error e s' =>
      have hs' := hm.error hs h
      by_cases hc : caught e = true
      · simp only [hc, if_true]
        apply hh s' hs'
      · simp only [hc]
        apply hs'

theorem Keeps.get :
  Keeps I (get : Java σ σ)
  := by
  intro s hs
  apply hs

theorem Keeps.deref (a : Option α) :
  Keeps I (deref a : Java σ α)
  := by
  cases a with
  | none => apply Keeps.throw
  | some a => apply Keeps.pure

/-- A computation on a part of the state keeps what does not depend on this part. -/
theorem Keeps.zoom {part : σ → τ} {update : τ → σ → σ} (h : ∀ t s, I s → I (update t s))
    (m : Java τ α) :
  Keeps I (zoom part update m)
  := by
  intro s hs
  rw [Java.zoom]
  cases m (part s) with
  | ok a t => apply h t s hs
  | error e t => apply h t s hs

end Keeps

end Java
