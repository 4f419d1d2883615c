import Mathlib.Tactic.Common

/-!
# Postconditions

A computation ends with a result or with an exception, and each of these ends has its own
postcondition.  The rules calculate the precondition of a composed computation from those of its
parts, so that a postcondition is proved by going through the computation once.
-/

variable {ε σ α β : Type}

/-- The outcome of a computation satisfies `Q` if it is a result, and `E` if it is an exception. -/
def Meets (Q : α → σ → Prop) (E : ε → σ → Prop) : EStateM.Result ε σ α → Prop
  | .ok a s => Q a s
  | .error e s => E e s

/-- The state in which a computation has ended. -/
def EStateM.Result.state : EStateM.Result ε σ α → σ
  | .ok _ s => s
  | .error _ s => s

variable {Q Q' : α → σ → Prop} {E E' : ε → σ → Prop}

theorem Meets.mono {r : EStateM.Result ε σ α} (h : Meets Q E r) (hQ : ∀ a s, Q a s → Q' a s)
    (hE : ∀ e s, E e s → E' e s) :
  Meets Q' E' r
  := by
  cases r with
  | ok a s => apply hQ a s h
  | error e s => apply hE e s h

/-- A postcondition of both ends holds of the last state. -/
theorem Meets.state {r : EStateM.Result ε σ α} {P : σ → Prop}
    (h : Meets (fun _ s => P s) (fun _ s => P s) r) :
  P r.state
  := by
  cases r <;> apply h

theorem meets_pure (a : α) (s : σ) :
  Meets Q E ((pure a : EStateM ε σ α) s) ↔ Q a s
  := Iff.rfl

theorem meets_throw (e : ε) (s : σ) :
  Meets Q E ((throw e : EStateM ε σ α) s) ↔ E e s
  := Iff.rfl

theorem meets_bind (m : EStateM ε σ β) (f : β → EStateM ε σ α) (s : σ) :
  Meets Q E ((m >>= f) s) ↔ Meets (fun b s' => Meets Q E (f b s')) E (m s)
  := by
  simp only [bind, EStateM.bind]
  cases m s <;> rfl

/-- The changes that are made before an exception is thrown are seen by the handler. -/
theorem meets_tryCatch (m : EStateM ε σ α) (handler : ε → EStateM ε σ α) (s : σ) :
  Meets Q E (tryCatch m handler s) ↔ Meets Q (fun e s' => Meets Q E (handler e s')) (m s)
  := by
  change Meets Q E (EStateM.tryCatch m handler s) ↔ _
  rw [EStateM.tryCatch]
  cases m s <;> rfl
