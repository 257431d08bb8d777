import Mathlib.Data.List.Basic

/-!
Programs as trees of operations. A program finishes with a value, fails with an error, or performs
one operation of a signature and continues with its result. The same tree is run alone by a
handler (`run`) and, in `Interference.lean`, interleaved with other tasks.
-/

namespace Effects

variable {Op : Type} {Res : Op → Type} {ε α β γ σ : Type}

theorem bind_ok {result : Except ε α} {f : α → Except ε β} {value : β}
    (h : result >>= f = .ok value) : ∃ first, result = .ok first ∧ f first = .ok value := by
  cases result with
  | error error => cases h
  | ok first => exact ⟨first, rfl, h⟩

theorem bind_error {result : Except ε α} {f : α → Except ε β} {error : ε}
    (h : result >>= f = .error error) :
    result = .error error ∨ ∃ first, result = .ok first ∧ f first = .error error := by
  cases result with
  | error other =>
    cases h
    exact .inl rfl
  | ok first => exact .inr ⟨first, rfl, h⟩

theorem map_ok {result : Except ε α} {f : α → β} {value : β} (h : result.map f = .ok value) :
    ∃ found, result = .ok found ∧ f found = value := by
  cases result with
  | error error => cases h
  | ok found => exact ⟨found, rfl, Except.ok.inj h⟩

/-- A program over the operations `Op`, where `op` answers with a `Res op`. -/
inductive Prog (Res : Op → Type) (ε α : Type) where
  | ret (value : α)
  | fail (error : ε)
  | perform (op : Op) (next : Res op → Prog Res ε α)

namespace Prog

def bind (p : Prog Res ε α) (f : α → Prog Res ε β) : Prog Res ε β :=
  match p with
  | .ret value => f value
  | .fail error => .fail error
  | .perform op next => .perform op fun r => (next r).bind f

/-- Run `cleanup` when `p` fails, and fail with the same error. -/
def onFail (p : Prog Res ε α) (cleanup : Prog Res ε Unit) : Prog Res ε α :=
  match p with
  | .ret value => .ret value
  | .fail error => cleanup.bind fun _ => .fail error
  | .perform op next => .perform op fun r => (next r).onFail cleanup

/-- Turn the error of a program into another: `map_err`. -/
def mapError {ε' : Type} (f : ε → ε') : Prog Res ε α → Prog Res ε' α
  | .ret value => .ret value
  | .fail error => .fail (f error)
  | .perform op next => .perform op fun r => (next r).mapError f

instance : Monad (Prog Res ε) where
  pure := .ret
  bind := bind

def ask (op : Op) : Prog Res ε (Res op) := .perform op .ret

/-- Continue with the value of `result`, or fail with its error: the `?` operator. -/
def lift : Except ε α → Prog Res ε α
  | .ok value => .ret value
  | .error error => .fail error

@[simp] theorem pure_eq (value : α) : (Pure.pure value : Prog Res ε α) = .ret value := rfl

@[simp] theorem bind_ret (value : α) (f : α → Prog Res ε β) :
    (Prog.ret value : Prog Res ε α) >>= f = f value := rfl

@[simp] theorem bind_fail (error : ε) (f : α → Prog Res ε β) :
    (Prog.fail error : Prog Res ε α) >>= f = .fail error := rfl

@[simp] theorem bind_perform (op : Op) (next : Res op → Prog Res ε α) (f : α → Prog Res ε β) :
    Prog.perform op next >>= f = .perform op fun r => next r >>= f := rfl

@[simp] theorem bind_ask (op : Op) (f : Res op → Prog Res ε β) :
    (ask op : Prog Res ε (Res op)) >>= f = .perform op f := rfl

@[simp] theorem lift_ok (value : α) : (lift (.ok value) : Prog Res ε α) = .ret value := rfl

@[simp] theorem lift_error (error : ε) : (lift (.error error) : Prog Res ε α) = .fail error := rfl

theorem bind_assoc (p : Prog Res ε α) (f : α → Prog Res ε β) (g : β → Prog Res ε γ) :
    (p >>= f) >>= g = p >>= fun value => f value >>= g := by
  induction p with
  | ret value => rfl
  | fail error => rfl
  | perform op next ih =>
    simp only [bind_perform]
    congr 1
    funext r
    exact ih r

theorem bind_pure (p : Prog Res ε α) : (p >>= fun value => .ret value) = p := by
  induction p with
  | ret value => rfl
  | fail error => rfl
  | perform op next ih =>
    simp only [bind_perform]
    congr 1
    funext r
    exact ih r

/-! ### Running alone -/

/-- Run a program against a handler, with nothing in between its operations. -/
def run (handle : σ → (op : Op) → Res op × σ) : Prog Res ε α → σ → Except ε α × σ
  | .ret value, s => (.ok value, s)
  | .fail error, s => (.error error, s)
  | .perform op next, s => (next (handle s op).1).run handle (handle s op).2

variable {handle : σ → (op : Op) → Res op × σ}

@[simp] theorem run_ret (value : α) (s : σ) :
    (Prog.ret value : Prog Res ε α).run handle s = (.ok value, s) := rfl

@[simp] theorem run_fail (error : ε) (s : σ) :
    (Prog.fail error : Prog Res ε α).run handle s = (.error error, s) := rfl

@[simp] theorem run_perform (op : Op) (next : Res op → Prog Res ε α) (s : σ) :
    (Prog.perform op next).run handle s = (next (handle s op).1).run handle (handle s op).2 := rfl

theorem run_bind (p : Prog Res ε α) (f : α → Prog Res ε β) (s : σ) :
    (p >>= f).run handle s =
      match p.run handle s with
      | (.ok value, t) => (f value).run handle t
      | (.error error, t) => (.error error, t) := by
  induction p generalizing s with
  | ret value => rfl
  | fail error => rfl
  | perform op next ih => exact ih _ _

theorem run_bind_ok {p : Prog Res ε α} {f : α → Prog Res ε β} {s t : σ} {value : α}
    (h : p.run handle s = (.ok value, t)) : (p >>= f).run handle s = (f value).run handle t := by
  rw [run_bind, h]

theorem run_bind_error {p : Prog Res ε α} {f : α → Prog Res ε β} {s : σ} {error : ε}
    (h : (p.run handle s).1 = .error error) : ((p >>= f).run handle s).1 = .error error := by
  rw [run_bind]
  split
  · rename_i value t ran
    rw [ran] at h
    cases h
  · rename_i other t ran
    rw [ran] at h
    exact congrArg Except.error (Except.error.inj h)

theorem run_bind_inv {p : Prog Res ε α} {f : α → Prog Res ε β} {s t : σ} {value : β}
    (h : (p >>= f).run handle s = (.ok value, t)) :
    ∃ first u, p.run handle s = (.ok first, u) ∧ (f first).run handle u = (.ok value, t) := by
  rw [run_bind] at h
  split at h
  · rename_i first u ran
    exact ⟨first, u, ran, h⟩
  · cases h

def trace (handle : σ → (op : Op) → Res op × σ) : Prog Res ε α → σ → List (Op × σ)
  | .ret _, _ => []
  | .fail _, _ => []
  | .perform op next, s => (op, s) :: (next (handle s op).1).trace handle (handle s op).2

theorem trace_bind_ok {p : Prog Res ε α} {f : α → Prog Res ε β} {s t : σ} {value : α}
    (h : p.run handle s = (.ok value, t)) :
    (p >>= f).trace handle s = p.trace handle s ++ (f value).trace handle t := by
  induction p generalizing s with
  | ret other =>
    cases h
    rfl
  | fail error => cases h
  | perform op next ih =>
    rw [bind_perform, trace, trace, List.cons_append, ih _ h]

theorem trace_bind_error {p : Prog Res ε α} {f : α → Prog Res ε β} {s t : σ} {error : ε}
    (h : p.run handle s = (.error error, t)) : (p >>= f).trace handle s = p.trace handle s := by
  induction p generalizing s with
  | ret value => cases h
  | fail other => rfl
  | perform op next ih => rw [bind_perform, trace, trace, ih _ h]

end Prog

end Effects
