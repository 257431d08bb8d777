import MantaIndexer.Effects.Program

/-!
Programs that share their state with other tasks. `Ensures` says what every interleaved run of a
program does while the others only take steps in `rely`; `Exec` is one such run, with its history.
`Ensures.exec` connects them, and `Ensures.run` is the case of a program running alone.
-/

namespace Effects

variable {Op : Type} {Res : Op → Type} {ε α β σ : Type}

/-- What performing an operation may do: the state before, the answer and the state after. -/
abbrev Sem (σ : Type) (Res : Op → Type) := σ → (op : Op) → Res op → σ → Prop

/-- Whatever steps in `rely` the others take in between, each operation of the program is a step in
`guar`, and the program ends with an outcome and a state in `post`. -/
def Ensures (sem : Sem σ Res) (rely : σ → σ → Prop) (guar : σ → Op → σ → Prop)
    (post : Except ε α → σ → Prop) : Prog Res ε α → σ → Prop
  | .ret value, s => ∀ t, rely s t → post (.ok value) t
  | .fail error, s => ∀ t, rely s t → post (.error error) t
  | .perform op next, s => ∀ t, rely s t → ∀ r u, sem t op r u →
      guar t op u ∧ Ensures sem rely guar post (next r) u

def thenEnsures (sem : Sem σ Res) (rely : σ → σ → Prop) (guar : σ → Op → σ → Prop)
    (post : Except ε β → σ → Prop) (f : α → Prog Res ε β) : Except ε α → σ → Prop
  | .ok value, s => Ensures sem rely guar post (f value) s
  | .error error, s => ∀ t, rely s t → post (.error error) t

namespace Ensures

variable {sem : Sem σ Res} {rely : σ → σ → Prop} {guar guar' : σ → Op → σ → Prop}
  {post post' : Except ε α → σ → Prop} {p : Prog Res ε α} {s t : σ}

theorem mono (h : Ensures sem rely guar post p s) (imp : ∀ out t, post out t → post' out t) :
    Ensures sem rely guar post' p s := by
  induction p generalizing s with
  | ret value => exact fun t ht => imp _ _ (h t ht)
  | fail error => exact fun t ht => imp _ _ (h t ht)
  | perform op next ih =>
    intro t ht r u hu
    obtain ⟨step, rest⟩ := h t ht r u hu
    exact ⟨step, ih r rest⟩

/-- A program may be asked for more when operations do less and the others take fewer steps. -/
theorem weaken {sem' : Sem σ Res} {rely' : σ → σ → Prop} (h : Ensures sem rely guar post p s)
    (less : ∀ s op r t, sem' s op r t → sem s op r t) (fewer : ∀ s t, rely' s t → rely s t)
    (more : ∀ s op t, guar s op t → guar' s op t) : Ensures sem' rely' guar' post p s := by
  induction p generalizing s with
  | ret value => exact fun t ht => h t (fewer _ _ ht)
  | fail error => exact fun t ht => h t (fewer _ _ ht)
  | perform op next ih =>
    intro t ht r u hu
    obtain ⟨step, rest⟩ := h t (fewer _ _ ht) r u (less _ _ _ _ hu)
    exact ⟨more _ _ _ step, ih r rest⟩

theorem and (h : Ensures sem rely guar post p s) (h' : Ensures sem rely guar' post' p s) :
    Ensures sem rely (fun s op t => guar s op t ∧ guar' s op t)
      (fun out t => post out t ∧ post' out t) p s := by
  induction p generalizing s with
  | ret value => exact fun t ht => ⟨h t ht, h' t ht⟩
  | fail error => exact fun t ht => ⟨h t ht, h' t ht⟩
  | perform op next ih =>
    intro t ht r u hu
    obtain ⟨step, rest⟩ := h t ht r u hu
    obtain ⟨step', rest'⟩ := h' t ht r u hu
    exact ⟨⟨step, step'⟩, ih r rest rest'⟩

/-- What every step keeps, of the program or of the others, holds when the program ends. -/
theorem always {inv : σ → Prop} (kept : ∀ s t, rely s t → inv s → inv t)
    (performed : ∀ s op r t, sem s op r t → inv s → inv t) (p : Prog Res ε α) (h : inv s) :
    Ensures sem rely (fun _ _ _ => True) (fun _ t => inv t) p s := by
  induction p generalizing s with
  | ret value => exact fun t ht => kept _ _ ht h
  | fail error => exact fun t ht => kept _ _ ht h
  | perform op next ih =>
    intro t ht r u hu
    exact ⟨trivial, ih r (performed _ _ _ _ hu (kept _ _ ht h))⟩

theorem anything (p : Prog Res ε α) :
    Ensures sem rely (fun _ _ _ => True) (fun _ _ => True) p s :=
  always (fun _ _ _ => id) (fun _ _ _ _ _ => id) p trivial

theorem lift_map {result : Except ε β} {f : β → α}
    (h : ∀ t, rely s t → post (result.map f) t) :
    Ensures sem rely guar post (Prog.lift result >>= fun value => .ret (f value)) s := by
  cases result with
  | error error => exact h
  | ok value => exact h

section Preorder

variable (refl : ∀ s, rely s s) (trans : ∀ s t u, rely s t → rely t u → rely s u)

include trans in
theorem stable (h : Ensures sem rely guar post p s) (step : rely s t) :
    Ensures sem rely guar post p t := by
  cases p with
  | ret value => exact fun u hu => h u (trans _ _ _ step hu)
  | fail error => exact fun u hu => h u (trans _ _ _ step hu)
  | perform op next => exact fun u hu => h u (trans _ _ _ step hu)

include trans in
/-- When the program's own steps are among those allowed to the others, the state at the end is
reached from the state at the start by such steps. -/
theorem reach {start : σ} (own : ∀ s op t, guar s op t → rely s t) (since : rely start s)
    (h : Ensures sem rely guar post p s) :
    Ensures sem rely guar (fun out t => post out t ∧ rely start t) p s := by
  induction p generalizing s with
  | ret value => exact fun t ht => ⟨h t ht, trans _ _ _ since ht⟩
  | fail error => exact fun t ht => ⟨h t ht, trans _ _ _ since ht⟩
  | perform op next ih =>
    intro t ht r u hu
    obtain ⟨step, rest⟩ := h t ht r u hu
    exact ⟨step, ih r (trans _ _ _ (trans _ _ _ since ht) (own _ _ _ step)) rest⟩

include refl in
theorem bind {f : α → Prog Res ε β} {post : Except ε β → σ → Prop}
    (h : Ensures sem rely guar (thenEnsures sem rely guar post f) p s) :
    Ensures sem rely guar post (p >>= f) s := by
  induction p generalizing s with
  | ret value => exact h s (refl s)
  | fail error => exact h s (refl s)
  | perform op next ih =>
    intro t ht r u hu
    obtain ⟨step, rest⟩ := h t ht r u hu
    exact ⟨step, ih r rest⟩

include refl in
theorem onFail {cleanup : Prog Res ε Unit}
    (h : Ensures sem rely guar
      (fun out t => match out with
        | .ok value => Ensures sem rely guar post (.ret value) t
        | .error error => Ensures sem rely guar post (cleanup >>= fun _ => .fail error) t) p s) :
    Ensures sem rely guar post (p.onFail cleanup) s := by
  induction p generalizing s with
  | ret value => exact h s (refl s)
  | fail error => exact h s (refl s)
  | perform op next ih =>
    intro t ht r u hu
    obtain ⟨step, rest⟩ := h t ht r u hu
    exact ⟨step, ih r rest⟩

include refl in
/-- A handler that only does what the semantics allows: the program run alone. -/
theorem run {handle : σ → (op : Op) → Res op × σ}
    (allowed : ∀ s op, sem s op (handle s op).1 (handle s op).2)
    (h : Ensures sem rely guar post p s) : post (p.run handle s).1 (p.run handle s).2 := by
  induction p generalizing s with
  | ret value => exact h s (refl s)
  | fail error => exact h s (refl s)
  | perform op next ih => exact ih _ (h s (refl s) _ _ (allowed s op)).2

end Preorder

end Ensures

/-! ### Observers

An observer keeps what it has seen of the operations and their answers, whatever the answers are. The
others do not change what it has seen. -/

section Observers

variable {observe : σ → (op : Op) → Res op → σ} {guar : σ → Op → Prop}
  {post : Except ε α → σ → Prop}

def Observed (observe : σ → (op : Op) → Res op → σ) : Sem σ Res := fun s op r t => t = observe s op r

/-- Each operation of the program is allowed by what was seen before it, and the program ends with an
outcome and a view in `post`. -/
abbrev Tracks (observe : σ → (op : Op) → Res op → σ) (guar : σ → Op → Prop)
    (post : Except ε α → σ → Prop) : Prog Res ε α → σ → Prop :=
  Ensures (Observed observe) Eq (fun s op _ => guar s op) post

namespace Tracks

theorem ret {value : α} {s : σ} (h : post (.ok value) s) :
    Tracks observe guar post (.ret value : Prog Res ε α) s := by
  rintro t rfl
  exact h

theorem fail {error : ε} {s : σ} (h : post (.error error) s) :
    Tracks observe guar post (.fail error : Prog Res ε α) s := by
  rintro t rfl
  exact h

theorem perform {op : Op} {next : Res op → Prog Res ε α} {s : σ} (allowed : guar s op)
    (rest : ∀ r, Tracks observe guar post (next r) (observe s op r)) :
    Tracks observe guar post (.perform op next) s := by
  rintro t rfl r u rfl
  exact ⟨allowed, rest r⟩

theorem next {op : Op} {next : Res op → Prog Res ε α} {s : σ}
    (h : Tracks observe guar post (.perform op next) s) (r : Res op) :
    guar s op ∧ Tracks observe guar post (next r) (observe s op r) :=
  h s rfl r _ rfl

theorem bind {f : α → Prog Res ε β} {post : Except ε β → σ → Prop} {p : Prog Res ε α} {s : σ}
    (h : Tracks observe guar (fun out t => match out with
      | .ok value => Tracks observe guar post (f value) t
      | .error error => post (.error error) t) p s) :
    Tracks observe guar post (p >>= f) s := by
  apply Ensures.bind fun _ => rfl
  apply h.mono
  intro out t ended
  cases out with
  | ok value => exact ended
  | error error =>
    rintro u rfl
    exact ended

theorem mapError {ε' : Type} {f : ε → ε'} {post : Except ε' α → σ → Prop} {p : Prog Res ε α} {s : σ}
    (h : Tracks observe guar (fun out t => post (out.mapError f) t) p s) :
    Tracks observe guar post (p.mapError f) s := by
  induction p generalizing s with
  | ret value => exact h
  | fail error => exact h
  | perform op next ih =>
    intro t same r u seen
    obtain ⟨allowed, rest⟩ := h t same r u seen
    exact ⟨allowed, ih r rest⟩

end Tracks

/-- The program adds nothing to what is seen. -/
def Unseen (observe : σ → (op : Op) → Res op → σ) (guar : σ → Op → Prop) (p : Prog Res ε α) : Prop :=
  ∀ s, Tracks observe guar (fun _ t => t = s) p s

namespace Unseen

theorem ret (value : α) : Unseen observe guar (.ret value : Prog Res ε α) := fun _ => Tracks.ret rfl

theorem fail (error : ε) : Unseen observe guar (.fail error : Prog Res ε α) :=
  fun _ => Tracks.fail rfl

theorem lift (result : Except ε α) : Unseen observe guar (Prog.lift result : Prog Res ε α) := by
  cases result with
  | ok value => exact ret value
  | error error => exact fail error

theorem perform {op : Op} {next : Res op → Prog Res ε α} (allowed : ∀ s, guar s op)
    (same : ∀ s r, observe s op r = s) (rest : ∀ r, Unseen observe guar (next r)) :
    Unseen observe guar (.perform op next) := by
  intro s
  apply Tracks.perform (allowed s)
  intro r
  rw [same]
  exact rest r s

theorem tracks {p : Prog Res ε α} (unseen : Unseen observe guar p) {f : α → Prog Res ε β}
    {post : Except ε β → σ → Prop} {s : σ} (ok : ∀ value, Tracks observe guar post (f value) s)
    (failed : ∀ error, post (.error error) s) : Tracks observe guar post (p >>= f) s := by
  apply Tracks.bind
  apply (unseen s).mono
  rintro out _ rfl
  cases out with
  | ok value => exact ok value
  | error error => exact failed error

theorem bind {p : Prog Res ε α} (unseen : Unseen observe guar p) {f : α → Prog Res ε β}
    (rest : ∀ value, Unseen observe guar (f value)) : Unseen observe guar (p >>= f) :=
  fun s => unseen.tracks (fun value => rest value s) fun _ => rfl

theorem mapError {ε' : Type} {p : Prog Res ε α} (unseen : Unseen observe guar p) (f : ε → ε') :
    Unseen observe guar (p.mapError f) :=
  fun s => Tracks.mapError (unseen s)

end Unseen

end Observers

/-! ### Interleaved runs -/

/-- One entry of the history of a run: an operation with the state it was performed in, or a step
of the others with the state it led to. -/
inductive Event (σ Op : Type) where
  | performed (op : Op) (state : σ)
  | interfered (state : σ)

/-- A run of a program interleaved with steps `env` of the others, with its history. -/
inductive Exec (sem : Sem σ Res) (env : σ → σ → Prop) :
    Prog Res ε α → σ → List (Event σ Op) → Except ε α → σ → Prop where
  | ret {value : α} {s : σ} : Exec sem env (.ret value) s [] (.ok value) s
  | fail {error : ε} {s : σ} : Exec sem env (.fail error) s [] (.error error) s
  | perform {op : Op} {next : Res op → Prog Res ε α} {s t u : σ} {r : Res op}
      {history : List (Event σ Op)} {out : Except ε α} (step : sem s op r t)
      (rest : Exec sem env (next r) t history out u) :
      Exec sem env (.perform op next) s (.performed op s :: history) out u
  | interfere {p : Prog Res ε α} {s t u : σ} {history : List (Event σ Op)} {out : Except ε α}
      (step : env s t) (rest : Exec sem env p t history out u) :
      Exec sem env p s (.interfered t :: history) out u

/-- What is computed from the result of a program adds nothing to its runs. -/
theorem Exec.of_map {sem : Sem σ Res} {env : σ → σ → Prop} {p : Prog Res ε α} {f : α → β} {s t : σ}
    {history : List (Event σ Op)} {out : Except ε β}
    (run : Exec sem env (p >>= fun value => .ret (f value)) s history out t) :
    ∃ before, Exec sem env p s history before t ∧ out = before.map f := by
  generalize same : (p >>= fun value => .ret (f value)) = q at run
  induction run generalizing p with
  | ret =>
    cases p with
    | ret value =>
      cases same
      exact ⟨.ok _, .ret, rfl⟩
    | fail error => cases same
    | perform op next => cases same
  | fail =>
    cases p with
    | ret value => cases same
    | fail error =>
      cases same
      exact ⟨.error _, .fail, rfl⟩
    | perform op next => cases same
  | perform step _ ih =>
    cases p with
    | ret value => cases same
    | fail error => cases same
    | perform op next =>
      cases same
      obtain ⟨before, run, rfl⟩ := ih rfl
      exact ⟨before, .perform step run, rfl⟩
  | interfere step _ ih =>
    obtain ⟨before, run, rfl⟩ := ih same
    exact ⟨before, .interfere step run, rfl⟩

def operations : List (Event σ Op) → List (Op × σ)
  | [] => []
  | .performed op state :: history => (op, state) :: operations history
  | .interfered _ :: history => operations history

theorem Ensures.exec {sem : Sem σ Res} {rely env : σ → σ → Prop} {guar : σ → Op → σ → Prop}
    {post : Except ε α → σ → Prop} {p : Prog Res ε α} {s t : σ} {history : List (Event σ Op)}
    {out : Except ε α} (refl : ∀ s, rely s s)
    (trans : ∀ s t u, rely s t → rely t u → rely s u) (allowed : ∀ s t, env s t → rely s t)
    (h : Ensures sem rely guar post p s) (run : Exec sem env p s history out t) : post out t := by
  induction run with
  | ret => exact h _ (refl _)
  | fail => exact h _ (refl _)
  | perform step _ ih => exact ih (h _ (refl _) _ _ step).2
  | interfere step _ ih => exact ih (h.stable trans (allowed _ _ step))

theorem Ensures.performed {sem : Sem σ Res} {rely env : σ → σ → Prop} {guar : σ → Op → σ → Prop}
    {post : Except ε α → σ → Prop} {p : Prog Res ε α} {s t : σ} {history : List (Event σ Op)}
    {out : Except ε α} (refl : ∀ s, rely s s)
    (trans : ∀ s t u, rely s t → rely t u → rely s u) (allowed : ∀ s t, env s t → rely s t)
    (h : Ensures sem rely guar post p s) (run : Exec sem env p s history out t) {op : Op} {u : σ}
    (member : .performed op u ∈ history) : ∃ v, guar u op v := by
  induction run with
  | ret => cases member
  | fail => cases member
  | perform step _ ih =>
    obtain ⟨own, rest⟩ := h _ (refl _) _ _ step
    rcases List.mem_cons.mp member with same | later
    · cases same
      exact ⟨_, own⟩
    · exact ih rest later
  | interfere step _ ih =>
    rcases List.mem_cons.mp member with same | later
    · cases same
    · exact ih (h.stable trans (allowed _ _ step)) later

/-- Run a program with the steps of the others given: the step before operation `n`, if any. -/
def Prog.scheduled (handle : σ → (op : Op) → Res op × σ) (others : Nat → σ → Option σ) (n : Nat) :
    Prog Res ε α → σ → List (Event σ Op) × Except ε α × σ
  | .ret value, s => ([], .ok value, s)
  | .fail error, s => ([], .error error, s)
  | .perform op next, s =>
    match others n s with
    | none =>
      let rest := (next (handle s op).1).scheduled handle others (n + 1) (handle s op).2
      (.performed op s :: rest.1, rest.2)
    | some t =>
      let rest := (next (handle t op).1).scheduled handle others (n + 1) (handle t op).2
      (.interfered t :: .performed op t :: rest.1, rest.2)

theorem Prog.scheduled_exec {sem : Sem σ Res} {env : σ → σ → Prop}
    {handle : σ → (op : Op) → Res op × σ} {others : Nat → σ → Option σ}
    (allowed : ∀ s op, sem s op (handle s op).1 (handle s op).2)
    (step : ∀ n s t, others n s = some t → env s t) (n : Nat) (p : Prog Res ε α) (s : σ) :
    Exec sem env p s (p.scheduled handle others n s).1 (p.scheduled handle others n s).2.1
      (p.scheduled handle others n s).2.2 := by
  induction p generalizing n s with
  | ret value => exact .ret
  | fail error => exact .fail
  | perform op next ih =>
    unfold Prog.scheduled
    split
    · exact .perform (allowed s op) (ih _ _ _)
    · rename_i t taken
      exact .interfere (step n s t taken) (.perform (allowed t op) (ih _ _ _))

theorem Prog.scheduled_interfered {handle : σ → (op : Op) → Res op × σ}
    {others : Nat → σ → Option σ} {n : Nat} {p : Prog Res ε α} {s v : σ}
    (member : .interfered v ∈ (p.scheduled handle others n s).1) :
    ∃ m u, others m u = some v := by
  induction p generalizing n s with
  | ret value => cases member
  | fail error => cases member
  | perform op next ih =>
    unfold Prog.scheduled at member
    split at member
    · cases member with
      | tail _ later => exact ih _ later
    · rename_i t taken
      cases member with
      | head => exact ⟨n, s, taken⟩
      | tail _ later =>
        cases later with
        | tail _ later => exact ih _ later

/-- A run alone from a state where `inv` holds, which every operation keeps. -/
theorem Prog.run_exec_within {sem : Sem σ Res} {env : σ → σ → Prop}
    {handle : σ → (op : Op) → Res op × σ} (inv : σ → Prop)
    (kept : ∀ s op, inv s → inv (handle s op).2)
    (allowed : ∀ s op, inv s → sem s op (handle s op).1 (handle s op).2) (p : Prog Res ε α) {s : σ}
    (h : inv s) :
    ∃ history, Exec sem env p s history (p.run handle s).1 (p.run handle s).2 := by
  induction p generalizing s with
  | ret value => exact ⟨[], .ret⟩
  | fail error => exact ⟨[], .fail⟩
  | perform op next ih =>
    obtain ⟨history, rest⟩ := ih (handle s op).1 (kept s op h)
    exact ⟨_, .perform (allowed s op h) rest⟩

theorem Prog.run_exec {sem : Sem σ Res} {env : σ → σ → Prop} {handle : σ → (op : Op) → Res op × σ}
    (allowed : ∀ s op, sem s op (handle s op).1 (handle s op).2) (p : Prog Res ε α) (s : σ) :
    ∃ history, Exec sem env p s history (p.run handle s).1 (p.run handle s).2 :=
  p.run_exec_within (fun _ => True) (fun _ _ => id) (fun s op _ => allowed s op) trivial

theorem Exec.weaken {sem : Sem σ Res} {env env' : σ → σ → Prop} {p : Prog Res ε α} {s t : σ}
    {history : List (Event σ Op)} {out : Except ε α} (run : Exec sem env p s history out t)
    (h : ∀ a b, env a b → .interfered b ∈ history → env' a b) :
    Exec sem env' p s history out t := by
  induction run with
  | ret => exact .ret
  | fail => exact .fail
  | perform step rest ih =>
    exact .perform step (ih fun a b ab member => h a b ab (List.mem_cons_of_mem _ member))
  | interfere step rest ih =>
    refine .interfere (h _ _ step List.mem_cons_self) (ih fun a b ab member => ?_)
    exact h a b ab (List.mem_cons_of_mem _ member)

section Inversion

variable {sem : Sem σ Res} {rely env : σ → σ → Prop} {s t : σ} {history : List (Event σ Op)}
  {out : Except ε α} (refl : ∀ s, rely s s) (trans : ∀ s t u, rely s t → rely t u → rely s u)
  (allowed : ∀ s t, env s t → rely s t)

include refl trans allowed

/-- A run of a program that performs an operation: the others take steps, the operation is
performed, and the rest runs. -/
theorem Exec.perform_inv {op : Op} {next : Res op → Prog Res ε α}
    (run : Exec sem env (.perform op next) s history out t) :
    ∃ u r v after, rely s u ∧ sem u op r v ∧ Exec sem env (next r) v after out t ∧
      operations history = (op, u) :: operations after := by
  generalize whole : Prog.perform op next = p at run
  induction run with
  | ret => cases whole
  | fail => cases whole
  | perform step rest ih =>
    cases whole
    exact ⟨_, _, _, _, refl _, step, rest, rfl⟩
  | interfere step rest ih =>
    obtain ⟨u, r, v, after, later, performed, continued, ops⟩ := ih whole
    exact ⟨u, r, v, after, trans _ _ _ (allowed _ _ step) later, performed, continued, ops⟩

theorem Exec.ret_inv {value : α} (run : Exec sem env (.ret value) s history out t) :
    out = .ok value ∧ rely s t ∧ operations history = [] := by
  generalize whole : Prog.ret value = p at run
  induction run with
  | ret =>
    cases whole
    exact ⟨rfl, refl _, rfl⟩
  | fail => cases whole
  | perform => cases whole
  | interfere step rest ih =>
    obtain ⟨same, later, ops⟩ := ih whole
    exact ⟨same, trans _ _ _ (allowed _ _ step) later, ops⟩

end Inversion

end Effects
