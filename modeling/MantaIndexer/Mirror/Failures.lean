import MantaIndexer.Mirror.Aliases
import MantaIndexer.Mirror.Completeness
import MantaIndexer.Mirror.Parts

/-!
Queries that fail during a pull. Most of them end the call with their error; `has_shard` and
`has_nullifier` turn it into the answer that there is no row.
-/

namespace MantaIndexer
open Effects Encoding Collections

section Failures

variable [P : Pallet]

/-- Which queries of a call fail, by their place in the call. -/
abbrev Failures := Nat → Query → Bool

/-- Perform one operation while the queries in `fails` fail; the number is that of the queries so
far. -/
def World.handleFailing (fails : Failures) (outside : Outside) (s : World × Nat) :
    (op : Op) → op.Res × (World × Nat)
  | .sql query =>
    if fails s.2 query then (.error .database, (s.1, s.2 + 1))
    else ((s.1.execute query).1, ((s.1.execute query).2, s.2 + 1))
  | op => ((s.1.handle outside op).1, ((s.1.handle outside op).2, s.2))

/-- Whether a lookup has a row to find. -/
def Query.finds : Query → World → Bool
  | .shardAt s i, w => (w.db.shardAt s i).isSome
  | .nullifierAt i, w => (w.db.nullifierAt i).isSome
  | _, _ => false

def queries : List (Op × World) → List (Query × World)
  | [] => []
  | (.sql query, w) :: trace => (query, w) :: queries trace
  | _ :: trace => queries trace

/-- Some lookup of the run fails although there is a row, and is answered that there is none. -/
def Swallows (fails : Failures) (trace : List (Op × World × Nat)) : Prop :=
  ∃ query w n, (.sql query, (w, n)) ∈ trace ∧ fails n query = true ∧ query.finds w = true

/-- A task that reads the database only: a lookup that fails counts as no row, and any other query
that fails ends it. -/
inductive ReadsOnly {α : Type} : Task α → Prop where
  | ret (value : α) : ReadsOnly (.ret value)
  | fail (error : Error) : ReadsOnly (.fail error)
  | lookup {query : Query} {next : Except SqlxError query.Answer → Task α}
      (isLookup : query.isLookup = true)
      (same : next (.error .database) = next (.error .rowNotFound))
      (rest : ∀ r, ReadsOnly (next r)) : ReadsOnly (.perform (.sql query) next)
  | fetch {query : Query} {next : Except SqlxError query.Answer → Task α}
      (isFetch : query.isLookup = false) (reads : ∀ w : World, (w.execute query).2 = w)
      (stops : ∃ error, next (.error .database) = .fail error)
      (rest : ∀ r, ReadsOnly (next r)) : ReadsOnly (.perform (.sql query) next)
  | getBatchLru {keys : List Cache.LruKeyType} {next : List (Option Bytes) → Task α}
      (rest : ∀ r, ReadsOnly (next r)) : ReadsOnly (.perform (.getBatchLru keys) next)
  | putBatchLru {batch : List (Cache.LruKeyType × Bytes)} {next : Unit → Task α}
      (rest : ∀ r, ReadsOnly (next r)) : ReadsOnly (.perform (.putBatchLru batch) next)

namespace ReadsOnly

variable {α β : Type}

theorem bind {p : Task α} {f : α → Task β} (first : ReadsOnly p) (rest : ∀ a, ReadsOnly (f a)) :
    ReadsOnly (p >>= f) := by
  induction first with
  | ret value => exact rest value
  | fail error => exact .fail error
  | lookup isLookup same _ ih => exact .lookup isLookup (congrArg (· >>= f) same) ih
  | fetch isFetch reads stops _ ih =>
    obtain ⟨error, stops⟩ := stops
    exact .fetch isFetch reads ⟨error, congrArg (· >>= f) stops⟩ ih
  | getBatchLru _ ih => exact .getBatchLru ih
  | putBatchLru _ ih => exact .putBatchLru ih

theorem found {query : Query} (isLookup : query.isLookup = true) :
    ReadsOnly (found query) := by
  refine .lookup isLookup rfl fun r => ?_
  cases r with
  | error error => cases error <;> exact .ret _
  | ok row => exact .ret _

theorem fetches {query : Query} (isFetch : query.isLookup = false)
    (reads : ∀ w : World, (w.execute query).2 = w) : ReadsOnly (MantaIndexer.fetch query) := by
  refine .fetch isFetch reads ⟨_, rfl⟩ fun r => ?_
  cases r with
  | error error => exact .fail _
  | ok row => exact .ret _

theorem parts : Parts ReadsOnly where
  ret := .ret
  codec := .fail _
  wrongLength := .fail _
  bind := bind
  found := found
  shardsIn _ _ := fetches rfl fun _ => rfl
  nullifiersIn _ := fetches rfl fun _ => rfl
  total := fetches rfl fun _ => rfl
  getBatchLru _ := .getBatchLru .ret
  putBatchLru _ := .putBatchLru .ret

end ReadsOnly

/-! ### What the failures leave -/

section Run

variable {α : Type} {fails : Failures} {outside : Outside}

theorem swallows_sql {query : Query} {w : World} {n : Nat} {trace : List (Op × World × Nat)} :
    Swallows fails ((.sql query, (w, n)) :: trace) ↔
      (fails n query = true ∧ query.finds w = true) ∨ Swallows fails trace := by
  constructor
  · rintro ⟨other, v, m, member, swallowed⟩
    rcases List.mem_cons.mp member with here | later
    · cases here
      exact .inl swallowed
    · exact .inr ⟨other, v, m, later, swallowed⟩
  · rintro (swallowed | ⟨other, v, m, later, swallowed⟩)
    · exact ⟨query, w, n, List.mem_cons_self, swallowed⟩
    · exact ⟨other, v, m, List.mem_cons_of_mem _ later, swallowed⟩

theorem swallows_other {op : Op} (other : ∀ query, op ≠ .sql query) {s : World × Nat}
    {trace : List (Op × World × Nat)} :
    Swallows fails ((op, s) :: trace) ↔ Swallows fails trace := by
  constructor
  · rintro ⟨query, v, m, member, swallowed⟩
    rcases List.mem_cons.mp member with here | later
    · cases here
      exact absurd rfl (other query)
    · exact ⟨query, v, m, later, swallowed⟩
  · rintro ⟨query, v, m, later, swallowed⟩
    exact ⟨query, v, m, List.mem_cons_of_mem _ later, swallowed⟩

theorem execute_lookup {query : Query} (isLookup : query.isLookup = true) (w : World) :
    (w.execute query).2 = w ∧
      (query.finds w = false → (w.execute query).1 = .error .rowNotFound) := by
  cases query with
  | shardAt s i =>
    refine ⟨rfl, fun none => ?_⟩
    simp only [Query.finds, Option.isSome_eq_false_iff, Option.isNone_iff_eq_none] at none
    simp only [World.execute, none, World.fetchOne]
  | nullifierAt i =>
    refine ⟨rfl, fun none => ?_⟩
    simp only [Query.finds, Option.isSome_eq_false_iff, Option.isNone_iff_eq_none] at none
    simp only [World.execute, none, World.fetchOne]
  | _ => cases isLookup

/-- A call that swallows no failure goes the way it goes without failures, unless one ends it. -/
theorem ReadsOnly.closed {p : Task α} (reads : ReadsOnly p) (w : World) (n : Nat)
    (told : ¬ Swallows fails (p.trace (World.handleFailing fails outside) (w, n)))
    {value : α} (answered : (p.run (World.handleFailing fails outside) (w, n)).1 = .ok value) :
    (p.run (World.handle outside) w).1 = .ok value := by
  induction reads generalizing w n with
  | ret value => exact answered
  | fail error => exact answered
  | @lookup query next isLookup same _ ih =>
    obtain ⟨stays, absent⟩ := execute_lookup isLookup w
    rw [Prog.trace, swallows_sql, not_or] at told
    obtain ⟨found, told⟩ := told
    simp only [Prog.run_perform, World.handleFailing, World.handle, stays] at answered told ⊢
    by_cases failed : fails n query = true
    · have none : query.finds w = false := by simpa [failed] using found
      simp only [failed, if_true, same] at answered told
      rw [absent none]
      exact ih _ w (n + 1) told answered
    · simp only [failed] at answered told
      exact ih _ w (n + 1) told answered
  | @fetch query next isFetch readsOnly stops _ ih =>
    obtain ⟨error, stops⟩ := stops
    rw [Prog.trace, swallows_sql, not_or] at told
    obtain ⟨-, told⟩ := told
    simp only [Prog.run_perform, World.handleFailing, World.handle, readsOnly] at answered told ⊢
    by_cases failed : fails n query = true
    · rw [if_pos failed, stops] at answered
      cases answered
    · simp only [failed] at answered told
      exact ih _ w (n + 1) told answered
  | getBatchLru _ ih =>
    rw [Prog.trace, swallows_other fun _ same => by cases same] at told
    exact ih _ _ n told answered
  | putBatchLru _ ih =>
    rw [Prog.trace, swallows_other fun _ same => by cases same] at told
    exact ih _ _ n told answered

theorem ReadsOnly.db {p : Task α} (reads : ReadsOnly p) {w v : World} {n m : Nat}
    {out : Except Error α}
    (ran : p.run (World.handleFailing fails outside) (w, n) = (out, (v, m))) : v.db = w.db := by
  induction reads generalizing w n with
  | ret value =>
    cases ran
    rfl
  | fail error =>
    cases ran
    rfl
  | @lookup query next isLookup same _ ih =>
    have stays := (execute_lookup isLookup w).1
    simp only [Prog.run_perform, World.handleFailing, stays] at ran
    split at ran
    · exact ih _ ran
    · exact ih _ ran
  | @fetch query next isFetch readsOnly stops _ ih =>
    simp only [Prog.run_perform, World.handleFailing, readsOnly] at ran
    split at ran
    · exact ih _ ran
    · exact ih _ ran
  | getBatchLru _ ih =>
    rw [Prog.run_perform] at ran
    have kept := ih _ ran
    exact kept
  | putBatchLru _ ih =>
    rw [Prog.run_perform] at ran
    have kept := ih _ ran
    exact kept

end Run

def Misses {α : Type} (outside : Outside) (p : Task α) (w : World) : Prop :=
  ∀ entry ∈ queries (p.trace (World.handle outside) w), entry.1.finds entry.2 = false

theorem queries_append (first second : List (Op × World)) :
    queries (first ++ second) = queries first ++ queries second := by
  induction first with
  | nil => rfl
  | cons event first ih =>
    obtain ⟨op, w⟩ := event
    cases op with
    | sql query => exact congrArg _ ih
    | _ => exact ih

section Misses

variable {α β : Type} {outside : Outside} {w : World}

theorem Misses.bind {p : Task α} {f : α → Task β} (first : Misses outside p w)
    (rest : ∀ value v, p.run (World.handle outside) w = (.ok value, v) → Misses outside (f value) v) :
    Misses outside (p >>= f) w := by
  intro entry member
  rcases ran : p.run (World.handle outside) w with ⟨out, v⟩
  cases out with
  | error error =>
    rw [Prog.trace_bind_error ran] at member
    exact first entry member
  | ok value =>
    rw [Prog.trace_bind_ok ran, queries_append] at member
    rcases List.mem_append.mp member with before | after
    · exact first entry before
    · exact rest value v ran entry after

end Misses

section Blind

variable {outside : Outside} {w : World} {n : Nat}

end Blind

end Failures

section Sample

attribute [local instance] samplePallet

end Sample

end MantaIndexer
