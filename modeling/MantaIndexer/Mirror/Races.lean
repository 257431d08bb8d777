import MantaIndexer.Mirror.RangeSpec
import MantaIndexer.Mirror.Filled

/-!
A pull of senders with commits inside it. The page is read by the IN query and the flag by a later
statement, so the flag may speak about rows that were committed after the page was read.
-/

namespace MantaIndexer
open Effects Encoding Collections

section Runs

variable [P : Pallet]

variable {env : World → World → Prop} (allowed : ∀ w v, env w v → Extends w v)

include allowed

theorem exec_perform {α : Type} {op : Op} {next : op.Res → Task α} {w t : World}
    {history : List (Event World Op)} {out : Except Error α}
    (run : Exec Handles env (.perform op next) w history out t) :
    ∃ u outside after, Extends w u ∧
      Exec Handles env (next (u.handle outside op).1) (u.handle outside op).2 after out t ∧
      operations history = (op, u) :: operations after := by
  obtain ⟨u, r, v, after, later, performed, rest, ops⟩ :=
    run.perform_inv (Grows.refl _) Grows.trans allowed
  cases performed with
  | handled _ _ outside => exact ⟨u, outside, after, later, rest, ops⟩

theorem exec_getBatchLru {α : Type} {keys : List Cache.LruKeyType}
    {f : List (Option Bytes) → Task α} {w t : World} {history : List (Event World Op)}
    {out : Except Error α}
    (run : Exec Handles env ((perform (.getBatchLru keys) : Task _) >>= f) w history out t) :
    ∃ u after, Extends w u ∧
      Exec Handles env (f (keys.map u.lru.lookup)) { u with lru := (u.lru.getBatch keys).2 } after
        out t ∧
      operations history = (.getBatchLru keys, u) :: operations after := by
  obtain ⟨u, outside, after, extended, rest, ops⟩ := exec_perform allowed run
  have answer : (u.handle outside (.getBatchLru keys)).1 = keys.map u.lru.lookup :=
    Lru.getBatch_fst ..
  rw [answer] at rest
  exact ⟨u, after, extended, rest, ops⟩

theorem exec_putBatchLru {α : Type} {batch : List (Cache.LruKeyType × Bytes)} {f : Unit → Task α}
    {w t : World} {history : List (Event World Op)} {out : Except Error α}
    (run : Exec Handles env ((perform (.putBatchLru batch) : Task _) >>= f) w history out t) :
    ∃ u after, Extends w u ∧
      Exec Handles env (f ()) { u with lru := u.lru.putBatch batch } after out t ∧
      operations history = (.putBatchLru batch, u) :: operations after := by
  obtain ⟨u, outside, after, extended, rest, ops⟩ := exec_perform allowed run
  exact ⟨u, after, extended, rest, ops⟩

theorem exec_getBatchedNullifierByIdxs {α : Type} {positions : List Nat}
    (sorted : positions.Pairwise (· < ·)) {f : List Nullifier → Task α} {L : Ledger} {w t : World}
    (mirrors : Mirrors L w) {history : List (Event World Op)} {out : Except Error α}
    (run : Exec Handles env (getBatchedNullifierByIdxs (positions.map Int.ofNat) >>= f) w history
      out t) :
    ∃ M u after, L ≤ M ∧ Mirrors M u ∧
      Exec Handles env (f (positions.filterMap fun i => M.senders[i]?.map (nullifierRow i))) u
        after out t ∧
      (positions = [] ∧ M = L ∧ operations history = operations after ∨
        operations history =
          (.sql (.nullifiersIn (positions.map Int.ofNat)), u) :: operations after) := by
  cases positions with
  | nil => exact ⟨L, w, history, L.le_refl, mirrors, run, .inl ⟨rfl, rfl, rfl⟩⟩
  | cons i positions =>
    obtain ⟨u, outside, after, extended, rest, ops⟩ := exec_perform allowed run
    obtain ⟨M, le, later⟩ := extended.later mirrors
    refine ⟨M, u, after, le, later, ?_, .inr ops⟩
    rw [← nullifiersIn_rows later.represents.nullifiers sorted]
    exact rest

theorem exec_hasNullifier {α : Type} {x : UInt64} {f : Bool → Task α} {w t : World}
    {history : List (Event World Op)} {out : Except Error α}
    (run : Exec Handles env (hasNullifier x >>= f) w history out t) :
    ∃ u after, Extends w u ∧
      Exec Handles env (f (u.db.nullifierAt (asI64 x)).isSome) u after out t ∧
      operations history = (.sql (.nullifierAt (asI64 x)), u) :: operations after := by
  obtain ⟨u, outside, after, extended, rest, ops⟩ := exec_perform allowed run
  refine ⟨u, after, extended, ?_, ops⟩
  simp only [World.handle, World.execute] at rest
  cases row : u.db.nullifierAt (asI64 x) <;> rw [row] at rest <;> exact rest

omit allowed P in
theorem Agrees.stored {α : Type} [Codec α] {lru : Lru Cache.LruKeyType Bytes}
    {key : UInt64 → Cache.LruKeyType} {values : List α} (agrees : Agrees lru key values)
    {first amount : Nat} (fits : first + amount ≤ 2 ^ 48) (inside : first ≤ values.length)
    (none : misses lru key first amount = []) : first + amount ≤ values.length := by
  by_cases empty : amount = 0
  · omega
  · have last : first + (amount - 1) ∈ List.range' first amount :=
      List.mem_range'_1.mpr (by omega)
    have hit := List.filter_eq_nil_iff.mp none _ last
    rw [Bool.not_eq_true', Bool.not_eq_false] at hit
    obtain ⟨bytes, content⟩ := Option.isSome_iff_exists.mp hit
    obtain ⟨value, stored, -⟩ := agrees (first + (amount - 1)) (by omega) bytes content
    have bound := (List.getElem?_eq_some_iff.mp stored).1
    omega

/-- How an interleaved pull of senders ends: the page is that of the ledger `M` read by the query, or
of one that already has the whole range, and the flag is that of the ledger `N` read at the end. -/
theorem pullSenders_exec {x amount : UInt64} (fits : x.toNat + amount.toNat ≤ 2 ^ 48) {L : Ledger}
    {w t : World} (mirrors : Mirrors L w) (inside : x.toNat ≤ L.senders.length)
    {history : List (Event World Op)} {out : Except Error (Bool × UInt64 × List Sender)}
    (run : Exec Handles env (pullSenders x amount) w history out t) :
    ∃ M N O q f chunk, L ≤ M ∧ M ≤ N ∧ N ≤ O ∧ Mirrors M q ∧ Mirrors N f ∧
      Mirrors O t ∧ chunk.Perm (page M.senders x.toNat amount.toNat) ∧
      out = .ok (decide (x.toNat + amount.toNat < N.senders.length), x + amount, chunk) ∧
      ∃ keys first batch last,
        (operations history = [(.getBatchLru keys, first), (.putBatchLru batch, last),
          (.sql (.nullifierAt (asI64 (x + amount))), f)] ∧
        x.toNat + amount.toNat ≤ M.senders.length ∨
      ∃ indices, operations history = [(.getBatchLru keys, first),
        (.sql (.nullifiersIn indices), q), (.putBatchLru batch, last),
        (.sql (.nullifierAt (asI64 (x + amount))), f)]) := by
  have end_eq : (x + amount).toNat = x.toNat + amount.toNat := toNat_add (by omega)
  unfold pullSenders getBatchSender putBatchSender at run
  obtain ⟨first, after, extended, run, ops⟩ := exec_getBatchLru allowed run
  obtain ⟨L₁, le₁, mirrors₁⟩ := extended.later mirrors
  have agrees := mirrors₁.coherent.agrees_senders mirrors₁.below
  rw [agrees.split fits, Prog.lift_ok, Prog.bind_ret] at run
  obtain ⟨M, q, after₂, leM, mirrorsM, run, asked⟩ := exec_getBatchedNullifierByIdxs allowed
    (misses_sorted _ _) ((quiet_getBatchLru first _).mirrors mirrors₁) run
  rw [decodeNullifiers_pick, Prog.lift_ok, Prog.bind_ret] at run
  obtain ⟨last, after₃, extended, run, ops₃⟩ := exec_putBatchLru allowed run
  obtain ⟨M₁, le₂, mirrors₂⟩ := extended.later mirrorsM
  have mirrors₃ := (quiet_putBatchLru mirrors₂ fun entry member =>
    (caches_writeBack_senders (L := M)
      (misses first.lru Cache.senderKey x.toNat amount.toNat) entry member).mono le₂).mirrors mirrors₂
  obtain ⟨f, after₄, extended, run, ops₄⟩ := exec_hasNullifier allowed run
  obtain ⟨N, le₃, mirrorsN⟩ := extended.later mirrors₃
  obtain ⟨rfl, extended, ops₅⟩ := run.ret_inv (Grows.refl _) Grows.trans allowed
  obtain ⟨O, le₄, mirrorsO⟩ := Extends.later extended mirrorsN
  refine ⟨M, N, O, q, f, _, Ledger.le_trans le₁ leM, Ledger.le_trans le₂ le₃, le₄, mirrorsM,
    mirrorsN, mirrorsO, agrees.page_perm leM.2 fits, ?_, ?_⟩
  · rw [mirrorsN.represents.nullifierAt_isSome, end_eq]
  · -- Without a miss there is no query, and the range was stored when the cache was read.
    rcases asked with ⟨none, rfl, skipped⟩ | queried
    · refine ⟨_, first, _, last, .inl ⟨by rw [ops, skipped, ops₃, ops₄, ops₅], ?_⟩⟩
      exact agrees.stored fits (inside.trans (Ledger.senders_le le₁)) none
    · exact ⟨_, first, _, last, .inr ⟨_, by rw [ops, queried, ops₃, ops₄, ops₅]⟩⟩

end Runs

/-- Between the IN query and the final lookup, commits took the number of senders from below `last`
to above it. -/
def Overtaken [Pallet] (history : List (Event World Op)) (last : Nat) : Prop :=
  ∃ indices q idx f, (.sql (.nullifiersIn indices), q) ∈ operations history ∧
    (.sql (.nullifierAt idx), f) ∈ operations history ∧
    q.db.countNullifier < last ∧ last < f.db.countNullifier

section Overtaken

variable [Pallet] {history : List (Event World Op)} {keys : List Cache.LruKeyType}
  {batch : List (Cache.LruKeyType × Bytes)} {idx : Int} {first q last f : World}

theorem not_overtaken_of_cached (ops : operations history = [(.getBatchLru keys, first),
      (.putBatchLru batch, last), (.sql (.nullifierAt idx), f)]) (bound : Nat) :
    ¬ Overtaken history bound := by
  rintro ⟨_, _, _, _, query, -⟩
  simp [ops] at query

theorem overtaken_iff {indices : List Int} (ops : operations history = [(.getBatchLru keys, first),
      (.sql (.nullifiersIn indices), q), (.putBatchLru batch, last), (.sql (.nullifierAt idx), f)])
    (bound : Nat) :
    Overtaken history bound ↔ q.db.countNullifier < bound ∧ bound < f.db.countNullifier := by
  constructor
  · rintro ⟨_, q', _, f', query, flag, short, past⟩
    obtain ⟨-, rfl⟩ : _ ∧ q' = q := by simpa [ops] using query
    obtain ⟨-, rfl⟩ : _ ∧ f' = f := by simpa [ops] using flag
    exact ⟨short, past⟩
  · rintro ⟨short, past⟩
    refine ⟨indices, q, idx, f, ?_, ?_, short, past⟩
    · rw [ops]
      exact .tail _ (.head _)
    · rw [ops]
      exact .tail _ (.tail _ (.tail _ (.head _)))

end Overtaken

theorem page_perm_iff {α : Type} {values longer chunk : List α} (h : values <+: longer)
    {first amount : Nat} (full : first + amount ≤ longer.length)
    (perm : chunk.Perm (page values first amount)) (inside : first ≤ values.length) :
    chunk.Perm (page longer first amount) ↔ first + amount ≤ values.length := by
  constructor
  · intro other
    have lengths := perm.length_eq.symm.trans other.length_eq
    rw [length_page, length_page] at lengths
    omega
  · intro stored
    rw [page_longer h stored]
    exact perm

/-- However a pull of senders is interleaved with steps that extend the ledger, a raised flag comes
with the whole range exactly when no commit between the query and the flag took the number of rows
from below the end of the range to above it. -/
theorem senders_page_complete [Pallet] {env : World → World → Prop}
    (allowed : ∀ w v, env w v → Extends w v) {x amount : UInt64}
    (fits : x.toNat + amount.toNat < 2 ^ 48) {L : Ledger} {w t : World} (mirrors : Mirrors L w)
    (inside : x.toNat ≤ L.senders.length) {history : List (Event World Op)}
    {out : Except Error (Bool × UInt64 × List Sender)}
    (run : Exec Handles env (pullSenders x amount) w history out t) :
    (∃ M more chunk, Mirrors M t ∧ out = .ok (more, x + amount, chunk) ∧
      (more = true → chunk.Perm (page M.senders x.toNat amount.toNat))) ↔
    ¬ Overtaken history (x.toNat + amount.toNat) := by
  obtain ⟨M, N, O, q, f, chunk, leM, leN, leO, mirrorsM, mirrorsN, mirrorsO, perm, rfl, keys, first,
    batch, last, ops⟩ := pullSenders_exec allowed fits.le mirrors inside run
  have countM := mirrorsM.represents.countNullifier
  have countN := mirrorsN.represents.countNullifier
  have longer := Ledger.senders_le leO
  have complete : (∃ M' more chunk', Mirrors M' t ∧
      (.ok (decide (x.toNat + amount.toNat < N.senders.length), x + amount, chunk) :
        Except Error (Bool × UInt64 × List Sender)) = .ok (more, x + amount, chunk') ∧
      (more = true → chunk'.Perm (page M'.senders x.toNat amount.toNat))) ↔
      (x.toNat + amount.toNat < N.senders.length → x.toNat + amount.toNat ≤ M.senders.length) := by
    have whole : x.toNat + amount.toNat < N.senders.length →
        (chunk.Perm (page O.senders x.toNat amount.toNat) ↔
          x.toNat + amount.toNat ≤ M.senders.length) := fun flag =>
      page_perm_iff (leN.2.trans leO.2) (by omega) perm (inside.trans (Ledger.senders_le leM))
    constructor
    · rintro ⟨O', more, chunk', mirrors', same, holds⟩ flag
      obtain rfl := mirrorsO.represents.unique mirrors'.represents
      obtain ⟨rfl, rfl⟩ : _ ∧ _ := by simpa using same
      exact (whole flag).mp (holds (decide_eq_true flag))
    · intro stored
      refine ⟨O, _, chunk, mirrorsO, rfl, fun flag => ?_⟩
      have flag := of_decide_eq_true flag
      exact (whole flag).mpr (stored flag)
  rw [complete]
  rcases ops with ⟨ops, stored⟩ | ⟨indices, ops⟩
  · exact iff_of_true (fun _ => stored) (not_overtaken_of_cached ops _)
  · rw [overtaken_iff ops, countM, countN]
    omega

section Sample

attribute [local instance] samplePallet

def sampleSpent (senders : List Sender) : Ledger := ⟨fun _ => [], senders⟩

def sampleCold (senders : List Sender) : World :=
  World.filled (sampleSpent senders) sampleTotal (Lru.empty 4)

theorem sampleCold_mirrors {senders : List Sender} (few : senders.length < 2 ^ 48 - 4096) :
    Mirrors (sampleSpent senders) (sampleCold senders) :=
  mirrors_filled _ ⟨fun _ => (Nat.zero_le _).trans_lt few, few⟩ (Coherent.empty _ _)

/-- A pull of two senders with one stored at the start; two more are committed before
operation `k`. -/
def sampleRace (k : Nat) : List (Event World Op) × Except Error (Bool × UInt64 × List Sender) × World :=
  (pullSenders 0 2).scheduled (World.handle Outside.offline)
    (commitsAt k (sampleSpent [sampleSender 1])
      (sampleSpent [sampleSender 1, sampleSender 2, sampleSender 3]) sampleTotal sampleTotal) 0
    (sampleCold [sampleSender 1])

theorem sampleRace_exec (k : Nat) :
    Exec Handles Extends (pullSenders 0 2) (sampleCold [sampleSender 1]) (sampleRace k).1
      (sampleRace k).2.1 (sampleRace k).2.2 := by
  refine Prog.scheduled_exec (fun w op => .handled w op _) (commitsAt_grows ?_ ?_ ?_ trivial) 0 _ _
  · exact ⟨fun _ => List.prefix_rfl, by decide⟩
  · exact (sampleCold_mirrors (by decide)).represents
  · exact (sampleCold_mirrors (by decide)).represents

theorem senders_page_complete_before :
    (sampleRace 0).2.1 = .ok (true, 2, [sampleSender 1, sampleSender 2]) ∧
    ((∃ M more chunk, Mirrors M (sampleRace 0).2.2 ∧
        (sampleRace 0).2.1 = .ok (more, 0 + 2, chunk) ∧
        (more = true → chunk.Perm (page M.senders (0 : UInt64).toNat (2 : UInt64).toNat))) ↔
      ¬ Overtaken (sampleRace 0).1 ((0 : UInt64).toNat + (2 : UInt64).toNat)) :=
  ⟨by decide +kernel, senders_page_complete (fun _ _ => id) (by decide)
    (sampleCold_mirrors (by decide)) (Nat.zero_le _) (sampleRace_exec 0)⟩

/-- The commit falls between the query and the flag: the flag is raised and the row with index 1 is
missing. -/
theorem senders_page_overtaken :
    Exec Handles Extends (pullSenders 0 2) (sampleCold [sampleSender 1]) (sampleRace 2).1
      (.ok (true, 2, [sampleSender 1])) (sampleRace 2).2.2 ∧
    Mirrors (sampleSpent [sampleSender 1]) (sampleCold [sampleSender 1]) ∧
    ¬ ∃ M more chunk, Mirrors M (sampleRace 2).2.2 ∧
      (.ok (true, 2, [sampleSender 1]) : Except Error (Bool × UInt64 × List Sender)) =
        .ok (more, 0 + 2, chunk) ∧
      (more = true → chunk.Perm (page M.senders (0 : UInt64).toNat (2 : UInt64).toNat)) := by
  have outcome : (sampleRace 2).2.1 = .ok (true, 2, [sampleSender 1]) := by decide +kernel
  have tables : (sampleRace 2).2.2.db =
      (sampleCold [sampleSender 1, sampleSender 2, sampleSender 3]).db := by decide +kernel
  refine ⟨outcome ▸ sampleRace_exec 2, sampleCold_mirrors (by decide), ?_⟩
  rintro ⟨M, more, chunk, mirrors, same, holds⟩
  have stored := mirrors.represents
  rw [tables] at stored
  obtain rfl := stored.unique (sampleCold_mirrors (by decide)).represents
  obtain ⟨rfl, rfl⟩ : true = more ∧ [sampleSender 1] = chunk := by simpa using same
  exact absurd (holds rfl).length_eq (by decide)

end Sample

end MantaIndexer
