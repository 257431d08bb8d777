import MantaIndexer.Mirror.Growth
import MantaIndexer.Indexer.Profile

/-!
What a pull of one range returns while other tasks extend the ledger. The ledgers in a
postcondition are those mirrored when the reads were made, in that order.
-/

namespace MantaIndexer
open Effects Encoding Collections

variable [P : Pallet]

/-- Every run of the call, interleaved with steps in `rely`, ends in `post`. -/
abbrev Pulls {α : Type} (rely : World → World → Prop) (post : Except Error α → World → Prop)
    (p : Task α) (w : World) : Prop :=
  Ensures Handles rely (fun _ _ _ => True) post p w

section Rules

variable {α : Type} {rely : World → World → Prop} {post : Except Error α → World → Prop} {w : World}

theorem pulls_sql {query : Query} {next : Except SqlxError query.Answer → Task α}
    (h : ∀ t, rely w t → Pulls rely post (next (t.execute query).1) (t.execute query).2) :
    Pulls rely post (.perform (.sql query) next) w := by
  intro t step r u performed
  cases performed
  exact ⟨trivial, h t step⟩

theorem pulls_hasShard {s : ShardIndex} {x : UInt64} {f : Bool → Task α}
    (h : ∀ t, rely w t → Pulls rely post (f (t.db.shardAt s (asI64 x)).isSome) t) :
    Pulls rely post (hasShard s x >>= f) w := by
  refine pulls_sql fun t step => ?_
  have rest := h t step
  simp only [World.execute]
  cases row : t.db.shardAt s (asI64 x) <;> rw [row] at rest <;> exact rest

theorem pulls_hasNullifier {x : UInt64} {f : Bool → Task α}
    (h : ∀ t, rely w t → Pulls rely post (f (t.db.nullifierAt (asI64 x)).isSome) t) :
    Pulls rely post (hasNullifier x >>= f) w := by
  refine pulls_sql fun t step => ?_
  have rest := h t step
  simp only [World.execute]
  cases row : t.db.nullifierAt (asI64 x) <;> rw [row] at rest <;> exact rest

theorem pulls_getBatchLru {keys : List Cache.LruKeyType} {f : List (Option Bytes) → Task α}
    (h : ∀ t, rely w t → Pulls rely post (f (keys.map t.lru.lookup))
      { t with lru := (t.lru.getBatch keys).2 }) :
    Pulls rely post ((perform (.getBatchLru keys) : Task _) >>= f) w := by
  intro t step r u performed
  cases performed
  have rest := h t step
  rw [← Lru.getBatch_fst] at rest
  exact ⟨trivial, rest⟩

theorem pulls_putBatchLru {batch : List (Cache.LruKeyType × Bytes)} {f : Unit → Task α}
    (h : ∀ t, rely w t → Pulls rely post (f ()) { t with lru := t.lru.putBatch batch }) :
    Pulls rely post ((perform (.putBatchLru batch) : Task _) >>= f) w := by
  intro t step r u performed
  cases performed
  exact ⟨trivial, h t step⟩

end Rules

section Reads

variable {α : Type} {rely : World → World → Prop} {post : Except Error α → World → Prop} {w : World}
  {inv : Database → Prop} {L : Ledger} (grows : ∀ w v, rely w v → Grows inv w v)
  (follows : Follows inv L w)

include grows follows

theorem pulls_getBatchedShardsByIdxs {s : ShardIndex} {positions : List Nat}
    (sorted : positions.Pairwise (· < ·)) {f : List Shard → Task α}
    (h : ∀ t M, L ≤ M → Follows inv M t →
      Pulls rely post (f (positions.filterMap fun i => (M.receivers s)[i]?.map (shardRow s i))) t) :
    Pulls rely post (getBatchedShardsByIdxs s (positions.map Int.ofNat) >>= f) w := by
  cases positions with
  | nil => exact h w L L.le_refl follows
  | cons i positions =>
    refine pulls_sql fun t step => ?_
    obtain ⟨M, le, later⟩ := (grows w t step).later follows
    have rest := h t M le later
    rw [← later.represents.shardsIn s sorted] at rest
    exact rest

theorem pulls_getBatchedNullifierByIdxs {positions : List Nat}
    (sorted : positions.Pairwise (· < ·)) {f : List Nullifier → Task α}
    (h : ∀ t M, L ≤ M → Follows inv M t →
      Pulls rely post (f (positions.filterMap fun i => M.senders[i]?.map (nullifierRow i))) t) :
    Pulls rely post (getBatchedNullifierByIdxs (positions.map Int.ofNat) >>= f) w := by
  cases positions with
  | nil => exact h w L L.le_refl follows
  | cons i positions =>
    refine pulls_sql fun t step => ?_
    obtain ⟨M, le, later⟩ := (grows w t step).later follows
    have rest := h t M le later
    rw [← nullifiersIn_rows later.represents.nullifiers sorted] at rest
    exact rest

end Reads

/-! ### One range -/

section Range

variable {rely : World → World → Prop} {w : World} {inv : Database → Prop} {L : Ledger}
  (grows : ∀ w v, rely w v → Grows inv w v) (follows : Follows inv L w)

include grows follows

/-- The receivers of one shard are read at two moments, first from the cache and then from the
database, and the flag at a third. The result is still that of one ledger: a short page does not
look at the flag, and a full page is the same in every later ledger. No sum leaves the range of a
word on the way, so every profile gives the same result. -/
theorem pullReceiversForShard_pulls {profile : Profile} {s : ShardIndex} {x amount : UInt64}
    (fits : x.toNat + amount.toNat ≤ 2 ^ 48) (before : List Receiver) :
    Pulls rely (fun out t => ∃ M N, L ≤ M ∧ M ≤ N ∧ Held inv M ∧ Follows inv N t ∧
        ∃ chunk, chunk.Perm (page (M.receivers s) x.toNat amount.toNat) ∧
          out = .ok (decide (x.toNat + amount.toNat < M.count s), before ++ chunk))
      (profile.pullReceiversForShard s x amount before) w := by
  have last : (x + amount).toNat = x.toNat + amount.toNat := toNat_add (by omega)
  unfold Profile.pullReceiversForShard getBatchShardReceiver putBatchReceiver
  rw [profile.add_eq (by omega), Prog.bind_ret]
  refine pulls_getBatchLru fun t step => ?_
  obtain ⟨L₁, le₁, follows₁⟩ := (grows w t step).later follows
  have agrees := follows₁.coherent.agrees_receivers follows₁.below s
  rw [agrees.split fits, Prog.lift_ok, Prog.bind_ret]
  refine pulls_getBatchedShardsByIdxs grows ((quiet_getBatchLru t _).follows follows₁)
    (misses_sorted _ _) fun q M leM followsM => ?_
  have perm := agrees.page_perm (leM.1 s) fits
  rw [decodeShards_pick, Prog.lift_ok, Prog.bind_ret]
  refine pulls_putBatchLru fun v step => ?_
  obtain ⟨M₁, le₂, follows₂⟩ := (grows q v step).later followsM
  have cached := fun entry member =>
    (caches_writeBack_receivers (L := M) s
      (misses t.lru (Cache.receiverKey (Cache.shardWord s)) x.toNat amount.toNat) entry member).mono le₂
  have follows₃ := (quiet_putBatchLru follows₂.toMirrors cached).follows follows₂
  have le := Ledger.le_trans le₁ leM
  have lengths := perm.length_eq
  rw [List.length_append, length_page] at lengths
  rw [length_filterMap_rows, profile.addLengths_eq (by omega), Prog.bind_ret]
  split
  · rename_i full
    refine pulls_hasShard fun v' step => ?_
    obtain ⟨N, le₄, follows₄⟩ := (grows _ v' step).later follows₃
    intro v'' step
    obtain ⟨O, le₅, follows₅⟩ := (grows _ v'' step).later follows₄
    have leN := Ledger.le_trans le₂ le₄
    -- A full page does not change any more, so it can be read from the ledger of the flag.
    have same : page (N.receivers s) x.toNat amount.toNat =
        page (M.receivers s) x.toNat amount.toNat := by
      by_cases none : amount.toNat = 0
      · rw [none, page, page, List.take_zero, List.take_zero]
      · exact page_longer (leN.1 s) (by omega)
    refine ⟨N, O, Ledger.le_trans le leN, le₅, follows₄.held, follows₅, _, same ▸ perm, ?_⟩
    have counted := follows₄.below.1 s
    rw [follows₄.represents.shardAt_isSome s (by omega), last, List.append_assoc]
  · rename_i short
    intro v' step
    obtain ⟨N, le₄, follows₄⟩ := (grows _ v' step).later follows₃
    refine ⟨M, N, le, Ledger.le_trans le₂ le₄, followsM.held, follows₄, _, perm, ?_⟩
    have past : ¬ x.toNat + amount.toNat < M.count s := by
      rw [Ledger.count]
      omega
    rw [decide_eq_false past, List.append_assoc]

/-- The senders of a range, read like the receivers of one shard; but the flag does not depend on
the length of the page, and the returned index is past the whole range. -/
theorem pullSenders_pulls {x amount : UInt64} (fits : x.toNat + amount.toNat ≤ 2 ^ 48) :
    Pulls rely (fun out t => ∃ M N O, L ≤ M ∧ M ≤ N ∧ N ≤ O ∧ Held inv M ∧ Held inv N ∧
        Follows inv O t ∧ ∃ chunk, chunk.Perm (page M.senders x.toNat amount.toNat) ∧
          out = .ok (decide (x.toNat + amount.toNat < N.senders.length), x + amount, chunk))
      (pullSenders x amount) w := by
  have last : (x + amount).toNat = x.toNat + amount.toNat := toNat_add (by omega)
  unfold pullSenders getBatchSender putBatchSender
  refine pulls_getBatchLru fun t step => ?_
  obtain ⟨L₁, le₁, follows₁⟩ := (grows w t step).later follows
  have agrees := follows₁.coherent.agrees_senders follows₁.below
  rw [agrees.split fits, Prog.lift_ok, Prog.bind_ret]
  refine pulls_getBatchedNullifierByIdxs grows ((quiet_getBatchLru t _).follows follows₁)
    (misses_sorted _ _) fun q M leM followsM => ?_
  have perm := agrees.page_perm leM.2 fits
  rw [decodeNullifiers_pick, Prog.lift_ok, Prog.bind_ret]
  refine pulls_putBatchLru fun v step => ?_
  obtain ⟨M₁, le₂, follows₂⟩ := (grows q v step).later followsM
  have cached := fun entry member =>
    (caches_writeBack_senders (L := M)
      (misses t.lru Cache.senderKey x.toNat amount.toNat) entry member).mono le₂
  have follows₃ := (quiet_putBatchLru follows₂.toMirrors cached).follows follows₂
  refine pulls_hasNullifier fun v' step => ?_
  obtain ⟨N, le₄, follows₄⟩ := (grows _ v' step).later follows₃
  intro v'' step
  obtain ⟨O, le₅, follows₅⟩ := (grows _ v'' step).later follows₄
  refine ⟨M, N, O, Ledger.le_trans le₁ leM, Ledger.le_trans le₂ le₄, le₅, followsM.held,
    follows₄.held, follows₅, _, perm, ?_⟩
  rw [follows₄.represents.nullifierAt_isSome, last]

end Range

end MantaIndexer
