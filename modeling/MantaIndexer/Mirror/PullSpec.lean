import MantaIndexer.Mirror.RangeSpec
import MantaIndexer.Collections.Filling

/-!
What a whole pull returns while other tasks extend the ledger: the pages of all shards under one
budget, the page of senders and the total, each read from a ledger mirrored during the call.
-/

namespace MantaIndexer
open Effects Encoding Collections

variable [P : Pallet]

/-! ### All shards -/

/-- The ledgers that the shards of a list were read from, in the order of the list. -/
structure Views (inv : Database → Prop) (L O : Ledger) (shards : List ShardIndex)
    (view : ShardIndex → Ledger) : Prop where
  since : ∀ s ∈ shards, L ≤ view s
  upTo : ∀ s ∈ shards, view s ≤ O
  held : ∀ s ∈ shards, Held inv (view s)
  ordered : shards.Pairwise fun s t => view s ≤ view t

theorem Views.same {inv : Database → Prop} {L : Ledger} (held : Held inv L)
    (shards : List ShardIndex) : Views inv L L shards fun _ => L :=
  ⟨fun _ _ => L.le_refl, fun _ _ => L.le_refl, fun _ _ => held,
    List.pairwise_of_forall fun _ _ => L.le_refl⟩

theorem Views.later {inv : Database → Prop} {L M N : Ledger} {shards : List ShardIndex}
    {view : ShardIndex → Ledger} (views : Views inv L M shards view) (le : M ≤ N) :
    Views inv L N shards view :=
  { views with upTo := fun s member => Ledger.le_trans (views.upTo s member) le }

theorem Views.cons {inv : Database → Prop} {L M N O : Ledger} {s : ShardIndex}
    {shards : List ShardIndex} {view : ShardIndex → Ledger} (le : L ≤ M) (held : Held inv M)
    (le' : M ≤ N) (fresh : s ∉ shards) (last : N ≤ O) (views : Views inv N O shards view) :
    Views inv L O (s :: shards) (Function.update view s M) := by
  have other : ∀ t ∈ shards, Function.update view s M t = view t := by
    intro t member
    exact Function.update_of_ne (ne_of_mem_of_not_mem member fresh) _ _
  refine ⟨?_, ?_, ?_, List.pairwise_cons.mpr ⟨?_, ?_⟩⟩
  · rw [List.forall_mem_cons, Function.update_self]
    refine ⟨le, fun t member => ?_⟩
    rw [other t member]
    exact Ledger.le_trans le (Ledger.le_trans le' (views.since t member))
  · rw [List.forall_mem_cons, Function.update_self]
    refine ⟨Ledger.le_trans le' last, fun t member => ?_⟩
    rw [other t member]
    exact views.upTo t member
  · rw [List.forall_mem_cons, Function.update_self]
    refine ⟨held, fun t member => ?_⟩
    rw [other t member]
    exact views.held t member
  · intro t member
    rw [Function.update_self, other t member]
    exact Ledger.le_trans le' (views.since t member)
  · apply views.ordered.imp_of_mem
    intro t u mt mu less
    rwa [other t mt, other u mu]

def left (view : ShardIndex → Ledger) (indices : ShardIndex → UInt64) (s : ShardIndex) : Nat :=
  (view s).count s - (indices s).toNat

/-- The receivers a budget covers, shard after shard. -/
def gathered (view : ShardIndex → Ledger) (indices : ShardIndex → UInt64)
    (shards : List ShardIndex) (budget : Nat) : List Receiver :=
  shards.flatMap fun s =>
    page ((view s).receivers s) (indices s).toNat (taken (left view indices) shards budget s)

theorem left_update {view : ShardIndex → Ledger} {indices : ShardIndex → UInt64} {s : ShardIndex}
    {M : Ledger} {shards : List ShardIndex} (fresh : s ∉ shards) :
    ∀ t ∈ shards, left (Function.update view s M) indices t = left view indices t := by
  intro t member
  rw [left, left, Function.update_of_ne (ne_of_mem_of_not_mem member fresh)]

theorem left_update_self {view : ShardIndex → Ledger} {indices : ShardIndex → UInt64}
    {s : ShardIndex} {M : Ledger} :
    left (Function.update view s M) indices s = M.count s - (indices s).toNat := by
  rw [left, Function.update_self]

theorem gathered_cons {view : ShardIndex → Ledger} {indices : ShardIndex → UInt64}
    {s : ShardIndex} {M : Ledger} {shards : List ShardIndex} (fresh : s ∉ shards) (budget : Nat) :
    gathered (Function.update view s M) indices (s :: shards) budget =
      page (M.receivers s) (indices s).toNat budget ++
        gathered view indices shards (budget - (M.count s - (indices s).toNat)) := by
  rw [gathered, List.flatMap_cons, taken, if_pos rfl, left_update_self, Function.update_self,
    Ledger.count, page_min]
  congr 1
  apply List.flatMap_congr
  intro t member
  have other := ne_of_mem_of_not_mem member fresh
  rw [taken, if_neg other, left_update_self, Function.update_of_ne other,
    taken_congr (left_update fresh), Ledger.count]

/-- What a pull takes from each shard: the receivers its budget covers, in an order of its own. -/
def Chunks (view : ShardIndex → Ledger) (indices : ShardIndex → UInt64) (shards : List ShardIndex)
    (budget : Nat) (chunk : ShardIndex → List Receiver) : Prop :=
  ∀ s ∈ shards, (chunk s).Perm
    (page ((view s).receivers s) (indices s).toNat (taken (left view indices) shards budget s))

theorem Chunks.perm {view : ShardIndex → Ledger} {indices : ShardIndex → UInt64}
    {shards : List ShardIndex} {budget : Nat} {chunk : ShardIndex → List Receiver}
    (chunks : Chunks view indices shards budget chunk) :
    (shards.flatMap chunk).Perm (gathered view indices shards budget) :=
  List.Perm.flatMap_left shards chunks

theorem Chunks.cons {view : ShardIndex → Ledger} {indices : ShardIndex → UInt64} {s : ShardIndex}
    {M : Ledger} {shards : List ShardIndex} {budget : Nat} {first : List Receiver}
    {chunk : ShardIndex → List Receiver} (fresh : s ∉ shards)
    (perm : first.Perm (page (M.receivers s) (indices s).toNat budget))
    (rest : Chunks view indices shards (budget - (M.count s - (indices s).toNat)) chunk) :
    Chunks (Function.update view s M) indices (s :: shards) budget
        (Function.update chunk s first) ∧
      (s :: shards).flatMap (Function.update chunk s first) = first ++ shards.flatMap chunk := by
  constructor
  · intro t member
    rcases List.mem_cons.mp member with rfl | member
    · rw [Function.update_self, Function.update_self, taken, if_pos rfl, left_update_self,
        Ledger.count, page_min]
      exact perm
    · have other := ne_of_mem_of_not_mem member fresh
      rw [Function.update_of_ne other, Function.update_of_ne other, taken, if_neg other,
        left_update_self, taken_congr (left_update fresh)]
      exact rest t member
  · rw [List.flatMap_cons, Function.update_self]
    congr 1
    apply List.flatMap_congr
    intro t member
    exact Function.update_of_ne (ne_of_mem_of_not_mem member fresh) _ _

/-- What the loop over the shards that are left adds to its state, and the ledgers it read. -/
structure Gathers (inv : Database → Prop) (L O : Ledger) (indices : ShardIndex → UInt64)
    (shards : List ShardIndex) (state last : PullState) (view : ShardIndex → Ledger) : Prop where
  views : Views inv L O shards view
  receivers : ∃ chunk, Chunks view indices shards state.remain.toNat chunk ∧
    last.receivers = state.receivers ++ shards.flatMap chunk
  more : last.moreReceivers =
    (state.moreReceivers || cut (left view indices) shards state.remain.toNat)
  visited : ∀ s ∈ shards, last.nextIndices s =
    indices s + UInt64.ofNat (taken (left view indices) shards state.remain.toNat s)
  unvisited : ∀ s, s ∉ shards → last.nextIndices s = state.nextIndices s

section Shards

variable {inv : Database → Prop} {L A M N O : Ledger} {indices : ShardIndex → UInt64}
  {shards : List ShardIndex} {s : ShardIndex} {state next last : PullState}
  {view : ShardIndex → Ledger}

theorem Gathers.skip (le : L ≤ A) (held : Held inv A) (le' : A ≤ O) (fresh : s ∉ shards)
    (none : ¬ (indices s).toNat < A.count s) (same : state.nextIndices s = indices s)
    (rest : Gathers inv A O indices shards state last view) :
    Gathers inv L O indices (s :: shards) state last (Function.update view s A) := by
  have zero : left (Function.update view s A) indices s = 0 := by
    rw [left_update_self]
    omega
  have nothing : A.count s - (indices s).toNat = 0 := by omega
  refine ⟨rest.views.cons le held A.le_refl fresh le', ?_, ?_, ?_, ?_⟩
  · obtain ⟨chunk, chunks, receivers⟩ := rest.receivers
    have past : page (A.receivers s) (indices s).toNat state.remain.toNat = [] := by
      apply List.eq_nil_of_length_eq_zero
      rw [length_page]
      rw [Ledger.count] at none
      omega
    obtain ⟨cons, flat⟩ := Chunks.cons fresh (List.Perm.of_eq past.symm)
      (by rwa [nothing, Nat.sub_zero])
    exact ⟨_, cons, by rw [flat, receivers, List.nil_append]⟩
  · rw [rest.more, cut, if_pos (.inl zero), zero, cut_congr (left_update fresh), Nat.sub_zero]
  · intro t member
    rcases List.mem_cons.mp member with rfl | member
    · rw [rest.unvisited t fresh, taken, if_pos rfl, zero, Nat.min_zero, same]
      exact (UInt64.add_zero _).symm
    · rw [rest.visited t member, taken, if_neg (ne_of_mem_of_not_mem member fresh), zero,
        taken_congr (left_update fresh), Nat.sub_zero]
  · intro t absent
    exact rest.unvisited t fun member => absent (List.mem_cons_of_mem _ member)

/-- The budget ends in this shard, and the loop with it. -/
theorem Gathers.full {chunk : List Receiver} (le : L ≤ M) (held : Held inv M) (le' : M ≤ N)
    (heldN : Held inv N) (fresh : s ∉ shards) (some : (indices s).toNat < M.count s)
    (same : ∀ t ∈ shards, state.nextIndices t = indices t)
    (perm : chunk.Perm (page (M.receivers s) (indices s).toNat state.remain.toNat))
    (whole : chunk.length = state.remain.toNat)
    (receivers : last.receivers = state.receivers ++ chunk)
    (more : last.moreReceivers = (state.moreReceivers ||
      decide ((indices s).toNat + state.remain.toNat < M.count s)))
    (indexed : last.nextIndices = Function.update state.nextIndices s
      (indices s + UInt64.ofNat chunk.length)) :
    Gathers inv L N indices (s :: shards) state last (Function.update (fun _ => N) s M) := by
  have enough : state.remain.toNat ≤ M.count s - (indices s).toNat := by
    rw [← whole, perm.length_eq, length_page]
    exact Nat.min_le_right _ _
  have budget : state.remain.toNat - (M.count s - (indices s).toNat) = 0 := by omega
  refine ⟨(Views.same heldN shards).cons le held le' fresh N.le_refl, ?_, ?_, ?_, ?_⟩
  · have nothing : Chunks (fun _ => N) indices shards 0 fun _ => [] := by
      intro t _
      simp [taken_zero, page]
    obtain ⟨cons, flat⟩ := Chunks.cons fresh perm (by rwa [budget])
    refine ⟨_, cons, ?_⟩
    rw [flat, receivers]
    simp
  · rw [more, cut, left_update_self, if_neg (by omega)]
    congr 2
    exact propext (by omega)
  · intro t member
    rw [indexed]
    rcases List.mem_cons.mp member with rfl | member
    · rw [Function.update_self, taken, if_pos rfl, left_update_self, Nat.min_eq_left enough, whole]
    · have other := ne_of_mem_of_not_mem member fresh
      rw [Function.update_of_ne other, taken, if_neg other, left_update_self, budget, taken_zero,
        same t member]
      exact (UInt64.add_zero _).symm
  · intro t absent
    simp only [List.mem_cons, not_or] at absent
    rw [indexed, Function.update_of_ne absent.1]

/-- The shard is exhausted before the budget, and the loop goes on with the rest. -/
theorem Gathers.short {chunk : List Receiver} (le : L ≤ M) (held : Held inv M) (le' : M ≤ N)
    (leO : N ≤ O) (fresh : s ∉ shards)
    (perm : chunk.Perm (page (M.receivers s) (indices s).toNat state.remain.toNat))
    (less : chunk.length < state.remain.toNat)
    (receivers : next.receivers = state.receivers ++ chunk)
    (more : next.moreReceivers = (state.moreReceivers ||
      decide ((indices s).toNat + state.remain.toNat < M.count s)))
    (indexed : next.nextIndices = Function.update state.nextIndices s
      (indices s + UInt64.ofNat chunk.length))
    (remain : next.remain.toNat = state.remain.toNat - chunk.length)
    (rest : Gathers inv N O indices shards next last view) :
    Gathers inv L O indices (s :: shards) state last (Function.update view s M) := by
  have taken_all : chunk.length = M.count s - (indices s).toNat := by
    have lengths := perm.length_eq
    rw [length_page] at lengths
    rw [Ledger.count]
    omega
  have past : ¬ (indices s).toNat + state.remain.toNat < M.count s := by omega
  rw [decide_eq_false past, Bool.or_false] at more
  refine ⟨rest.views.cons le held le' fresh leO, ?_, ?_, ?_, ?_⟩
  · obtain ⟨others, chunks, receivers'⟩ := rest.receivers
    obtain ⟨cons, flat⟩ := Chunks.cons fresh perm (by rwa [← taken_all, ← remain])
    exact ⟨_, cons, by rw [flat, receivers', receivers, List.append_assoc]⟩
  · rw [rest.more, more, cut, left_update_self, ← taken_all, if_pos (.inr less),
      cut_congr (left_update fresh), remain]
  · intro t member
    rcases List.mem_cons.mp member with rfl | member
    · rw [rest.unvisited t fresh, indexed, Function.update_self, taken, if_pos rfl,
        left_update_self, ← taken_all, Nat.min_eq_right less.le]
    · rw [rest.visited t member, taken, if_neg (ne_of_mem_of_not_mem member fresh),
        left_update_self, ← taken_all, taken_congr (left_update fresh), remain]
  · intro t absent
    simp only [List.mem_cons, not_or] at absent
    rw [rest.unvisited t absent.2, indexed, Function.update_of_ne absent.1]

end Shards

/-! ### The loop -/

/-- No range of a page reaches 2^48, whatever ledger it is read from. -/
def Room (inv : Database → Prop) (maxAmount : UInt64) : Prop :=
  ∀ L, Held inv L → ∀ s, L.count s + maxAmount.toNat ≤ 2 ^ 48

theorem room_of_le (inv : Database → Prop) {maxAmount : UInt64} (limit : maxAmount.toNat ≤ 4096) :
    Room inv maxAmount := by
  rintro L ⟨db, -, holds⟩
  exact holds.room limit

section Loop

variable {rely : World → World → Prop} {w : World} {inv : Database → Prop} {L : Ledger}
  (refl : ∀ w, rely w w) (grows : ∀ w v, rely w v → Grows inv w v)

include refl grows

/-- The difference of the lengths is what the shard added to the cursor, and the budget that is left
covers what the shards before it took: no profile finds a word out of range. -/
theorem pullShards_pulls {profile : Profile} {indices : ShardIndex → UInt64} {maxAmount : UInt64}
    (room : Room inv maxAmount) {shards : List ShardIndex} (nodup : shards.Nodup)
    {state : PullState} (follows : Follows inv L w)
    (same : ∀ s ∈ shards, state.nextIndices s = indices s)
    (budget : state.receivers.length + state.remain.toNat = maxAmount.toNat) :
    Pulls rely (fun out t => ∃ O view last, L ≤ O ∧ Follows inv O t ∧ out = .ok last ∧
        Gathers inv L O indices shards state last view)
      (profile.pullShards indices maxAmount shards state) w := by
  induction shards generalizing state L w with
  | nil =>
    intro t step
    obtain ⟨M, le, later⟩ := (grows w t step).later follows
    refine ⟨M, fun _ => M, state, le, later, rfl, ⟨?_, ?_, ?_, ?_⟩, ⟨fun _ => [], nofun, ?_⟩, ?_, ?_, ?_⟩
    all_goals simp [cut]
  | cons s shards ih =>
    obtain ⟨fresh, nodup⟩ := List.nodup_cons.mp nodup
    have unvisited : ∀ t ∈ shards, state.nextIndices t = indices t :=
      fun t member => same t (List.mem_cons_of_mem _ member)
    unfold Profile.pullShards
    refine pulls_hasShard fun t step => ?_
    obtain ⟨A, leA, followsA⟩ := (grows w t step).later follows
    have counted := followsA.represents.below.1 s
    have within := room A followsA.held s
    rw [followsA.represents.shardAt_isSome s (by omega)]
    by_cases some : (indices s).toNat < A.count s
    · rw [decide_eq_true some]
      apply Ensures.bind refl
      refine (pullReceiversForShard_pulls grows followsA
        (by omega) state.receivers).mono ?_
      rintro out u ⟨M, N, leM, leN, heldM, followsN, chunk, perm, rfl⟩
      have le := Ledger.le_trans leA leM
      have atMost : chunk.length ≤ state.remain.toNat := by
        rw [perm.length_eq, length_page]
        exact Nat.min_le_left _ _
      have cursor : indices s + UInt64.ofNat (state.receivers ++ chunk).length -
          UInt64.ofNat state.receivers.length = indices s + UInt64.ofNat chunk.length := by
        rw [List.length_append, add_ofNat_sub]
      have lengths : (state.receivers ++ chunk).length = state.receivers.length + chunk.length :=
        List.length_append
      have word := toNat_ofNat (n := (state.receivers ++ chunk).length) (by omega)
      have before := toNat_ofNat (n := state.receivers.length) (by omega)
      have sum := toNat_add (a := indices s) (b := UInt64.ofNat (state.receivers ++ chunk).length)
        (by omega)
      simp only [thenEnsures]
      rw [profile.add_eq (by omega), Prog.bind_ret, profile.sub_eq (by omega), Prog.bind_ret, cursor]
      -- The `break` of the loop, or its next round with the rest of the budget.
      split
      · rename_i reached
        intro v step
        obtain ⟨O, leO, followsO⟩ := (grows u v step).later followsN
        refine ⟨O, _, _, Ledger.le_trans le (Ledger.le_trans leN leO), followsO, rfl,
          Gathers.full le heldM (Ledger.le_trans leN leO) followsO.held fresh ?_ unvisited perm ?_
            rfl rfl rfl⟩
        · exact some.trans_le (Ledger.count_le leM s)
        · omega
      · rename_i unfilled
        have less : chunk.length < state.remain.toNat := by omega
        have remain := toNat_sub_ofNat (a := maxAmount) (n := (state.receivers ++ chunk).length)
          (by omega)
        rw [profile.sub_eq (by omega), Prog.bind_ret]
        refine (ih nodup followsN ?_ ?_).mono ?_
        · intro t member
          exact (Function.update_of_ne (ne_of_mem_of_not_mem member fresh) _ _).trans
            (unvisited t member)
        · show (state.receivers ++ chunk).length +
            (maxAmount - UInt64.ofNat (state.receivers ++ chunk).length).toNat = maxAmount.toNat
          omega
        · rintro out v ⟨O, view, last, leO, followsO, rfl, rest⟩
          exact ⟨O, _, last, Ledger.le_trans le (Ledger.le_trans leN leO), followsO, rfl,
            rest.short le heldM leN leO fresh perm less rfl rfl rfl (remain.trans (by omega))⟩
    · rw [decide_eq_false some]
      apply (ih nodup followsA unvisited budget).mono
      rintro out u ⟨O, view, last, leO, followsO, rfl, rest⟩
      exact ⟨O, _, last, Ledger.le_trans leA leO, followsO, rfl,
        rest.skip leA followsA.held leO fresh some (same s List.mem_cons_self)⟩

end Loop

/-! ### The whole call -/

abbrev allShards : List ShardIndex := List.finRange forestWidth

def advanced (view : ShardIndex → Ledger) (indices : ShardIndex → UInt64) (budget : Nat) :
    ShardIndex → UInt64 :=
  fun s => indices s + UInt64.ofNat (taken (left view indices) allShards budget s)

def totalOf (db : Database) : Except Error TotalBytes :=
  match db.total with
  | none => .error (.sqlx .rowNotFound)
  | some total =>
    if h : total.length = 16 then .ok ⟨total, h⟩ else .error (.indexer .wrongLittleEndianArray)

theorem pulls_getTotal {α : Type} {rely : World → World → Prop}
    {post : Except Error α → World → Prop} {w : World} {f : TotalBytes → Task α}
    (h : ∀ t, rely w t → Pulls rely post (Prog.lift (totalOf t.db) >>= f) t) :
    Pulls rely post (getTotalSendersReceivers >>= f) w := by
  refine pulls_sql fun t step => ?_
  have rest := h t step
  unfold totalOf at rest
  simp only [World.execute]
  cases stored : t.db.total with
  | none =>
    rw [stored] at rest
    exact rest
  | some total =>
    simp only [stored] at rest
    show Pulls rely post ((if h : total.length = 16 then Prog.ret ⟨total, h⟩
      else Prog.fail (.indexer .wrongLittleEndianArray) : Task TotalBytes) >>= f) t
    by_cases size : total.length = 16
    · rw [dif_pos size] at rest ⊢
      exact rest
    · rw [dif_neg size] at rest ⊢
      exact rest

section Call

variable {rely : World → World → Prop} {w : World} {inv : Database → Prop} {L : Ledger}
  (refl : ∀ w, rely w w) (grows : ∀ w v, rely w v → Grows inv w v)
  (follows : Follows inv L w)

include refl grows follows

theorem pullReceivers_pulls {profile : Profile} {indices : ShardIndex → UInt64} {maxAmount : UInt64}
    (room : Room inv maxAmount) :
    Pulls rely (fun out t => ∃ O view chunk, L ≤ O ∧ Follows inv O t ∧
        Views inv L O allShards view ∧ Chunks view indices allShards maxAmount.toNat chunk ∧
        out = .ok (cut (left view indices) allShards maxAmount.toNat,
          advanced view indices maxAmount.toNat, allShards.flatMap chunk))
      (profile.pullReceivers indices maxAmount) w := by
  unfold Profile.pullReceivers
  apply Ensures.bind refl
  refine (pullShards_pulls refl grows room (List.nodup_finRange _) follows ?_ ?_).mono ?_
  · exact fun _ _ => rfl
  · exact Nat.zero_add _
  rintro out t ⟨O, view, last, leO, followsO, rfl, gathers⟩ v step
  obtain ⟨N, leN, followsN⟩ := (grows t v step).later followsO
  obtain ⟨chunk, chunks, receivers⟩ := gathers.receivers
  refine ⟨N, view, chunk, Ledger.le_trans leO leN, followsN, gathers.views.later leN, chunks, ?_⟩
  have next : last.nextIndices = advanced view indices maxAmount.toNat := by
    funext s
    exact gathers.visited s (List.mem_finRange s)
  rw [gathers.more, next, receivers]
  rfl

/-- A whole pull: the shards, the senders, the flag of the senders and the total are read from
ledgers mirrored one after the other during the call. -/
theorem pullLedgerDiff_pulls {ck : Checkpoint} {maxReceivers maxSenders : UInt64}
    (room : Room inv maxReceivers)
    (fits : ck.senderIndex.toNat + maxSenders.toNat ≤ 2 ^ 48) :
    Pulls rely (fun out t => ∃ O view M N T receivers senders db, L ≤ O ∧
        Views inv L O allShards view ∧ O ≤ M ∧ M ≤ N ∧ N ≤ T ∧ Held inv M ∧ Held inv N ∧
        inv db ∧ Represents db T ∧ (∃ U, T ≤ U ∧ Follows inv U t) ∧
        receivers.Perm (gathered view ck.receiverIndex allShards maxReceivers.toNat) ∧
        senders.Perm (page M.senders ck.senderIndex.toNat maxSenders.toNat) ∧
        out = (totalOf db).map fun sendersReceiversTotal =>
          (⟨cut (left view ck.receiverIndex) allShards maxReceivers.toNat ||
              decide (ck.senderIndex.toNat + maxSenders.toNat < N.senders.length),
            receivers, senders, sendersReceiversTotal⟩,
          ⟨advanced view ck.receiverIndex maxReceivers.toNat, ck.senderIndex + maxSenders⟩))
      (pullLedgerDiff ck maxReceivers maxSenders) w := by
  unfold pullLedgerDiff
  rw [← Profile.pullReceivers_release]
  apply Ensures.bind refl
  apply (pullReceivers_pulls refl grows follows room).mono
  rintro out t ⟨O, view, chunk, leO, followsO, views, chunks, rfl⟩
  apply Ensures.bind refl
  apply (pullSenders_pulls grows followsO fits).mono
  rintro out u ⟨M, N, R, leM, leN, leR, heldM, heldN, followsR, senders, paged, rfl⟩
  refine pulls_getTotal fun v step => ?_
  obtain ⟨T, leT, followsT⟩ := (grows u v step).later followsR
  refine Ensures.lift_map fun v' step => ?_
  obtain ⟨U, leU, followsU⟩ := (grows v v' step).later followsT
  exact ⟨O, view, M, N, T, allShards.flatMap chunk, senders, v.db, leO, views, leM, leN,
    Ledger.le_trans leR leT, heldM, heldN, followsT.holds, followsT.represents, ⟨U, leU, followsU⟩,
    chunks.perm, paged, rfl⟩

end Call

end MantaIndexer
