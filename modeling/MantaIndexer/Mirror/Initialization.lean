import MantaIndexer.Mirror.DenseForm
import MantaIndexer.Mirror.Walks

/-!
The initialization of a user, who follows the checkpoints of the dense responses from the beginning
until `should_continue` is down. It ends, whatever is committed meanwhile. Over tables that do not
change it gets all of them, except that it can stop short between two shards.
-/

namespace MantaIndexer
open Effects Encoding Collections

section Thread

variable [P : Pallet] [T : Transport]

/-- All receivers that a user reads from these responses. -/
def receivedReceivers (responses : List DensePullResponse) : Option (List Receiver) :=
  (responses.mapM DensePullResponse.receiverChunk).map List.flatten

def receivedSenders (responses : List DensePullResponse) : Option (List Sender) :=
  (responses.mapM DensePullResponse.senderChunk).map List.flatten

theorem receivedReceivers_cons {data : DensePullResponse} {responses : List DensePullResponse}
    {chunk receivers : List Receiver} (first : data.receiverChunk = some chunk)
    (rest : receivedReceivers responses = some receivers) :
    receivedReceivers (data :: responses) = some (chunk ++ receivers) := by
  obtain ⟨chunks, read, rfl⟩ := Option.map_eq_some_iff.mp rest
  simp [receivedReceivers, first, read]

theorem receivedSenders_cons {data : DensePullResponse} {responses : List DensePullResponse}
    {chunk senders : List Sender} (first : data.senderChunk = some chunk)
    (rest : receivedSenders responses = some senders) :
    receivedSenders (data :: responses) = some (chunk ++ senders) := by
  obtain ⟨chunks, read, rfl⟩ := Option.map_eq_some_iff.mp rest
  simp [receivedSenders, first, read]

/-- A rule for one request of the thread: it asks again from the checkpoint that came with the plain
response, or is done. -/
theorem pulls_userThread {rely : World → World → Prop} (refl : ∀ w, rely w w) {w : World}
    {receivers senders : UInt64} {fuel : Nat} {ck : Checkpoint}
    {post : Except Error (Option (List DensePullResponse)) → World → Prop}
    (h : Pulls rely (fun out t => ∃ response next, out = .ok (response, next) ∧
        if response.shouldContinue then
          Pulls rely (fun out t => ∃ rest, out = .ok (some rest) ∧
            ∀ u, rely t u → post (.ok (some (response.dense next :: rest))) u)
            (userThread receivers senders fuel next) t
        else ∀ u, rely t u → post (.ok (some [response.dense next])) u)
      (pullLedgerDiffImpl ck receivers senders) w) :
    Pulls rely post (userThread receivers senders (fuel + 1) ck) w := by
  unfold userThread
  rw [densePullLedgerDiff_eq, Prog.bind_assoc]
  apply Ensures.bind refl
  apply h.mono
  rintro out t ⟨response, next, rfl, continues⟩
  show Pulls rely post (if response.shouldContinue then
      userThread receivers senders fuel next >>= fun rest => .ret (rest.map (response.dense next :: ·))
    else .ret (some [response.dense next])) t
  split at continues
  · rename_i more
    rw [if_pos more]
    apply Ensures.bind refl
    apply continues.mono
    rintro out u ⟨rest, rfl, ends⟩
    exact ends
  · rename_i last
    rw [if_neg last]
    exact continues

/-! ### Beside commits -/

/-- Tables with a total, and with no more rows than `N`. -/
def Serving (N : Ledger) (db : Database) : Prop :=
  (∃ total, totalOf db = .ok total) ∧ ∃ M, Represents db M ∧ M ≤ N

omit T in
theorem Serving.held {N M : Ledger} (held : Held (Serving N) M) : M ≤ N := by
  obtain ⟨db, ⟨-, L, represents, le⟩, holds⟩ := held
  exact holds.unique represents ▸ le

omit T in
theorem Ledger.below_of_size {N : Ledger} {bound : Nat} (few : N.size < bound) : N.Below bound := by
  refine ⟨fun s => ?_, ?_⟩
  · exact (Ledger.count_le_receiverCount N s).trans_lt ((Nat.le_add_right _ _).trans_lt few)
  · exact (Nat.le_add_left _ _).trans_lt few

omit T in
/-- What a page takes of shorter ledgers does not remain of `N`. -/
theorem remaining_views {N : Ledger} (below : N.Below (2 ^ 48)) {view : ShardIndex → Ledger}
    (le : ∀ s, view s ≤ N) {ck : Checkpoint} {budget : Nat} {amount : UInt64}
    (fits : ck.senderIndex.toNat + amount.toNat < 2 ^ 64) :
    remaining N ⟨advanced view ck.receiverIndex budget, ck.senderIndex + amount⟩ +
        (min budget (allShards.map (left view ck.receiverIndex)).sum +
          min amount.toNat (N.senders.length - ck.senderIndex.toNat)) = remaining N ck := by
  have part : ∀ s, taken (left view ck.receiverIndex) allShards budget s ≤
      left (fun _ => N) ck.receiverIndex s :=
    fun s => (taken_le _ _ _ s).trans (Nat.sub_le_sub_right (Ledger.count_le (le s) s) _)
  have rest : ∀ s, left (fun _ => N) (advanced view ck.receiverIndex budget) s =
      left (fun _ => N) ck.receiverIndex s - taken (left view ck.receiverIndex) allShards budget s := by
    intro s
    have room := part s
    have small := below.1 s
    have bound := (ck.receiverIndex s).toNat_lt
    simp only [left] at room ⊢
    have word := toNat_ofNat (n := taken (left view ck.receiverIndex) allShards budget s) (by omega)
    rw [advanced, toNat_add (by omega), word]
    omega
  have spent : (allShards.map (taken (left view ck.receiverIndex) allShards budget)).sum =
      min budget (allShards.map (left view ck.receiverIndex)).sum := sum_taken (List.nodup_finRange _) _ _
  have shards : (allShards.map _).sum ≤ (allShards.map _).sum ∧ _ := sum_map_sub part
  rw [spent] at shards
  have sender := toNat_add fits
  unfold remaining
  rw [List.map_congr_left fun s _ => rest s, shards.2]
  dsimp only
  omega

/-- How the thread ends from a checkpoint on. -/
def UserEnds (N : Ledger) (ck : Checkpoint) (out : Except Error (Option (List DensePullResponse))) :
    Prop :=
  ∃ responses receivers last, out = .ok (some responses) ∧
    responses.length ≤ remaining N ck + 1 ∧ receivedReceivers responses = some receivers ∧
    responses.getLast?.bind DensePullResponse.nextCheckpoint = some last ∧
    Paged N ck.receiverIndex last.receiverIndex receivers

theorem UserEnds.last {N : Ledger} {ck next : Checkpoint} {response : PullResponse}
    (short : response.receivers.length ≤ 4096)
    (paged : Paged N ck.receiverIndex next.receiverIndex response.receivers) :
    UserEnds N ck (.ok (some [response.dense next])) := by
  have short : response.receivers.length < 2 ^ 32 := by omega
  have read : receivedReceivers [response.dense next] = some (response.receivers ++ []) :=
    receivedReceivers_cons (PullResponse.receiverChunk_dense short) rfl
  rw [List.append_nil] at read
  exact ⟨_, _, next, rfl, Nat.le_add_left _ _, read, rfl, paged⟩

theorem UserEnds.more {N : Ledger} {ck next : Checkpoint} {response : PullResponse}
    {responses : List DensePullResponse} (short : response.receivers.length ≤ 4096)
    (paged : Paged N ck.receiverIndex next.receiverIndex response.receivers)
    (fewer : remaining N next < remaining N ck) (rest : UserEnds N next (.ok (some responses))) :
    UserEnds N ck (.ok (some (response.dense next :: responses))) := by
  obtain ⟨responses, receivers, last, same, few, read, ended, paged'⟩ := rest
  cases same
  refine ⟨_, _, last, rfl, ?_, receivedReceivers_cons (PullResponse.receiverChunk_dense (by omega)) read,
    ?_, paged.append paged'⟩
  · rw [List.length_cons]
    omega
  · cases found : responses.getLast? with
    | none =>
      rw [found] at ended
      cases ended
    | some data =>
      rw [found] at ended
      rw [List.getLast?_cons, found]
      exact ended

theorem userThread_ends {N : Ledger} (few : N.size < 2 ^ 35) {receivers senders : UInt64}
    (asksReceivers : 1 ≤ receivers.toNat) (asksSenders : 1 ≤ senders.toNat) {fuel : Nat}
    {ck : Checkpoint} {w : World} {L : Ledger} (follows : Follows (Serving N) L w)
    (enough : remaining N ck < fuel)
    (fits : ck.senderIndex.toNat + (remaining N ck + 1) * 4096 ≤ 2 ^ 48) :
    Pulls (Grows (Serving N)) (fun out _ => UserEnds N ck out)
      (userThread receivers senders fuel ck) w := by
  -- On the requests left: each one that does not end the thread leaves less of `N`.
  induction fuel generalizing ck w L with
  | zero => omega
  | succ fuel ih =>
    have limit := toNat_min_maxReceivers receivers
    have limit' := toNat_min_maxSenders senders
    have below : N.Below (2 ^ 48) := Ledger.below_of_size (few.trans (by decide))
    have room : ∀ {rest}, rest < remaining N ck →
        ck.senderIndex.toNat + (min senders maxSenders).toNat + (rest + 1) * 4096 ≤ 2 ^ 48 := by
      intro rest fewer
      omega
    apply pulls_userThread (Grows.refl _)
    apply (pullLedgerDiff_pulls (Grows.refl _) (fun _ _ => id) follows (room_of_le _ (by omega))
      (by omega : ck.senderIndex.toNat + (min senders maxSenders).toNat ≤ 2 ^ 48)).mono
    rintro out t ⟨O, view, M, A, U, items, chunk, db, -, views, leM, leA, leU, heldM, heldA,
      ⟨⟨total, present⟩, -⟩, -, ⟨V, leV, followsV⟩, gatheredAll, -, rfl⟩
    have within : ∀ s, view s ≤ N := fun s => Serving.held (views.held s (List.mem_finRange s))
    have inside := Serving.held heldA
    have paged : Paged N ck.receiverIndex _ items :=
      paged_gathered (views.later (Ledger.le_trans leM (Ledger.le_trans leA inside))) below gatheredAll
    have short : items.length ≤ 4096 := by
      have page := length_gathered_le view ck.receiverIndex (min receivers maxReceivers).toNat
      rw [← gatheredAll.length_eq] at page
      omega
    have left : remaining N ⟨advanced view ck.receiverIndex (min receivers maxReceivers).toNat,
        ck.senderIndex + min senders maxSenders⟩ + _ = remaining N ck :=
      remaining_views below within (by omega)
    rw [present]
    refine ⟨_, _, rfl, ?_⟩
    split
    · rename_i more
      rw [Bool.or_eq_true, decide_eq_true_eq] at more
      have progress : remaining N ⟨advanced view ck.receiverIndex (min receivers maxReceivers).toNat,
          ck.senderIndex + min senders maxSenders⟩ < remaining N ck := by
        rcases more with cut | unsent
        · have full : (min receivers maxReceivers).toNat < (allShards.map _).sum :=
            ((cut_eq_true_iff (by omega)).mp cut).1
          omega
        · have stored := Ledger.senders_le inside
          omega
      have sender : (ck.senderIndex + min senders maxSenders).toNat =
          ck.senderIndex.toNat + (min senders maxSenders).toNat := toNat_add (by omega)
      apply (ih followsV (by omega) (by rw [sender]; exact room progress)).mono
      rintro out u ends
      obtain ⟨responses, _, _, same, -⟩ := id ends
      subst same
      exact ⟨responses, rfl, fun v _ => .more short paged progress ends⟩
    · exact fun u _ => .last short paged

/-! ### Over tables that do not change -/

/-- The checkpoint after `k` pages of `m` receivers and `n` senders. -/
def pageCursor (L : Ledger) (m n k : Nat) : Checkpoint where
  receiverIndex := receiversAfter L (m * k)
  senderIndex := UInt64.ofNat (n * k)

omit T in
theorem pageCursor_zero (L : Ledger) (m n : Nat) : pageCursor L m n 0 = Checkpoint.default := by
  apply Checkpoint.ext
  · exact receiversAfter_zero L
  · rfl

section Still

variable {L : Ledger} {w : World}

omit T in
/-- A page from such a checkpoint leads to the next one. -/
theorem pullLedgerDiffImpl_pages (mirrors : Mirrors L w) {total : TotalBytes}
    (present : totalOf w.db = .ok total) {receivers senders : UInt64}
    (asksReceivers : 1 ≤ receivers.toNat) {m n k : Nat} (pages : m = min receivers.toNat 4096)
    (pages' : n = min senders.toNat 4096) (fits : n * k + 4096 ≤ 2 ^ 48) :
    Pulls Quiet (fun out t => Quiet w t ∧ ∃ response,
        out = .ok (response, pageCursor L m n (k + 1)) ∧
        response.shouldContinue = flagAfter L (m * (k + 1)) (n * (k + 1)) ∧
        Paged L (receiversAfter L (m * k)) (receiversAfter L (m * (k + 1))) response.receivers ∧
        response.senders.Perm (page L.senders (n * k) (n * (k + 1) - n * k)) ∧
        response.receivers.length ≤ 4096 ∧ response.senders.length ≤ 4096)
      (pullLedgerDiffImpl (pageCursor L m n k) receivers senders) w := by
  have limit := toNat_min_maxReceivers receivers
  have limit' := toNat_min_maxSenders senders
  rw [← pages] at limit
  rw [← pages'] at limit'
  have below := mirrors.represents.below.weaken (by decide : _ ≤ 2 ^ 48)
  have sender : (pageCursor L m n k).senderIndex.toNat = n * k := toNat_ofNat (by omega)
  have index : m * (k + 1) = m * k + m := Nat.mul_succ m k
  have index' : n * (k + 1) = n * k + n := Nat.mul_succ n k
  apply (pullLedgerDiff_still mirrors (mirrors.represents.room (by omega)) (by omega)).mono
  rintro out t ⟨⟨items, chunk, gatheredAll, paged, rfl⟩, quiet⟩
  have moved : advanced (fun _ => L) (receiversAfter L (m * k)) m = receiversAfter L (m * (k + 1)) := by
    rw [advanced_receiversAfter below, ← index]
  have few := length_gathered_le (fun _ => L) (pageCursor L m n k).receiverIndex m
  have few' := length_page L.senders (n * k) n
  rw [limit] at gatheredAll
  rw [limit', sender] at paged
  rw [← gatheredAll.length_eq] at few
  rw [← paged.length_eq] at few'
  have held : Held (fun db => db = w.db) L := ⟨w.db, rfl, mirrors.represents⟩
  have delivered : Paged L (receiversAfter L (m * k)) (advanced (fun _ => L) _ m) items :=
    paged_gathered (Views.same held allShards) below gatheredAll
  rw [moved] at delivered
  have flag : (cut (left (fun _ => L) (receiversAfter L (m * k))) allShards m ||
      decide (n * k + n < L.senders.length)) = flagAfter L (m * (k + 1)) (n * (k + 1)) := by
    rw [cut_receiversAfter below (m * k) (by omega), flagAfter, index, index']
  have next : UInt64.ofNat (n * k) + min senders maxSenders = UInt64.ofNat (n * (k + 1)) := by
    rw [index', UInt64.ofNat_add, ← limit', UInt64.ofNat_toNat]
  rw [present, limit, limit', sender]
  refine ⟨quiet, ⟨_, items, chunk, total⟩, ?_, flag, delivered, ?_, ?_, ?_⟩
  · simp only [pageCursor, moved, next]
    rfl
  · rw [index', Nat.add_sub_cancel_left]
    exact paged
  · exact few.trans (by omega)
  · exact few'.le.trans (by omega)

/-- How the thread ends that has asked for `k` pages: with the first page whose flag is down. -/
def UserStops (L : Ledger) (m n k : Nat) (out : Except Error (Option (List DensePullResponse))) :
    Prop :=
  ∃ d responses items chunk, k < d ∧ out = .ok (some responses) ∧
    flagAfter L (m * d) (n * d) = false ∧
    (∀ j, k < j → j < d → flagAfter L (m * j) (n * j) = true) ∧
    receivedReceivers responses = some items ∧ receivedSenders responses = some chunk ∧
    Paged L (receiversAfter L (m * k)) (receiversAfter L (m * d)) items ∧
    chunk.Perm (page L.senders (n * k) (n * d - n * k))

theorem userThread_stops (mirrors : Mirrors L w) {total : TotalBytes}
    (present : totalOf w.db = .ok total) {receivers senders : UInt64}
    (asksReceivers : 1 ≤ receivers.toNat) {m n k K fuel : Nat} (pages : m = min receivers.toNat 4096)
    (pages' : n = min senders.toNat 4096) (later : k < K) (enough : K ≤ k + fuel)
    (few : K ≤ 2 ^ 35) (down : flagAfter L (m * K) (n * K) = false) :
    Pulls Quiet (fun out _ => UserStops L m n k out)
      (userThread receivers senders fuel (pageCursor L m n k)) w := by
  induction fuel generalizing k w with
  | zero => omega
  | succ fuel ih =>
    have fits : n * k ≤ 4096 * 2 ^ 35 := Nat.mul_le_mul (by omega) (by omega)
    have forward : n * k ≤ n * (k + 1) := Nat.mul_le_mul_left n (Nat.le_succ k)
    apply pulls_userThread Quiet.refl
    apply (pullLedgerDiffImpl_pages mirrors present asksReceivers pages pages' (by omega)).mono
    rintro out t ⟨quiet, response, rfl, flag, delivered, paged, short, short'⟩
    refine ⟨response, _, rfl, ?_⟩
    have readReceivers : (response.dense (pageCursor L m n (k + 1))).receiverChunk =
        some response.receivers := PullResponse.receiverChunk_dense (by omega)
    have readSenders : (response.dense (pageCursor L m n (k + 1))).senderChunk =
        some response.senders := PullResponse.senderChunk_dense (by omega)
    split
    · rename_i more
      rw [flag] at more
      have later : k + 1 < K := by
        by_contra last
        obtain rfl : K = k + 1 := by omega
        rw [down] at more
        cases more
      apply (ih (quiet.mirrors mirrors) (by rw [quiet.db]; exact present) later (by omega)).mono
      rintro _ u ⟨d, responses, items, chunk, after, rfl, stops, up, read, read', delivered', paged'⟩
      refine ⟨responses, rfl, fun v _ => ⟨d, _, _, _, Nat.lt_of_succ_lt after, rfl, stops, ?_,
        receivedReceivers_cons readReceivers read, receivedSenders_cons readSenders read',
        delivered.append delivered', ?_⟩⟩
      · intro j past before
        by_cases first : j = k + 1
        · exact first ▸ more
        · exact up j (by omega) before
      · have rest : n * (k + 1) ≤ n * d := Nat.mul_le_mul_left n (Nat.le_of_lt after)
        exact (paged.append paged').trans (.of_eq (page_append _ forward rest))
    · rename_i last
      rw [flag, Bool.not_eq_true] at last
      refine fun v _ => ⟨k + 1, _, response.receivers, response.senders, Nat.lt_succ_self k, rfl, last,
        fun j past before => ?_, ?_, ?_, delivered, paged⟩
      · omega
      · simp [receivedReceivers, readReceivers]
      · simp [receivedSenders, readSenders]

end Still

omit T in
theorem between_receiversAfter {L : Ledger} (below : L.Below (2 ^ 48)) (budget : Nat) (s : ShardIndex) :
    between L (receiversAfter L 0) (receiversAfter L budget) s =
      (L.receivers s).take (taken L.count allShards budget s) := by
  have part := taken_le L.count allShards budget s
  have small := below.1 s
  have word : (receiversAfter L budget s).toNat = _ := toNat_ofNat (by omega)
  rw [between, receiversAfter_zero, word]
  rfl

omit T in
/-- The receivers of so many pages from the beginning are all there are exactly when the pages hold
so many. -/
theorem Paged.all_iff {L : Ledger} (below : L.Below (2 ^ 48)) {budget : Nat} {items : List Receiver}
    (paged : Paged L (receiversAfter L 0) (receiversAfter L budget) items) :
    items.Perm (allShards.flatMap L.receivers) ↔ L.receiverCount ≤ budget := by
  have once := paged.once
  rw [List.flatMap_congr fun s _ => between_receiversAfter below budget s] at once
  have counts : (allShards.map (taken L.count allShards budget)).sum =
      min budget (allShards.map L.count).sum := sum_taken (List.nodup_finRange _) _ _
  constructor
  · intro all
    have lengths := (once.symm.trans all).length_eq
    rw [List.length_flatMap, List.length_flatMap] at lengths
    have pages : ∀ s, ((L.receivers s).take (taken L.count allShards budget s)).length =
        taken L.count allShards budget s := by
      intro s
      rw [List.length_take]
      exact Nat.min_eq_left (taken_le _ _ _ s)
    rw [List.map_congr_left fun s _ => pages s, counts] at lengths
    have whole : (allShards.map L.count).sum = L.receiverCount := rfl
    have same : (allShards.map fun s => (L.receivers s).length).sum = L.receiverCount := rfl
    omega
  · intro all
    have whole := (taken_all (List.nodup_finRange _) L.count budget).mpr all
    refine once.trans (.of_eq (List.flatMap_congr fun s member => ?_))
    rw [whole s member, Ledger.count, List.take_length]

end Thread

/-- The initialization of a user ends beside any commits, as long as the tables hold no more than `N`:
after at most as many requests as `N` has rows, and one more. Then the user has, of every shard, just
the rows before the last cursor. -/
theorem user_initialization_ends [Pallet] [Transport] {w : World} {L N : Ledger}
    (holds : Represents w.db L) (coherent : Coherent L w.lru) (within : L ≤ N)
    (few : N.size < 2 ^ 35) {total : TotalBytes} (present : totalOf w.db = .ok total)
    {receivers senders : UInt64} (asksReceivers : 1 ≤ receivers.toNat)
    (asksSenders : 1 ≤ senders.toNat) {fuel : Nat} (enough : N.size < fuel)
    {history : List (Event World Op)} {out : Except Error (Option (List DensePullResponse))} {t : World}
    (run : Exec Handles (Grows (Serving N)) (oneUserThread receivers senders fuel) w history out t) :
    ∃ responses items last, out = .ok (some responses) ∧ responses.length ≤ N.size + 1 ∧
      receivedReceivers responses = some items ∧
      responses.getLast?.bind DensePullResponse.nextCheckpoint = some last ∧
      (∀ s, (last.receiverIndex s).toNat ≤ N.count s) ∧
      items.Perm (allShards.flatMap fun s => (N.receivers s).take (last.receiverIndex s).toNat) := by
  have all : remaining N Checkpoint.default = N.size := rfl
  have first : Checkpoint.default.senderIndex.toNat = 0 := rfl
  have follows : Follows (Serving N) L w := ⟨⟨holds, coherent⟩, ⟨total, present⟩, L, holds, within⟩
  have ends : Pulls (Grows (Serving N)) _ (oneUserThread receivers senders fuel) w :=
    userThread_ends few asksReceivers asksSenders follows (by omega) (by omega)
  obtain ⟨responses, items, last, returned, atMost, read, ended, paged⟩ :=
    ends.exec (Grows.refl _) Grows.trans (fun _ _ => id) run
  refine ⟨responses, items, last, returned, atMost, read, ended, fun s => ?_, paged.once⟩
  rcases paged.inside s with same | inside
  · rw [same]
    exact Nat.zero_le _
  · exact inside

section Sample

attribute [local instance] samplePallet sampleTransport

theorem user_initialization_ends_synced : ∃ history responses items last t,
    Exec Handles (Grows (Serving sampleNode)) (oneUserThread 16 16 3) sampleSynced.world history
      (.ok (some responses)) t ∧
    receivedReceivers responses = some items ∧
    responses.getLast?.bind DensePullResponse.nextCheckpoint = some last ∧
    items.Perm (allShards.flatMap fun s =>
      (sampleNode.receivers s).take (last.receiverIndex s).toNat) := by
  have total : (totalOf sampleSynced.world.db).map (fun _ => ()) = .ok () := by decide +kernel
  have ran : ∃ history, Exec Handles (Grows (Serving sampleNode)) (oneUserThread 16 16 3)
      sampleSynced.world history _ _ :=
    Prog.run_exec (fun w op => Handles.handled w op Outside.offline) _ _
  obtain ⟨history, run⟩ := ran
  cases found : totalOf sampleSynced.world.db with
  | error error =>
    rw [found] at total
    cases total
  | ok bytes =>
    obtain ⟨responses, items, last, returned, -, read, ended, -, once⟩ :=
      user_initialization_ends sampleSynced_mirrors.represents sampleSynced_mirrors.coherent
        sampleNode.le_refl (by decide +kernel) found (by decide) (by decide) (by decide +kernel) run
    rw [returned] at run
    exact ⟨history, responses, items, last, _, run, read, ended, once⟩

end Sample

/-- Over tables that do not change, with other pulls beside it, the initialization of a user ends with
all senders. It has all receivers too, unless some page ends exactly with a shard while later shards
have rows and no sender is left: then it does not. -/
theorem user_initialization_complete [Pallet] [Transport] {w : World} {L : Ledger}
    (holds : Represents w.db L) (coherent : Coherent L w.lru) (few : L.size < 2 ^ 35)
    {total : TotalBytes} (present : totalOf w.db = .ok total) {receivers senders : UInt64}
    (asksReceivers : 1 ≤ receivers.toNat) (asksSenders : 1 ≤ senders.toNat) {fuel : Nat}
    (enough : L.size < fuel) {history : List (Event World Op)}
    {out : Except Error (Option (List DensePullResponse))} {t : World}
    (run : Exec Handles Quiet (oneUserThread receivers senders fuel) w history out t) :
    ∃ responses items chunk, out = .ok (some responses) ∧
      receivedReceivers responses = some items ∧ receivedSenders responses = some chunk ∧
      chunk.Perm L.senders ∧ (items.Perm (allShards.flatMap L.receivers) ↔
        ¬ StopsShort L (min receivers.toNat 4096) (min senders.toNat 4096)) := by
  have below := holds.below.weaken (by decide : _ ≤ 2 ^ 48)
  have counted : L.size = L.receiverCount + L.senders.length := rfl
  have asks : 1 ≤ min receivers.toNat 4096 := by omega
  have asks' : 1 ≤ min senders.toNat 4096 := by omega
  generalize pages : min receivers.toNat 4096 = m at asks
  generalize pages' : min senders.toNat 4096 = n at asks'
  have all : L.size + 1 ≤ m * (L.size + 1) := Nat.le_mul_of_pos_left _ asks
  have all' : L.size + 1 ≤ n * (L.size + 1) := Nat.le_mul_of_pos_left _ asks'
  have down : flagAfter L (m * (L.size + 1)) (n * (L.size + 1)) = false :=
    (flagAfter_down (by omega)).mpr ⟨by omega, .inl (by omega)⟩
  have ends := userThread_stops ⟨holds, coherent⟩ present asksReceivers pages.symm pages'.symm
    (Nat.succ_pos L.size) (by omega : _ ≤ 0 + fuel) few down
  rw [pageCursor_zero] at ends
  obtain ⟨d, responses, items, chunk, some, returned, stops, up, read, read', delivered, paged⟩ :=
    ends.exec Quiet.refl Quiet.trans (fun _ _ => id) run
  rw [Nat.mul_zero] at delivered paged
  refine ⟨responses, items, chunk, returned, read, read', ?_, ?_⟩
  · have spent := ((flagAfter_down (Nat.mul_pos asks some)).mp stops).1
    rwa [page, List.drop_zero, Nat.sub_zero, List.take_of_length_le spent] at paged
  · rw [delivered.all_iff below, flagAfter_first asks some stops up]

section Sample

attribute [local instance] samplePallet sampleTransport

/-- Two shards with one receiver each, one receiver a page: the user stops with the first shard. -/
theorem user_initialization_complete_two : ∃ history responses items t,
    Exec Handles Quiet (oneUserThread 1 1 3) sampleTwoFilled history (.ok (some responses)) t ∧
      receivedReceivers responses = some items ∧
      ¬ items.Perm (allShards.flatMap sampleTwoShards.receivers) := by
  have short : StopsShort sampleTwoShards (min (1 : UInt64).toNat 4096) (min (1 : UInt64).toNat 4096) :=
    ⟨1, 1, by decide, by decide +kernel, by decide +kernel, by decide +kernel⟩
  have ran : ∃ history, Exec Handles Quiet (oneUserThread 1 1 3) sampleTwoFilled history _ _ :=
    Prog.run_exec (fun w op => Handles.handled w op Outside.offline) _ _
  obtain ⟨history, run⟩ := ran
  have present : totalOf sampleTwoFilled.db = .ok sampleTotal := rfl
  obtain ⟨responses, items, chunk, returned, read, -, -, complete⟩ :=
    user_initialization_complete sampleTwoFilled_mirrors.represents sampleTwoFilled_mirrors.coherent
      (by decide +kernel) present (by decide) (by decide) (by decide +kernel) run
  rw [returned] at run
  exact ⟨history, responses, items, _, run, read, fun all => complete.mp all short⟩

end Sample

end MantaIndexer
