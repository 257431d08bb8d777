import MantaIndexer.Mirror.Converges
import MantaIndexer.Mirror.Completeness

/-!
The walks of `sync.rs` from the beginning of the ledger, over the full node and over the tables. Each
one ends after as many rounds as there are rows, and ends at the checkpoint of all it has seen, so the
two agree with the checkpoint that is counted in the tables.
-/

namespace MantaIndexer
open Effects Encoding Collections

section Walks

variable [P : Pallet]

theorem calculateNextCheckpoint_past {ck : Checkpoint} {response : PullResponse}
    {shards : List (ShardIndex × List Receiver)} {order : List ShardIndex}
    (grouped : reconstructFrom [] response.receivers = .ok shards)
    (perm : order.Perm (shards.map Prod.fst)) :
    calculateNextCheckpoint (order.map fun s => (s, groupOf shards s)) ck ck
      response.senders.length = ck.past response := by
  obtain ⟨nodup, -, -⟩ := reconstructFrom_groups grouped List.nodup_nil
  rw [← past_eq grouped perm]
  apply Checkpoint.ext
  · exact foldl_overwrite (order_keys_nodup nodup perm) fun _ _ => rfl
  · rfl

/-! ### Over the full node -/

/-- Whatever the others do, the ledger of the full node only gets longer. -/
def NodeGrows (w v : World) : Prop := w.node ≤ v.node

theorem NodeGrows.refl (w : World) : NodeGrows w w := w.node.le_refl

theorem NodeGrows.trans (u v w : World) (first : NodeGrows u v) (second : NodeGrows v w) :
    NodeGrows u w :=
  Ledger.le_trans first second

/-- Every run of the task beside a full node whose ledger grows from `first` to `N` ends so. -/
abbrev Asks {α : Type} (first N : Ledger) (post : Except Error α → World → Prop) (p : Task α)
    (w : World) : Prop :=
  Ensures (Works (pacedNode first N)) NodeGrows (fun _ _ _ => True) post p w

variable {first N L : Ledger} {w : World}

theorem asks_request {α : Type} {post : Except Error α → World → Prop} {ck : Checkpoint}
    {second third : UInt64} {f : Except Error PullResponse → Task α}
    (h : ∀ (t : World) response, w.node ≤ t.node → pacedNode first N t.node ck second third response →
      Asks first N post (f (.ok response)) { t with served := t.node }) :
    Asks first N post ((perform (.request ck second third) : Task _) >>= f) w := by
  intro t step r u performed
  cases performed with
  | handled _ _ outside answers =>
    obtain ⟨response, answered, served⟩ := answers ck second third
    simp only [World.handle, answered]
    exact ⟨trivial, h t response step served⟩

theorem asks_iterate {α : Type} {post : Except Error α → World → Prop} {keys : List ShardIndex}
    {f : List ShardIndex → Task α}
    (h : ∀ (t : World) order, w.node ≤ t.node → order.Perm keys → Asks first N post (f order) t) :
    Asks first N post ((perform (.iterate keys) : Task _) >>= f) w := by
  intro t step r u performed
  cases performed with
  | handled _ _ outside answers => exact ⟨trivial, h t _ step (outside.perm keys)⟩

/-- How a round over the full node ends: past a longer ledger of the node, or past all of it. -/
def RoundEnds (first N L : Ledger) (out : Except Error NodeRound) (t : World) : Prop :=
  ∃ M more, out = .ok ⟨M.checkpoint, more⟩ ∧ M ≤ t.node ∧ M ≤ N ∧
    (more = false → first ≤ M) ∧ (more = true → L.size < M.size)

theorem nodeIteration_ends (storable : N.Storable) (le : L ≤ w.node) (within : L ≤ N) :
    Asks first N (RoundEnds first N L) (nodeIteration L.checkpoint L.checkpoint) w := by
  unfold nodeIteration synchronizeLedger reconstructShardsFromPullResponse
  simp only [Prog.bind_assoc]
  refine asks_request fun t response step served => ?_
  obtain ⟨⟨since, inside⟩, ⟨tagged, honest⟩, paced⟩ := served
  have below := storable.below.shorter within
  have converted := honest.converted (storable.sharded.shorter inside)
  have longer := honest.append_le (Ledger.le_trans le step) below converted
  obtain ⟨shards, grouped⟩ := reconstructFrom_ok [] converted
  rw [Prog.lift_ok, Prog.bind_ret, grouped, Prog.lift_ok, Prog.bind_ret]
  refine asks_iterate fun u order later perm => ?_
  rw [Prog.pure_eq, Prog.bind_ret, calculateNextCheckpoint_past grouped perm,
    ← Ledger.checkpoint_append]
  intro v step'
  refine ⟨L.append response, response.shouldContinue, rfl, ?_, Ledger.le_trans longer inside,
    fun last => ?_, fun more => ?_⟩
  · exact Ledger.le_trans longer (Ledger.le_trans later step')
  · rw [honest.append_eq (Ledger.le_trans le step) below converted last]
    exact since
  · have full := paced (by decide) (by decide) more
    rw [← List.length_pos_iff, ← List.length_pos_iff] at full
    have senders : (L.append response).senders.length =
        L.senders.length + response.senders.length := List.length_append
    rw [Ledger.size, Ledger.size, Ledger.receiverCount_append converted, senders]
    omega

/-- How a walk over the full node ends. -/
def WalkEnds (first N : Ledger) (out : Except Error (Option Checkpoint)) (t : World) : Prop :=
  ∃ M : Ledger, out = .ok (some M.checkpoint) ∧ first ≤ M ∧ M ≤ N ∧ M ≤ t.node

theorem nodeLoop_ends (storable : N.Storable) {fuel : Nat} (le : L ≤ w.node) (within : L ≤ N)
    (enough : N.size < L.size + fuel) :
    Asks first N (WalkEnds first N) (nodeLoop fuel L.checkpoint L.checkpoint) w := by
  -- On the rounds left: each one that does not end the walk passes a longer ledger.
  induction fuel generalizing L w with
  | zero => exact absurd (Ledger.size_le within) (by omega)
  | succ fuel ih =>
    unfold nodeLoop
    apply Ensures.bind NodeGrows.refl
    apply (nodeIteration_ends storable le within).mono
    rintro out t ⟨M, more, rfl, le, within, last, progress⟩
    cases more with
    | false => exact fun v step => ⟨M, rfl, last rfl, within, Ledger.le_trans le step⟩
    | true =>
      have longer := progress rfl
      exact ih le within (by omega)

/-! ### Over the tables -/

/-- The receiver indices when this many receivers, in the order of the shards, are passed. -/
def receiversAfter (L : Ledger) (budget : Nat) (s : ShardIndex) : UInt64 :=
  UInt64.ofNat (taken L.count allShards budget s)

/-- What `should_continue` says there, past this many senders. -/
def flagAfter (L : Ledger) (receivers senders : Nat) : Bool :=
  cut L.count allShards receivers || decide (senders < L.senders.length)

/-- Pages of these sizes stop short: some shard ends exactly with a page, and the senders do not keep
the flag up there, although later shards have rows. -/
def StopsShort (L : Ledger) (receivers senders : Nat) : Prop :=
  ∃ k n, 0 < k ∧ ((allShards.take n).map L.count).sum = receivers * k ∧
    receivers * k < L.receiverCount ∧ L.senders.length ≤ senders * k

theorem flagAfter_down {receivers senders : Nat} (pos : 0 < receivers) :
    flagAfter L receivers senders = false ↔ L.senders.length ≤ senders ∧
      (L.receiverCount ≤ receivers ∨ ∃ n, ((allShards.take n).map L.count).sum = receivers) := by
  rw [flagAfter, Bool.or_eq_false_iff, decide_eq_false_iff_not, Bool.eq_false_iff, ne_eq,
    cut_eq_true_iff pos, Ledger.receiverCount]
  simp only [not_and_or, not_lt, not_forall, not_not, ne_eq]
  exact and_comm

/-- The first page that takes the flag down is the last one, unless the pages stop short. -/
theorem flagAfter_first {receivers senders d : Nat} (pos : 0 < receivers) (some : 0 < d)
    (down : flagAfter L (receivers * d) (senders * d) = false)
    (up : ∀ k, 0 < k → k < d → flagAfter L (receivers * k) (senders * k) = true) :
    L.receiverCount ≤ receivers * d ↔ ¬ StopsShort L receivers senders := by
  obtain ⟨spent, reason⟩ := (flagAfter_down (Nat.mul_pos pos some)).mp down
  constructor
  · rintro all ⟨k, n, first, ends, more, few⟩
    have order : d ≤ k := by
      by_contra later
      have flag := up k first (by omega)
      rw [(flagAfter_down (Nat.mul_pos pos first)).mpr ⟨few, .inr ⟨n, ends⟩⟩] at flag
      cases flag
    have longer := Nat.mul_le_mul_left receivers order
    omega
  · intro complete
    rcases reason with all | ⟨n, ends⟩
    · exact all
    · by_contra more
      exact complete ⟨d, n, some, ends, by omega, spent⟩

/-- The checkpoint of the walk over the tables, which counts the senders it got. -/
def cursorAfter (L : Ledger) (budget : Nat) : Checkpoint where
  receiverIndex := receiversAfter L budget
  senderIndex := UInt64.ofNat (min budget L.senders.length)

theorem receiversAfter_zero (L : Ledger) : receiversAfter L 0 = fun _ => 0 := by
  funext s
  exact congrArg UInt64.ofNat (taken_zero L.count allShards s)

theorem cursorAfter_zero (L : Ledger) : cursorAfter L 0 = Checkpoint.default := by
  apply Checkpoint.ext
  · exact receiversAfter_zero L
  · exact congrArg UInt64.ofNat (Nat.zero_min _)

theorem AfterSync.mirrors {serves : Serves} (after : AfterSync serves w) (holds : Represents w.db L) :
    Mirrors L w ∧ L.Sharded := by
  obtain ⟨s, reachable, same, M, other, coherent⟩ := after
  obtain rfl := holds.unique other
  obtain ⟨M, mirrors, sharded, -⟩ :=
    (Invariant.reachable (C := shardedContract serves) reachable).ledger
  obtain rfl := mirrors.represents.unique (same ▸ holds)
  exact ⟨⟨holds, coherent⟩, sharded⟩

/-- The part of a round that groups the receivers and moves the checkpoint. -/
theorem pulls_grouped {α : Type} {post : Except Error α → World → Prop} {response : PullResponse}
    (converted : ∀ receiver ∈ response.receivers, ∃ s, treeIndex receiver.1 = some s)
    {ck : Checkpoint} {f : Checkpoint → α}
    (h : ∀ v, Quiet w v → post (.ok (f (ck.past response))) v) :
    Pulls Quiet post (do
      let shards ← reconstructShardsFromPullResponse response
      return f (calculateNextCheckpoint shards ck ck response.senders.length)) w := by
  obtain ⟨shards, grouped⟩ := reconstructFrom_ok [] converted
  unfold reconstructShardsFromPullResponse
  rw [grouped, Prog.lift_ok, Prog.bind_ret]
  intro u step r v performed
  cases performed with
  | handled _ _ outside =>
    refine ⟨trivial, fun x step' => ?_⟩
    have past : calculateNextCheckpoint ((u.handle outside (.iterate (shards.map Prod.fst))).1.map
        fun s => (s, groupOf shards s)) ck ck response.senders.length = ck.past response :=
      calculateNextCheckpoint_past grouped (outside.perm (shards.map Prod.fst))
    rw [past]
    exact h x (.trans _ _ _ step step')

section Tables

variable (below : L.Below (2 ^ 48))

include below

theorem left_receiversAfter (budget : Nat) : left (fun _ => L) (receiversAfter L budget) =
    fun s => L.count s - taken L.count allShards budget s := by
  funext s
  have part := taken_le L.count allShards budget s
  have small := below.1 s
  show L.count s - (UInt64.ofNat _).toNat = _
  rw [toNat_ofNat (by omega)]

theorem cut_receiversAfter (budget : Nat) {more : Nat} (pos : 0 < more) :
    cut (left (fun _ => L) (receiversAfter L budget)) allShards more =
      cut L.count allShards (budget + more) := by
  rw [left_receiversAfter below, cut_rest (List.nodup_finRange _) L.count budget pos]

theorem taken_receiversAfter (budget more : Nat) (s : ShardIndex) :
    taken (left (fun _ => L) (receiversAfter L budget)) allShards more s =
      taken L.count allShards (budget + more) s - taken L.count allShards budget s := by
  rw [left_receiversAfter below, taken_rest (List.nodup_finRange _)]

theorem advanced_receiversAfter (budget more : Nat) :
    advanced (fun _ => L) (receiversAfter L budget) more = receiversAfter L (budget + more) := by
  funext s
  have order := taken_mono L.count allShards (Nat.le_add_right budget more) s
  rw [advanced, taken_receiversAfter below, receiversAfter, ← UInt64.ofNat_add,
    Nat.add_sub_cancel' order, receiversAfter]

theorem cursorAfter_sender (budget : Nat) :
    (cursorAfter L budget).senderIndex.toNat = min budget L.senders.length := by
  have small := below.2
  exact toNat_ofNat (by omega)

theorem flagAfter_more (budget : Nat) {more : Nat} (pos : 0 < more) :
    (cut (left (fun _ => L) (cursorAfter L budget).receiverIndex) allShards more ||
      decide ((cursorAfter L budget).senderIndex.toNat + more < L.senders.length)) =
      flagAfter L (budget + more) (budget + more) := by
  rw [cursorAfter_sender below, flagAfter, ← cut_receiversAfter below budget pos]
  refine congrArg (cut _ _ _ || ·) (decide_eq_decide.mpr ?_)
  omega

/-- A page from such a checkpoint leads to the next one. -/
theorem cursorAfter_past (sharded : L.Sharded) {budget : Nat} {more : UInt64} {response : PullResponse}
    (receivers : response.receivers.Perm
      (gathered (fun _ => L) (cursorAfter L budget).receiverIndex allShards more.toNat))
    (senders : response.senders.Perm
      (page L.senders (cursorAfter L budget).senderIndex.toNat more.toNat)) :
    (cursorAfter L budget).past response = cursorAfter L (budget + more.toNat) := by
  have own : ∀ s, ∀ receiver ∈ page (L.receivers s) ((cursorAfter L budget).receiverIndex s).toNat
      (taken (left (fun _ => L) (cursorAfter L budget).receiverIndex) allShards more.toNat s),
      treeIndex receiver.1 = some s :=
    fun s receiver member => sharded s receiver (List.mem_of_mem_drop (List.mem_of_mem_take member))
  apply Checkpoint.ext
  · funext s
    have counted : (Ledger.ofShard response.receivers s).length =
        taken L.count allShards (budget + more.toNat) s - taken L.count allShards budget s := by
      have grouped : (Ledger.ofShard response.receivers s).length = (Ledger.ofShard _ s).length :=
        (receivers.filter _).length_eq
      have part := taken_le_count L (cursorAfter L budget).receiverIndex more.toNat s
      rw [grouped, gathered, ofShard_flatMap own s, length_page, ← taken_receiversAfter below]
      exact Nat.min_eq_left part
    have order := taken_mono L.count allShards (Nat.le_add_right budget more.toNat) s
    show UInt64.ofNat _ + UInt64.ofNat _ = UInt64.ofNat _
    rw [counted, ← UInt64.ofNat_add, Nat.add_sub_cancel' order]
  · have lengths := senders.length_eq
    rw [length_page, cursorAfter_sender below] at lengths
    show UInt64.ofNat _ + UInt64.ofNat _ = UInt64.ofNat _
    rw [lengths, ← UInt64.ofNat_add]
    congr 1
    omega

omit below in
/-- How a round over the tables ends. -/
theorem sqliteIteration_round (rounds : L.Below (2 ^ 48 - 15360)) (sharded : L.Sharded)
    (mirrors : Mirrors L w) {total : TotalBytes} (present : totalOf w.db = .ok total) (budget : Nat) :
    Pulls Quiet (fun out t => Quiet w t ∧ ∃ server, out = .ok ⟨server, cursorAfter L (budget + 15360),
      flagAfter L (budget + 15360) (budget + 15360)⟩)
      (sqliteIteration (cursorAfter L budget) (cursorAfter L budget)) w := by
  have below := rounds.weaken (by decide : _ ≤ 2 ^ 48)
  have limit : (1024 * 15 : UInt64).toNat = 15360 := by decide
  have room : ∀ s, L.count s + (1024 * 15 : UInt64).toNat ≤ 2 ^ 48 := by
    intro s
    have small := rounds.1 s
    omega
  have fits : (cursorAfter L budget).senderIndex.toNat + (1024 * 15 : UInt64).toNat ≤ 2 ^ 48 := by
    have small := rounds.2
    rw [cursorAfter_sender below]
    omega
  unfold sqliteIteration
  apply Ensures.bind Quiet.refl
  apply (pullLedgerDiff_still mirrors room fits).mono
  rintro out t ⟨⟨receivers, senders, gatheredAll, paged, rfl⟩, quiet⟩
  rw [present]
  rw [← limit, ← flagAfter_more below budget (by decide)]
  generalize (_ || _ : Bool) = flag
  let response : PullResponse := ⟨flag, receivers, senders, total⟩
  have converted : ∀ receiver ∈ response.receivers, ∃ s, treeIndex receiver.1 = some s := by
    intro receiver member
    obtain ⟨s, -, there⟩ := List.mem_flatMap.mp (gatheredAll.mem_iff.mp member)
    exact ⟨s, sharded s receiver (List.mem_of_mem_drop (List.mem_of_mem_take there))⟩
  simp only [Except.map, thenEnsures]
  refine pulls_grouped (f := fun next => SqliteRound.mk _ next flag) converted fun v step => ?_
  rw [cursorAfter_past below sharded gatheredAll paged]
  exact ⟨.trans _ _ _ quiet step, _, rfl⟩

omit below in
/-- The walk is left after the first round, past round `k`, whose flag is down. -/
theorem sqliteLoop_ends (rounds : L.Below (2 ^ 48 - 15360)) (sharded : L.Sharded)
    (mirrors : Mirrors L w) {total : TotalBytes} (present : totalOf w.db = .ok total) {fuel k : Nat}
    (enough : ∃ n, k < n ∧ n ≤ k + fuel ∧ flagAfter L (15360 * n) (15360 * n) = false) :
    Pulls Quiet (fun out _ => ∃ n, k < n ∧ out = .ok (some (cursorAfter L (15360 * n))) ∧
        flagAfter L (15360 * n) (15360 * n) = false ∧
        ∀ m, k < m → m < n → flagAfter L (15360 * m) (15360 * m) = true)
      (sqliteLoop fuel (cursorAfter L (15360 * k)) (cursorAfter L (15360 * k))) w := by
  induction fuel generalizing k w with
  | zero =>
    obtain ⟨n, later, within, -⟩ := enough
    omega
  | succ fuel ih =>
    unfold sqliteLoop
    apply Ensures.bind Quiet.refl
    apply (sqliteIteration_round rounds sharded mirrors present (15360 * k)).mono
    rintro out t ⟨quiet, server, rfl⟩
    have next : 15360 * k + 15360 = 15360 * (k + 1) := by omega
    rw [next]
    cases flag : flagAfter L (15360 * (k + 1)) (15360 * (k + 1)) with
    | false =>
      refine fun _ _ => ⟨k + 1, Nat.lt_succ_self k, rfl, flag, fun m after before => ?_⟩
      omega
    | true =>
      have later : ∃ n, k + 1 < n ∧ n ≤ k + 1 + fuel ∧
          flagAfter L (15360 * n) (15360 * n) = false := by
        obtain ⟨n, after, within, down⟩ := enough
        refine ⟨n, ?_, by omega, down⟩
        by_contra same
        obtain rfl : n = k + 1 := by omega
        rw [flag] at down
        cases down
      apply (ih (quiet.mirrors mirrors) (by rw [quiet.db]; exact present) later).mono
      rintro _ u ⟨n, after, rfl, down, up⟩
      refine ⟨n, Nat.lt_of_succ_lt after, rfl, down, fun m past before => ?_⟩
      by_cases first : m = k + 1
      · exact first ▸ flag
      · exact up m (by omega) before

/-- Such a checkpoint is the last one exactly when everything is passed. -/
theorem cursorAfter_last (budget : Nat) : cursorAfter L budget = L.checkpoint ↔
    L.receiverCount ≤ budget ∧ L.senders.length ≤ budget := by
  have all : (∀ s ∈ allShards, taken L.count allShards budget s = L.count s) ↔
      L.receiverCount ≤ budget := taken_all (List.nodup_finRange _) L.count budget
  rw [← all, Checkpoint.ext_iff]
  refine and_congr ⟨fun same s _ => ?_, fun taken => funext fun s => ?_⟩
    ⟨fun same => ?_, fun le => ?_⟩
  · have word := congrArg UInt64.toNat (congrFun same s)
    have part := taken_le L.count allShards budget s
    have small := below.1 s
    simp only [cursorAfter, receiversAfter, Ledger.checkpoint] at word
    rwa [toNat_ofNat (by omega), toNat_ofNat (by omega)] at word
  · exact congrArg UInt64.ofNat (taken s (List.mem_finRange s))
  · have word := congrArg UInt64.toNat same
    have small := below.2
    rw [cursorAfter_sender below] at word
    simp only [Ledger.checkpoint] at word
    rw [toNat_ofNat (by omega)] at word
    omega
  · exact congrArg UInt64.ofNat (Nat.min_eq_right le)

end Tables

end Walks

/-- The walk of `get_check_point_from_node`, whatever the indexer and its clients do meanwhile, returns
after at most as many rounds as the full node has rows, and one more, with the checkpoint of a ledger
that the node had between its start and its end. The same walk ends so in
`pull_ledger_diff_from_local_node`. -/
theorem node_walk_ends [Pallet] {w : World} {N : Ledger} (storable : N.Storable) {fuel : Nat}
    (enough : N.size < fuel) :
    (∀ history out t, Exec (Works (pacedNode w.node N)) NodeGrows (getCheckPointFromNode fuel) w
      history out t →
      ∃ M : Ledger, out = .ok (some M.checkpoint) ∧ w.node ≤ M ∧ M ≤ t.node ∧ M ≤ N) ∧
    ∀ history out t, Exec (Works (pacedNode w.node N)) NodeGrows (pullLedgerDiffFromLocalNode fuel) w
      history out t → out = .ok (some ()) := by
  have enough : N.size < Ledger.empty.size + fuel := enough.trans_le (Nat.le_add_left _ _)
  have ends : Asks w.node N (WalkEnds w.node N)
      (nodeLoop fuel Checkpoint.default Checkpoint.default) w :=
    nodeLoop_ends storable (Ledger.empty_le _) (Ledger.empty_le N) enough
  have timed : Asks w.node N (fun out _ => out = .ok (some ())) (pullLedgerDiffFromLocalNode fuel)
      w := by
    apply Ensures.bind NodeGrows.refl
    apply ends.mono
    rintro out u ⟨M, rfl, -⟩
    exact fun _ _ => rfl
  constructor
  · intro history out t run
    obtain ⟨M, returned, since, within, le⟩ := ends.exec NodeGrows.refl NodeGrows.trans
      (fun _ _ => id) run
    exact ⟨M, returned, since, le, within⟩
  · intro history out t run
    have returned := timed.exec NodeGrows.refl NodeGrows.trans (fun _ _ => id) run
    exact returned

section Sample

attribute [local instance] samplePallet

/-- A full node with two rows, which nothing changes meanwhile. -/
theorem node_walk_ends_two :
    (∃ history t, Exec (Works (pacedNode sampleNode sampleNode)) NodeGrows (getCheckPointFromNode 3)
      (System.initial 4 sampleNode).world history (.ok (some sampleNode.checkpoint)) t) ∧
    ∃ history t, Exec (Works (pacedNode sampleNode sampleNode)) NodeGrows
      (pullLedgerDiffFromLocalNode 3) (System.initial 4 sampleNode).world history
      (.ok (some ())) t := by
  have ends := node_walk_ends (w := (System.initial 4 sampleNode).world) sampleNode_storable
    (show sampleNode.size < 3 by decide +kernel)
  constructor
  · obtain ⟨history, out, t, run⟩ := sampleNode_exec NodeGrows (getCheckPointFromNode 3)
    obtain ⟨M, rfl, since, -, within⟩ := ends.1 history out t run
    obtain rfl := Ledger.le_antisymm within since
    exact ⟨history, t, run⟩
  · obtain ⟨history, out, t, run⟩ := sampleNode_exec NodeGrows (pullLedgerDiffFromLocalNode 3)
    obtain rfl := ends.2 history out t run
    exact ⟨history, t, run⟩

end Sample

/-- The walk of `pull_ledger_diff_from_sqlite` over tables that the syncing task can have left, with any
coherent cache and pulls beside it, ends once the rounds cover the rows. The checkpoint it ends with is
past everything stored, unless a shard ends exactly with a round while later shards have rows and no
sender is left: then it is not. -/
theorem sqlite_walk_complete [Pallet] {w : World} (after : AfterSync anyNode w) {L : Ledger}
    (holds : Represents w.db L) (below : L.Below (2 ^ 48 - 15360)) {total : TotalBytes}
    (present : totalOf w.db = .ok total) {fuel : Nat} (rounds : 0 < fuel)
    (receivers : L.receiverCount ≤ 15360 * fuel) (senders : L.senders.length ≤ 15360 * fuel)
    {history : List (Event World Op)} {out : Except Error (Option Checkpoint)} {t : World}
    (run : Exec Handles Quiet (pullLedgerDiffFromSqlite fuel) w history out t) :
    ∃ last, out = .ok (some last) ∧ (last = L.checkpoint ↔ ¬ StopsShort L 15360 15360) := by
  obtain ⟨mirrors, sharded⟩ := after.mirrors holds
  have covered : ∃ n, 0 < n ∧ n ≤ 0 + fuel ∧ flagAfter L (15360 * n) (15360 * n) = false :=
    ⟨fuel, rounds, by omega, (flagAfter_down (by omega)).mpr ⟨senders, .inl receivers⟩⟩
  have ends := sqliteLoop_ends below sharded mirrors present covered
  rw [Nat.mul_zero, cursorAfter_zero] at ends
  obtain ⟨n, some, returned, down, up⟩ := ends.exec Quiet.refl Quiet.trans (fun _ _ => id) run
  have spent := (flagAfter_down (by omega)).mp down
  refine ⟨_, returned, ?_⟩
  rw [cursorAfter_last (below.weaken (by decide : _ ≤ 2 ^ 48)),
    ← flagAfter_first (by decide) some down up]
  exact and_iff_left spent.1

section Sample

attribute [local instance] samplePallet

theorem sqlite_walk_complete_synced : ∃ history t,
    Exec Handles Quiet (pullLedgerDiffFromSqlite 1) sampleSynced.world history
      (.ok (some sampleNode.checkpoint)) t := by
  have small : sampleNode.receiverCount = 1 := by decide +kernel
  have total : (totalOf sampleSynced.world.db).map (fun _ => ()) = .ok () := by decide +kernel
  have covered : ¬ StopsShort sampleNode 15360 15360 := by
    rintro ⟨k, n, pos, -, more, -⟩
    omega
  have below : sampleNode.Below (2 ^ 48 - 15360) := by
    refine ⟨fun s => ?_, by decide⟩
    exact (Ledger.count_le_receiverCount sampleNode s).trans_lt (by rw [small]; decide)
  obtain ⟨history, run⟩ := Prog.run_exec (fun w op => Handles.handled w op Outside.offline)
    (pullLedgerDiffFromSqlite 1) sampleSynced.world
  cases found : totalOf sampleSynced.world.db with
  | error error =>
    rw [found] at total
    cases total
  | ok bytes =>
    obtain ⟨last, returned, complete⟩ := sqlite_walk_complete sampleSynced_afterSync
      sampleSynced_mirrors.represents below found Nat.one_pos (by omega) (by decide) run
    rw [returned, complete.mpr covered] at run
    exact ⟨history, _, run⟩

end Sample

end MantaIndexer
