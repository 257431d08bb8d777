import MantaIndexer.Mirror.PullSpec
import MantaIndexer.Collections.Grouping
import MantaIndexer.Mirror.Reads

/-!
What a page of receivers means to the client that asked for it: the receivers of each shard between
the cursor it sent and the cursor it got back, each exactly once.
-/

namespace MantaIndexer
open Effects Encoding Collections

variable [P : Pallet]

def between (L : Ledger) (start cursor : ShardIndex → UInt64) (s : ShardIndex) : List Receiver :=
  page (L.receivers s) (start s).toNat ((cursor s).toNat - (start s).toNat)

/-- The delivered receivers are the stored ones between the two cursors. -/
structure Paged (L : Ledger) (start cursor : ShardIndex → UInt64) (delivered : List Receiver) :
    Prop where
  forward : ∀ s, (start s).toNat ≤ (cursor s).toNat
  inside : ∀ s, cursor s = start s ∨ (cursor s).toNat ≤ L.count s
  once : delivered.Perm (allShards.flatMap (between L start cursor))

namespace Paged

variable {L M : Ledger} {start cursor next : ShardIndex → UInt64} {delivered more : List Receiver}

theorem nothing (L : Ledger) (start : ShardIndex → UInt64) : Paged L start start [] :=
  ⟨fun _ => Nat.le_refl _, fun _ => .inl rfl, by simp [between, page]⟩

theorem between_later (h : Paged L start cursor delivered) (le : L ≤ M) (s : ShardIndex) :
    between L start cursor s = between M start cursor s := by
  have forward := h.forward s
  unfold between
  by_cases none : (cursor s).toNat = (start s).toNat
  · rw [none, Nat.sub_self, page, page, List.take_zero, List.take_zero]
  · rcases h.inside s with same | inside
    · rw [same] at none
      exact absurd rfl none
    · rw [Ledger.count] at inside
      exact (page_longer (le.1 s) (by omega)).symm

theorem later (h : Paged L start cursor delivered) (le : L ≤ M) : Paged M start cursor delivered :=
  ⟨h.forward, fun s => (h.inside s).imp_right fun inside => inside.trans (Ledger.count_le le s),
    h.once.trans (.of_eq (List.flatMap_congr fun s _ => h.between_later le s))⟩

theorem append (h : Paged L start cursor delivered) (h' : Paged L cursor next more) :
    Paged L start next (delivered ++ more) := by
  refine ⟨fun s => (h.forward s).trans (h'.forward s), fun s => ?_, ?_⟩
  · rcases h'.inside s with same | inside
    · rw [same]
      exact h.inside s
    · exact .inr inside
  · refine (h.once.append h'.once).trans ((List.flatMap_append_perm _ _ _).trans (.of_eq ?_))
    exact List.flatMap_congr fun s _ => page_append _ (h.forward s) (h'.forward s)

end Paged

/-! ### One request -/

theorem ofShard_flatMap {items : ShardIndex → List Receiver}
    (own : ∀ s, ∀ receiver ∈ items s, treeIndex receiver.1 = some s) (s : ShardIndex) :
    Ledger.ofShard (allShards.flatMap items) s = items s := by
  rw [Ledger.ofShard, List.filter_flatMap,
    ← flatMap_single (List.mem_finRange s) (List.nodup_finRange _) items]
  apply List.flatMap_congr
  intro t _
  split
  · rename_i same
    subst same
    rw [List.filter_eq_self]
    intro receiver member
    rw [own t receiver member]
    exact decide_eq_true rfl
  · rename_i other
    rw [List.filter_eq_nil_iff]
    intro receiver member
    rw [own t receiver member]
    simpa using other

/-- The receivers gathered from views of a growing ledger are a page of its last state. -/
theorem paged_gathered {inv : Database → Prop} {L O : Ledger} {view : ShardIndex → Ledger}
    {indices : ShardIndex → UInt64} {budget : Nat} {receivers : List Receiver}
    (views : Views inv L O allShards view) (below : O.Below (2 ^ 48))
    (perm : receivers.Perm (gathered view indices allShards budget)) :
    Paged O indices (advanced view indices budget) receivers := by
  have amount : ∀ s, taken (left view indices) allShards budget s ≤
      (view s).count s - (indices s).toNat :=
    fun s => taken_le _ _ _ _
  have counted : ∀ s, (view s).count s ≤ O.count s :=
    fun s => Ledger.count_le (views.upTo s (List.mem_finRange s)) s
  have moved : ∀ s, (advanced view indices budget s).toNat =
      (indices s).toNat + taken (left view indices) allShards budget s := by
    intro s
    have room := amount s
    have small := below.1 s
    have less := counted s
    have bound := (indices s).toNat_lt
    have word := toNat_ofNat (n := taken (left view indices) allShards budget s) (by omega)
    rw [advanced, toNat_add, word]
    omega
  refine ⟨fun s => by rw [moved]; exact Nat.le_add_right _ _, fun s => ?_, ?_⟩
  · by_cases none : taken (left view indices) allShards budget s = 0
    · left
      rw [advanced, none]
      exact UInt64.add_zero _
    · right
      have room := amount s
      have less := counted s
      rw [moved]
      omega
  · refine perm.trans (.of_eq (List.flatMap_congr fun s _ => ?_))
    rw [between, moved, Nat.add_sub_cancel_left]
    by_cases none : taken (left view indices) allShards budget s = 0
    · rw [none, page, page, List.take_zero, List.take_zero]
    · have room := amount s
      rw [Ledger.count] at room
      exact (page_longer ((views.upTo s (List.mem_finRange s)).1 s) (by omega)).symm

/-- What an answer means to a client that sent the cursor. -/
def Answers (cursor : ShardIndex → UInt64) (out : Except Error (PullResponse × Checkpoint))
    (w : World) : Prop :=
  ∀ response next, out = .ok (response, next) →
    ∃ M, Mirrors M w ∧ Paged M cursor next.receiverIndex response.receivers

theorem Handles.performs {w v : World} {op : Op} {r : op.Res} (h : Handles w op r v) :
    Performs anyNode w op r v := by
  cases h with
  | handled _ _ outside => exact .handled w op outside fun _ _ _ _ _ => trivial

section Client

variable {w : World} {inv : Database → Prop} {L : Ledger} (follows : Follows inv L w)

theorem Reads.later {α : Type} {p : Task α} {w : World} (reads : Reads anyNode (Grows inv) p w) :
    Pulls (Grows inv) (fun _ t => Grows inv w t) p w := by
  have quiet := reads.reach Grows.trans (fun _ _ _ step => step.grows) (Grows.refl inv w)
  have handled : Ensures Handles (Grows inv) (fun _ _ _ => True)
      (fun _ t => Mirrored t ∧ Grows inv w t) p w :=
    quiet.weaken (fun _ _ _ _ => Handles.performs) (fun _ _ => id) fun _ _ _ _ => trivial
  exact handled.mono fun _ _ => And.right

include follows

/-- Whatever happens to its senders and its total, an answered request delivers a page of
receivers. -/
theorem pullLedgerDiff_answers {ck : Checkpoint}
    {maxReceivers maxSenders : UInt64} (limit : maxReceivers.toNat ≤ 4096) :
    Pulls (Grows inv) (Answers ck.receiverIndex) (pullLedgerDiff ck maxReceivers maxSenders) w := by
  unfold pullLedgerDiff
  rw [← Profile.pullReceivers_release]
  apply Ensures.bind (Grows.refl inv)
  refine (pullReceivers_pulls (Grows.refl inv) (fun _ _ => id) follows (room_of_le inv limit)).mono ?_
  rintro out t ⟨O, view, chunk, leO, followsO, views, chunks, rfl⟩
  have paged := paged_gathered views followsO.below chunks.perm
  have later : ∀ u, Grows inv t u → ∃ M, Follows inv M u ∧
      Paged M ck.receiverIndex (advanced view ck.receiverIndex maxReceivers.toNat)
        (allShards.flatMap chunk) := by
    intro u step
    obtain ⟨M, le, followsM⟩ := step.later followsO
    exact ⟨M, followsM, paged.later le⟩
  apply Ensures.bind (Grows.refl inv)
  refine (Reads.later (pullSenders_reads (fun _ _ => id) ⟨O, followsO.toMirrors⟩)).mono ?_
  intro out u step
  cases out with
  | error error => exact fun _ _ _ _ => nofun
  | ok result =>
    refine pulls_getTotal fun v step' => ?_
    have reached := step.trans _ _ _ step'
    cases totalOf v.db with
    | error error => exact fun _ _ _ _ => nofun
    | ok total =>
      intro v' step'' response next same
      cases same
      obtain ⟨N, followsN, paged⟩ := later v' (reached.trans _ _ _ step'')
      exact ⟨N, followsN.toMirrors, paged⟩

end Client

end MantaIndexer
