import MantaIndexer.Indexer.Types

/-!
The ledger the indexer mirrors: the receivers of each shard and the senders, in the order in which
they were added. A ledger only grows, so an earlier one is a prefix of a later one.
-/

namespace MantaIndexer

/-- A shielded ledger: one list of receivers for each shard and one list of senders. -/
@[ext] structure Ledger [Pallet] where
  receivers : ShardIndex → List Receiver
  senders : List Sender

namespace Ledger
variable [Pallet]

def empty : Ledger := ⟨fun _ => [], []⟩

/-- `L ≤ M`: the ledger `M` is `L` with items added at the ends. -/
instance : LE Ledger where
  le L M := (∀ s, L.receivers s <+: M.receivers s) ∧ L.senders <+: M.senders

theorem le_refl (L : Ledger) : L ≤ L := ⟨fun _ => List.prefix_rfl, List.prefix_rfl⟩

theorem le_trans {L M N : Ledger} (first : L ≤ M) (second : M ≤ N) : L ≤ N :=
  ⟨fun s => (first.1 s).trans (second.1 s), first.2.trans second.2⟩

theorem le_antisymm {L M : Ledger} (first : L ≤ M) (second : M ≤ L) : L = M := by
  ext1
  · funext s
    exact (first.1 s).eq_of_length_le (second.1 s).length_le
  · exact first.2.eq_of_length_le second.2.length_le

theorem empty_le (L : Ledger) : empty ≤ L := ⟨fun _ => List.nil_prefix, List.nil_prefix⟩

def extend (L : Ledger) (receivers : ShardIndex → List Receiver) (senders : List Sender) : Ledger :=
  ⟨fun s => L.receivers s ++ receivers s, L.senders ++ senders⟩

theorem le_extend (L : Ledger) (receivers : ShardIndex → List Receiver) (senders : List Sender) :
    L ≤ L.extend receivers senders :=
  ⟨fun _ => List.prefix_append .., List.prefix_append ..⟩

theorem extend_extend (L : Ledger) (first second : ShardIndex → List Receiver)
    (senders more : List Sender) :
    (L.extend first senders).extend second more =
      L.extend (fun s => first s ++ second s) (senders ++ more) := by
  simp [extend, List.append_assoc]

@[simp] theorem extend_nothing (L : Ledger) : L.extend (fun _ => []) [] = L := by
  simp [extend]

/-- The receivers of a list that belong to a shard, in the order of the list. -/
def ofShard (receivers : List Receiver) (s : ShardIndex) : List Receiver :=
  receivers.filter fun receiver => treeIndex receiver.1 = some s

/-- The ledger after a response of the full node was added. -/
def append (L : Ledger) (response : PullResponse) : Ledger :=
  L.extend (ofShard response.receivers) response.senders

theorem append_receivers (L : Ledger) (response : PullResponse) (s : ShardIndex) :
    (L.append response).receivers s = L.receivers s ++ ofShard response.receivers s := rfl

def count (L : Ledger) (s : ShardIndex) : Nat := (L.receivers s).length

theorem count_le {L M : Ledger} (h : L ≤ M) (s : ShardIndex) : L.count s ≤ M.count s :=
  (h.1 s).length_le

theorem senders_le {L M : Ledger} (h : L ≤ M) : L.senders.length ≤ M.senders.length :=
  h.2.length_le

theorem count_extend (L : Ledger) (receivers : ShardIndex → List Receiver) (senders : List Sender)
    (s : ShardIndex) : (L.extend receivers senders).count s = L.count s + (receivers s).length :=
  List.length_append

def Sharded (L : Ledger) : Prop :=
  ∀ s, ∀ receiver ∈ L.receivers s, treeIndex receiver.1 = some s

theorem Sharded.append {L : Ledger} (sharded : L.Sharded) (response : PullResponse) :
    (L.append response).Sharded := by
  intro s receiver member
  rcases List.mem_append.mp member with old | new
  · exact sharded s receiver old
  · exact of_decide_eq_true (List.mem_filter.mp new).2

def Below (bound : Nat) (L : Ledger) : Prop := (∀ s, L.count s < bound) ∧ L.senders.length < bound

theorem empty_below {bound : Nat} (pos : 0 < bound) : empty.Below bound := ⟨fun _ => pos, pos⟩

theorem Below.weaken {bound larger : Nat} {L : Ledger} (below : L.Below bound)
    (h : bound ≤ larger) : L.Below larger :=
  ⟨fun s => (below.1 s).trans_le h, below.2.trans_le h⟩

def checkpoint (L : Ledger) : Checkpoint where
  receiverIndex s := UInt64.ofNat (L.count s)
  senderIndex := UInt64.ofNat L.senders.length

end Ledger

end MantaIndexer
