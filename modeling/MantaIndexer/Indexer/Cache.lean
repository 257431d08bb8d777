import MantaIndexer.Indexer.Types

/-!
The keys of the ledger cache (`cache.rs`): four bits of type prefix, twelve bits of sub field and
48 bits of value.
-/

namespace MantaIndexer.Cache

abbrev LruKeyType := UInt64

def typePrefixBits : UInt64 := 4
def subFieldBits : UInt64 := 12
def valueFieldBits : UInt64 := 48

def receiverKeyPrefix : UInt64 := 1
def senderKeyPrefix : UInt64 := 2

/-- `LruKeyType::MAX`. -/
def keyMax : LruKeyType := ~~~0

def typePrefixMask : UInt64 := ~~~(keyMax >>> typePrefixBits)
def subFieldMask : UInt64 := (keyMax >>> typePrefixBits) &&& (keyMax <<< valueFieldBits)
def valueMask : UInt64 := ~~~(keyMax <<< valueFieldBits)

def receiverKey (shardIdx utxoIdx : LruKeyType) : LruKeyType :=
  (receiverKeyPrefix <<< (subFieldBits + valueFieldBits) &&& typePrefixMask) |||
    (shardIdx <<< valueFieldBits &&& subFieldMask) ||| (utxoIdx &&& valueMask)

def senderKey (idx : LruKeyType) : LruKeyType :=
  (senderKeyPrefix <<< (subFieldBits + valueFieldBits) &&& typePrefixMask) ||| (idx &&& valueMask)

/-! ### The value of a key -/

/-- A key of a type prefix, a sub field and a value: both kinds of key are built so. -/
def keyOf (typePrefix subField value : UInt64) : LruKeyType :=
  (typePrefix <<< (subFieldBits + valueFieldBits) &&& typePrefixMask) |||
    (subField <<< valueFieldBits &&& subFieldMask) ||| (value &&& valueMask)

theorem receiverKey_eq_keyOf (shardIdx utxoIdx : UInt64) :
    receiverKey shardIdx utxoIdx = keyOf receiverKeyPrefix shardIdx utxoIdx := rfl

theorem senderKey_eq_keyOf (idx : UInt64) : senderKey idx = keyOf senderKeyPrefix 0 idx := by
  have nothing : (0 : UInt64) <<< valueFieldBits &&& subFieldMask = 0 := by decide
  rw [keyOf, nothing, UInt64.or_zero, senderKey]

theorem and_typePrefixMask (x : UInt64) :
    (x &&& typePrefixMask).toNat = (x.toNat >>> 60 % 2 ^ 4) <<< 60 := by
  have mask : typePrefixMask.toNat = (2 ^ 4 - 1) <<< 60 := by decide
  rw [UInt64.toNat_and, mask, Encoding.and_field]

theorem and_subFieldMask (x : UInt64) :
    (x &&& subFieldMask).toNat = (x.toNat >>> 48 % 2 ^ 12) <<< 48 := by
  have mask : subFieldMask.toNat = (2 ^ 12 - 1) <<< 48 := by decide
  rw [UInt64.toNat_and, mask, Encoding.and_field]

theorem and_valueMask (x : UInt64) : (x &&& valueMask).toNat = x.toNat % 2 ^ 48 := by
  have mask : valueMask.toNat = 2 ^ 48 - 1 := by decide
  rw [UInt64.toNat_and, mask, Nat.and_two_pow_sub_one_eq_mod]

theorem typePrefix_field (x : UInt64) :
    (x <<< (subFieldBits + valueFieldBits) &&& typePrefixMask).toNat = (x.toNat % 2 ^ 4) <<< 60 := by
  have amount : (subFieldBits + valueFieldBits).toNat % 64 = 60 := by decide
  rw [and_typePrefixMask, UInt64.toNat_shiftLeft, amount]
  simp only [Nat.shiftLeft_eq, Nat.shiftRight_eq_div_pow]
  omega

theorem subField_field (x : UInt64) :
    (x <<< valueFieldBits &&& subFieldMask).toNat = (x.toNat % 2 ^ 12) <<< 48 := by
  have amount : valueFieldBits.toNat % 64 = 48 := by decide
  rw [and_subFieldMask, UInt64.toNat_shiftLeft, amount]
  simp only [Nat.shiftLeft_eq, Nat.shiftRight_eq_div_pow]
  omega

/-- The fields do not overlap, so a key is the sum of what it keeps of each. -/
theorem keyOf_toNat (typePrefix subField value : UInt64) :
    (keyOf typePrefix subField value).toNat =
      typePrefix.toNat % 2 ^ 4 * 2 ^ 60 + subField.toNat % 2 ^ 12 * 2 ^ 48 +
        value.toNat % 2 ^ 48 := by
  have low : value.toNat % 2 ^ 48 < 2 ^ 48 := Nat.mod_lt _ (by decide)
  have middle : (subField.toNat % 2 ^ 12) <<< 48 < 2 ^ 60 := by
    rw [Nat.shiftLeft_eq]
    omega
  have both : (typePrefix.toNat % 2 ^ 4) <<< 60 + (subField.toNat % 2 ^ 12) <<< 48 =
      (typePrefix.toNat % 2 ^ 4 * 2 ^ 12 + subField.toNat % 2 ^ 12) <<< 48 := by
    simp only [Nat.shiftLeft_eq]
    omega
  rw [keyOf, UInt64.toNat_or, UInt64.toNat_or, typePrefix_field, subField_field, and_valueMask,
    ← Nat.shiftLeft_add_eq_or_of_lt middle, both, ← Nat.shiftLeft_add_eq_or_of_lt low,
    Nat.shiftLeft_eq]
  omega

theorem receiverKey_toNat {shardIdx : UInt64} (h : shardIdx.toNat < 2 ^ 12) (utxoIdx : UInt64) :
    (receiverKey shardIdx utxoIdx).toNat =
      2 ^ 60 + shardIdx.toNat * 2 ^ 48 + utxoIdx.toNat % 2 ^ 48 := by
  have typed : receiverKeyPrefix.toNat % 2 ^ 4 * 2 ^ 60 = 2 ^ 60 := by decide
  rw [receiverKey_eq_keyOf, keyOf_toNat, typed, Nat.mod_eq_of_lt h]

theorem senderKey_toNat (idx : UInt64) :
    (senderKey idx).toNat = 2 ^ 61 + idx.toNat % 2 ^ 48 := by
  have typed : senderKeyPrefix.toNat % 2 ^ 4 * 2 ^ 60 = 2 ^ 61 := by decide
  rw [senderKey_eq_keyOf, keyOf_toNat, typed, UInt64.toNat_zero, Nat.zero_mod, Nat.zero_mul,
    Nat.add_zero]

/-! ### Reading a key back -/

structure KeyFields where
  typePrefix : UInt64
  subField : UInt64
  value : UInt64
deriving DecidableEq

/-- What the three masks cut out of a key. -/
def keyFields (key : LruKeyType) : KeyFields where
  typePrefix := (key &&& typePrefixMask) >>> (subFieldBits + valueFieldBits)
  subField := (key &&& subFieldMask) >>> valueFieldBits
  value := key &&& valueMask

theorem keyFields_typePrefix (key : LruKeyType) :
    (keyFields key).typePrefix.toNat = key.toNat / 2 ^ 60 := by
  have amount : (subFieldBits + valueFieldBits).toNat % 64 = 60 := by decide
  have bound := key.toNat_lt
  rw [keyFields, UInt64.toNat_shiftRight, amount, and_typePrefixMask]
  simp only [Nat.shiftLeft_eq, Nat.shiftRight_eq_div_pow]
  omega

theorem keyFields_subField (key : LruKeyType) :
    (keyFields key).subField.toNat = key.toNat / 2 ^ 48 % 2 ^ 12 := by
  have amount : valueFieldBits.toNat % 64 = 48 := by decide
  rw [keyFields, UInt64.toNat_shiftRight, amount, and_subFieldMask]
  simp only [Nat.shiftLeft_eq, Nat.shiftRight_eq_div_pow]
  omega

theorem keyFields_keyOf {typePrefix subField value : UInt64} (typed : typePrefix.toNat < 2 ^ 4)
    (sub : subField.toNat < 2 ^ 12) (low : value.toNat < 2 ^ 48) :
    keyFields (keyOf typePrefix subField value) = ⟨typePrefix, subField, value⟩ := by
  have whole := keyOf_toNat typePrefix subField value
  have first := keyFields_typePrefix (keyOf typePrefix subField value)
  have second := keyFields_subField (keyOf typePrefix subField value)
  have third : (keyFields (keyOf typePrefix subField value)).value.toNat = _ := and_valueMask _
  rw [KeyFields.mk.injEq]
  refine ⟨UInt64.toNat.inj ?_, UInt64.toNat.inj ?_, UInt64.toNat.inj ?_⟩
  · omega
  · omega
  · omega

/-! ### Keys of stored items -/

/-- `shard_idx as LruKeyType`. -/
def shardWord (s : ShardIndex) : UInt64 := UInt64.ofNat s.val

theorem shardWord_toNat (s : ShardIndex) : (shardWord s).toNat = s.val := by
  have bound : s.val < 256 := s.isLt
  exact Encoding.toNat_ofNat (by omega)

theorem shardWord_lt (s : ShardIndex) : (shardWord s).toNat < 2 ^ 12 := by
  have bound : s.val < 256 := s.isLt
  rw [shardWord_toNat]
  omega

/-- A key tells the shard, whatever the index. -/
theorem receiverKey_shard {s t : ShardIndex} {i j : UInt64}
    (same : receiverKey (shardWord s) i = receiverKey (shardWord t) j) : s = t := by
  have values := congrArg UInt64.toNat same
  rw [receiverKey_toNat (shardWord_lt s), receiverKey_toNat (shardWord_lt t), shardWord_toNat,
    shardWord_toNat] at values
  exact Fin.ext (by omega)

theorem receiverKey_inj {s t : ShardIndex} {i j : UInt64} (hi : i.toNat < 2 ^ 48)
    (hj : j.toNat < 2 ^ 48) (same : receiverKey (shardWord s) i = receiverKey (shardWord t) j) :
    s = t ∧ i = j := by
  obtain rfl := receiverKey_shard same
  have values := congrArg UInt64.toNat same
  rw [receiverKey_toNat (shardWord_lt s), receiverKey_toNat (shardWord_lt s),
    Nat.mod_eq_of_lt hi, Nat.mod_eq_of_lt hj] at values
  exact ⟨rfl, UInt64.toNat.inj (by omega)⟩

/-! ### Keys in general -/

theorem keyFields_receiverKey {shardIdx utxoIdx : UInt64} (sub : shardIdx.toNat < 2 ^ 12)
    (low : utxoIdx.toNat < 2 ^ 48) :
    keyFields (receiverKey shardIdx utxoIdx) = ⟨receiverKeyPrefix, shardIdx, utxoIdx⟩ :=
  keyFields_keyOf (by decide) sub low

theorem keyFields_senderKey {idx : UInt64} (low : idx.toNat < 2 ^ 48) :
    keyFields (senderKey idx) = ⟨senderKeyPrefix, 0, idx⟩ := by
  rw [senderKey_eq_keyOf, keyFields_keyOf (by decide) (by decide) low]

/-- The type prefix is read back whatever the other fields, which are cut to their width. -/
theorem receiverKey_ne_senderKey (shardIdx utxoIdx idx : UInt64) :
    receiverKey shardIdx utxoIdx ≠ senderKey idx := by
  intro same
  have values := congrArg UInt64.toNat same
  have typed : receiverKeyPrefix.toNat % 2 ^ 4 * 2 ^ 60 = 2 ^ 60 := by decide
  rw [receiverKey_eq_keyOf, keyOf_toNat, senderKey_toNat, typed] at values
  omega

theorem masks_cover : typePrefixMask ||| subFieldMask ||| valueMask = keyMax := by decide

theorem masks_disjoint : typePrefixMask &&& subFieldMask = 0 ∧ typePrefixMask &&& valueMask = 0 ∧
    subFieldMask &&& valueMask = 0 := by decide

/-- Keys of storable indices never collide, keys of the two kinds never do, and the masks
partition the word, so that every key built from fields in range can be read back. -/
theorem keys_never_collide :
    (∀ s s' u u' : LruKeyType, s.toNat < 2 ^ 12 → s'.toNat < 2 ^ 12 → u.toNat < 2 ^ 48 →
      u'.toNat < 2 ^ 48 → receiverKey s u = receiverKey s' u' → s = s' ∧ u = u') ∧
    (∀ s : ShardIndex, (shardWord s).toNat < 2 ^ 12) ∧
    (∀ i i' : LruKeyType, i.toNat < 2 ^ 48 → i'.toNat < 2 ^ 48 →
      senderKey i = senderKey i' → i = i') ∧
    (∀ s u i : LruKeyType, receiverKey s u ≠ senderKey i) ∧
    (typePrefixMask ||| subFieldMask ||| valueMask = keyMax ∧
      typePrefixMask &&& subFieldMask = 0 ∧ typePrefixMask &&& valueMask = 0 ∧
      subFieldMask &&& valueMask = 0) ∧
    (∀ p s v : LruKeyType, p.toNat < 2 ^ 4 → s.toNat < 2 ^ 12 → v.toNat < 2 ^ 48 →
      keyFields (keyOf p s v) = ⟨p, s, v⟩) ∧
    (∀ s u : LruKeyType, s.toNat < 2 ^ 12 → u.toNat < 2 ^ 48 →
      keyFields (receiverKey s u) = ⟨receiverKeyPrefix, s, u⟩) ∧
    ∀ i : LruKeyType, i.toNat < 2 ^ 48 → keyFields (senderKey i) = ⟨senderKeyPrefix, 0, i⟩ := by
  refine ⟨?_, shardWord_lt, ?_, receiverKey_ne_senderKey, ⟨masks_cover, masks_disjoint⟩,
    fun _ _ _ => keyFields_keyOf, fun _ _ => keyFields_receiverKey,
    fun _ => keyFields_senderKey⟩
  · intro s s' u u' hs hs' hu hu' same
    have fields := congrArg keyFields same
    rw [keyFields_receiverKey hs hu, keyFields_receiverKey hs' hu', KeyFields.mk.injEq] at fields
    exact fields.2
  · intro i i' hi hi' same
    have fields := congrArg keyFields same
    rw [keyFields_senderKey hi, keyFields_senderKey hi', KeyFields.mk.injEq] at fields
    exact fields.2.2

theorem keys_never_collide_sample :
    keyFields 1155736254374188059 = ⟨receiverKeyPrefix, 10, 234523⟩ ∧
      keyFields 2305843009213928540 = ⟨senderKeyPrefix, 0, 234588⟩ := by
  have receiver : receiverKey 10 234523 = 1155736254374188059 := by decide
  have sender : senderKey 234588 = 2305843009213928540 := by decide
  obtain ⟨-, -, -, -, -, -, receivers, senders⟩ := keys_never_collide
  rw [← receiver, ← sender]
  exact ⟨receivers 10 234523 (by decide) (by decide), senders 234588 (by decide)⟩

end MantaIndexer.Cache
