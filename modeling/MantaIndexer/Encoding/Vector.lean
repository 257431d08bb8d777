import MantaIndexer.Encoding.Codec

/-!
Lists as SCALE encodes them: the length in compact form, then the items one after the other. A
length below 2^32 takes one, two, four or five bytes, which the two low bits of the first byte tell.
-/

namespace Encoding

def littleEndian (n : Nat) : Bytes :=
  [UInt8.ofNat n, UInt8.ofNat (n / 256), UInt8.ofNat (n / 65536), UInt8.ofNat (n / 16777216)]

def fromLittleEndian (a b c d : UInt8) : Nat :=
  a.toNat + b.toNat * 256 + c.toNat * 65536 + d.toNat * 16777216

theorem fromLittleEndian_ofNat {n : Nat} (h : n < 2 ^ 32) :
    fromLittleEndian (UInt8.ofNat n) (UInt8.ofNat (n / 256)) (UInt8.ofNat (n / 65536))
      (UInt8.ofNat (n / 16777216)) = n := by
  simp only [fromLittleEndian, UInt8.toNat_ofNat']
  omega

def compact (n : Nat) : Bytes :=
  if n < 2 ^ 6 then [UInt8.ofNat (n * 4)]
  else if n < 2 ^ 14 then [UInt8.ofNat (n * 4 + 1), UInt8.ofNat ((n * 4 + 1) / 256)]
  else if n < 2 ^ 30 then littleEndian (n * 4 + 2)
  else 3 :: littleEndian n

def fromCompact (bytes : Bytes) : Option (Nat × Bytes) :=
  match bytes with
  | [] => none
  | a :: rest =>
    if a.toNat % 4 = 0 then some (a.toNat / 4, rest)
    else if a.toNat % 4 = 1 then
      match rest with
      | b :: rest => some ((a.toNat + b.toNat * 256) / 4, rest)
      | _ => none
    else if a.toNat % 4 = 2 then
      match rest with
      | b :: c :: d :: rest => some (fromLittleEndian a b c d / 4, rest)
      | _ => none
    else
      match rest with
      | b :: c :: d :: e :: rest => some (fromLittleEndian b c d e, rest)
      | _ => none

theorem fromCompact_compact {n : Nat} (h : n < 2 ^ 32) (rest : Bytes) :
    fromCompact (compact n ++ rest) = some (n, rest) := by
  have byte : ∀ m, (UInt8.ofNat m).toNat = m % 256 := fun m => UInt8.toNat_ofNat'
  unfold compact
  split
  · simp only [List.cons_append, List.nil_append, fromCompact]
    rw [byte, if_pos (by omega)]
    congr 2
    omega
  · split
    · simp only [List.cons_append, List.nil_append, fromCompact]
      rw [byte, byte, if_neg (by omega), if_pos (by omega)]
      congr 2
      omega
    · split
      · simp only [littleEndian, List.cons_append, List.nil_append, fromCompact]
        rw [fromLittleEndian_ofNat (by omega), byte, if_neg (by omega), if_neg (by omega),
          if_pos (by omega)]
        congr 2
        omega
      · simp only [littleEndian, List.cons_append, List.nil_append, fromCompact]
        rw [fromLittleEndian_ofNat h, if_neg (by decide), if_neg (by decide), if_neg (by decide)]

variable {α : Type} [Codec α]

def encodeVec (values : List α) : Bytes := compact values.length ++ values.flatMap encode

def decodeMany (α : Type) [Codec α] : Nat → Bytes → Option (List α)
  | 0, _ => some []
  | n + 1, bytes => do
    let (value, rest) ← decode bytes
    let values ← decodeMany α n rest
    return value :: values

def decodeVec (α : Type) [Codec α] (bytes : Bytes) : Option (List α) := do
  let (n, rest) ← fromCompact bytes
  decodeMany α n rest

theorem decodeMany_flatMap (values : List α) :
    decodeMany α values.length (values.flatMap encode) = some values := by
  induction values with
  | nil => rfl
  | cons value values ih =>
    simp [decodeMany, Codec.decode_encode, ih]

theorem decodeVec_encodeVec {values : List α} (h : values.length < 2 ^ 32) :
    decodeVec α (encodeVec values) = some values := by
  simp [decodeVec, encodeVec, fromCompact_compact h, decodeMany_flatMap]

end Encoding
