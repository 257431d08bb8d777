import Mathlib.Data.List.Basic
import Mathlib.Algebra.Order.Ring.Nat

/-!
Self-delimiting byte codecs: the decoder reads one value from the front of the input and leaves the
rest. A pair is encoded as the concatenation of its components.
-/

namespace Encoding

abbrev Bytes := List UInt8

/-- An encoding that its decoder undoes, whatever bytes follow. -/
class Codec (α : Type) where
  encode : α → Bytes
  decode : Bytes → Option (α × Bytes)
  decode_encode : ∀ value rest, decode (encode value ++ rest) = some (value, rest)

export Codec (encode decode)

variable {α β : Type} [Codec α] [Codec β]

instance : Codec (α × β) where
  encode pair := encode pair.1 ++ encode pair.2
  decode bytes := do
    let (first, rest) ← decode bytes
    let (second, rest) ← decode rest
    return ((first, second), rest)
  decode_encode := by
    intro pair rest
    simp [Codec.decode_encode, List.append_assoc]

instance : Codec Unit where
  encode _ := []
  decode bytes := some ((), bytes)
  decode_encode _ _ := rfl

instance : Codec UInt8 where
  encode byte := [byte]
  decode
    | [] => none
    | byte :: rest => some (byte, rest)
  decode_encode _ _ := rfl

/-- Decode one value from the front of a byte string, ignoring what is left over. -/
def decodeFront (α : Type) [Codec α] (bytes : Bytes) : Option α := (decode bytes).map Prod.fst

@[simp] theorem decodeFront_encode (value : α) : decodeFront α (encode value) = some value := by
  have decoded := Codec.decode_encode value []
  rw [List.append_nil] at decoded
  simp [decodeFront, decoded]

theorem encode_injective {first second : α} (h : encode first = encode second) :
    first = second := by
  have decoded := decodeFront_encode first
  rw [h, decodeFront_encode] at decoded
  exact (Option.some.inj decoded).symm

end Encoding
