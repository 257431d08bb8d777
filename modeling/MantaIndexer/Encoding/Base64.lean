import MantaIndexer.Encoding.Codec

/-!
Base64 with the standard alphabet and padding: three bytes make four characters, and a last group of
one or two bytes is filled up with `=`.
-/

namespace Encoding.Base64

def alphabet : List Char :=
  "ABCDEFGHIJKLMNOPQRSTUVWXYZabcdefghijklmnopqrstuvwxyz0123456789+/".toList

def pad : Char := '='

def charOf (sextet : Nat) : Char := alphabet.getD sextet pad

def sextetOf (c : Char) : Option Nat := alphabet.findIdx? (· == c)

theorem sextetOf_charOf {n : Nat} (h : n < 64) : sextetOf (charOf n) = some n := by
  have all : ∀ n < 64, sextetOf (charOf n) = some n := by decide +kernel
  exact all n h

theorem charOf_ne_pad {n : Nat} (h : n < 64) : charOf n ≠ pad := by
  have all : ∀ n < 64, charOf n ≠ pad := by decide +kernel
  exact all n h

def group (a b c : Nat) : Nat := a * 65536 + b * 256 + c

def joined (w x y z : Nat) : Nat := w * 262144 + x * 4096 + y * 64 + z

/-- The characters of a number of 24 bits, first ones first. -/
def sextets (n : Nat) : List Char :=
  [charOf (n / 262144), charOf (n / 4096 % 64), charOf (n / 64 % 64), charOf (n % 64)]

def encodeChars : Bytes → List Char
  | a :: b :: c :: rest => sextets (group a.toNat b.toNat c.toNat) ++ encodeChars rest
  | [a, b] => (sextets (group a.toNat b.toNat 0)).take 3 ++ [pad]
  | [a] => (sextets (group a.toNat 0 0)).take 2 ++ [pad, pad]
  | [] => []

/-- The bytes of a number of 24 bits, first ones first. -/
def octets (n : Nat) : Bytes :=
  [UInt8.ofNat (n / 65536), UInt8.ofNat (n / 256), UInt8.ofNat n]

def decodeChars : List Char → Option Bytes
  | w :: x :: y :: z :: rest => do
    let w ← sextetOf w
    let x ← sextetOf x
    if y = pad then
      if z = pad ∧ rest = [] then return (octets (joined w x 0 0)).take 1 else none
    else
      let y ← sextetOf y
      if z = pad then
        if rest = [] then return (octets (joined w x y 0)).take 2 else none
      else
        let z ← sextetOf z
        let rest ← decodeChars rest
        return octets (joined w x y z) ++ rest
  | [] => some []
  | _ => none

/-! ### One group -/

section Group

variable {w x y z : Nat} (hw : w < 64) (hx : x < 64) (hy : y < 64) (hz : z < 64)

include hw hx

theorem decodeChars_one : decodeChars [charOf w, charOf x, pad, pad] =
    some ((octets (joined w x 0 0)).take 1) := by
  simp [decodeChars, sextetOf_charOf hw, sextetOf_charOf hx]

include hy

theorem decodeChars_two : decodeChars [charOf w, charOf x, charOf y, pad] =
    some ((octets (joined w x y 0)).take 2) := by
  simp [decodeChars, sextetOf_charOf hw, sextetOf_charOf hx, sextetOf_charOf hy, charOf_ne_pad hy]

include hz

theorem decodeChars_three (rest : List Char) :
    decodeChars (charOf w :: charOf x :: charOf y :: charOf z :: rest) =
      (decodeChars rest).map (octets (joined w x y z) ++ ·) := by
  simp only [decodeChars, sextetOf_charOf hw, sextetOf_charOf hx, sextetOf_charOf hy,
    sextetOf_charOf hz, charOf_ne_pad hy, charOf_ne_pad hz, if_false]
  cases decodeChars rest <;> rfl

end Group

theorem joined_sextets (n : Nat) :
    joined (n / 262144) (n / 4096 % 64) (n / 64 % 64) (n % 64) = n := by
  unfold joined
  omega

theorem group_lt (a b c : UInt8) : group a.toNat b.toNat c.toNat < 16777216 := by
  have ha := a.toNat_lt
  have hb := b.toNat_lt
  have hc := c.toNat_lt
  unfold group
  omega

theorem octets_group (a b c : UInt8) : octets (group a.toNat b.toNat c.toNat) = [a, b, c] := by
  have ha := a.toNat_lt
  have hb := b.toNat_lt
  have hc := c.toNat_lt
  have byte : ∀ (n : Nat) (u : UInt8), n % 256 = u.toNat → UInt8.ofNat n = u := by
    intro n u same
    apply UInt8.toNat.inj
    rw [UInt8.toNat_ofNat', same]
  unfold octets group
  rw [byte _ a (by omega), byte _ b (by omega), byte _ c (by omega)]

theorem decodeChars_sextets {n : Nat} (h : n < 16777216) (rest : List Char) :
    decodeChars (sextets n ++ rest) = (decodeChars rest).map (octets n ++ ·) := by
  have decoded := decodeChars_three (w := n / 262144) (x := n / 4096 % 64) (y := n / 64 % 64)
    (z := n % 64) (by omega) (by omega) (by omega) (by omega) rest
  rwa [joined_sextets] at decoded

/-! ### Whole texts -/

theorem decodeChars_encodeChars (bytes : Bytes) : decodeChars (encodeChars bytes) = some bytes := by
  induction bytes using encodeChars.induct with
  | case1 a b c rest ih =>
    rw [encodeChars, decodeChars_sextets (group_lt a b c), ih, octets_group]
    rfl
  | case2 a b =>
    -- The last sextet of the group is zero, so nothing is lost with it.
    have bound : group a.toNat b.toNat 0 < 16777216 := group_lt a b 0
    have none : group a.toNat b.toNat 0 % 64 = 0 := by
      unfold group
      omega
    have decoded := decodeChars_two (w := group a.toNat b.toNat 0 / 262144)
      (x := group a.toNat b.toNat 0 / 4096 % 64) (y := group a.toNat b.toNat 0 / 64 % 64)
      (by omega) (by omega) (by omega)
    have whole := joined_sextets (group a.toNat b.toNat 0)
    rw [none] at whole
    rw [whole] at decoded
    exact decoded.trans (congrArg (fun bytes => some (bytes.take 2)) (octets_group a b 0))
  | case3 a =>
    have bound : group a.toNat 0 0 < 16777216 := group_lt a 0 0
    have none : group a.toNat 0 0 / 64 % 64 = 0 ∧ group a.toNat 0 0 % 64 = 0 := by
      unfold group
      omega
    have decoded := decodeChars_one (w := group a.toNat 0 0 / 262144)
      (x := group a.toNat 0 0 / 4096 % 64) (by omega) (by omega)
    have whole := joined_sextets (group a.toNat 0 0)
    rw [none.1, none.2] at whole
    rw [whole] at decoded
    exact decoded.trans (congrArg (fun bytes => some (bytes.take 1)) (octets_group a 0 0))
  | case4 => rfl

def encode (bytes : Bytes) : String := String.ofList (encodeChars bytes)

def decode (text : String) : Option Bytes := decodeChars text.toList

theorem decode_encode (bytes : Bytes) : decode (encode bytes) = some bytes := by
  rw [decode, encode, String.toList_ofList, decodeChars_encodeChars]

example : encodeChars [77, 97, 110, 116, 97] = "TWFudGE=".toList := by decide +kernel

end Encoding.Base64
