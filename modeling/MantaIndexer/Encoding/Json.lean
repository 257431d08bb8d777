import Mathlib.Algebra.Order.Ring.Nat
import Mathlib.Data.List.Basic

/-!
Values as JSON, and the positional parameters of a JSON-RPC request. A type comes with a writer and a
reader that reads back what was written; lists, options and parameter lists are built from such types.
-/

namespace Encoding

inductive Json where
  | null
  | bool (value : Bool)
  | number (value : Int)
  | string (text : String)
  | array (items : List Json)
  | object (fields : List (String × Json))

class Serde (α : Type) where
  toJson : α → Json
  fromJson : Json → Option α
  fromJson_toJson : ∀ value, fromJson (toJson value) = some value

/-- A type that never writes `null`, so that `null` is left for no value. -/
class SolidSerde (α : Type) extends Serde α where
  toJson_ne_null : ∀ value, toJson value ≠ .null

variable {α β π : Type}

instance : SolidSerde Bool where
  toJson := .bool
  fromJson
    | .bool value => some value
    | _ => none
  fromJson_toJson _ := rfl
  toJson_ne_null _ same := by cases same

instance : SolidSerde String where
  toJson := .string
  fromJson
    | .string text => some text
    | _ => none
  fromJson_toJson _ := rfl
  toJson_ne_null _ same := by cases same

/-- An unsigned number of so many bits. -/
def readUnsigned (bits : Nat) : Json → Option Nat
  | .number value => if 0 ≤ value ∧ value.toNat < 2 ^ bits then some value.toNat else none
  | _ => none

theorem readUnsigned_number {bits n : Nat} (small : n < 2 ^ bits) :
    readUnsigned bits (.number n) = some n := by
  have inside : (0 : Int) ≤ n ∧ (n : Int).toNat < 2 ^ bits := ⟨Int.natCast_nonneg n, small⟩
  rw [readUnsigned, if_pos inside, Int.toNat_natCast]

instance : SolidSerde UInt32 where
  toJson value := .number value.toNat
  fromJson json := (readUnsigned 32 json).map UInt32.ofNat
  fromJson_toJson value := by
    rw [readUnsigned_number value.toNat_lt, Option.map_some, UInt32.ofNat_toNat]
  toJson_ne_null _ same := by cases same

instance : SolidSerde UInt64 where
  toJson value := .number value.toNat
  fromJson json := (readUnsigned 64 json).map UInt64.ofNat
  fromJson_toJson value := by
    rw [readUnsigned_number value.toNat_lt, Option.map_some, UInt64.ofNat_toNat]
  toJson_ne_null _ same := by cases same

theorem mapM_toJson [Serde α] (values : List α) :
    (values.map Serde.toJson).mapM Serde.fromJson = some values := by
  induction values with
  | nil => rfl
  | cons value values ih => simp [Serde.fromJson_toJson, ih]

instance [Serde α] : SolidSerde (List α) where
  toJson values := .array (values.map Serde.toJson)
  fromJson
    | .array items => items.mapM Serde.fromJson
    | _ => none
  fromJson_toJson := mapM_toJson
  toJson_ne_null _ same := by cases same

instance [Serde α] [Serde β] : SolidSerde (α × β) where
  toJson pair := .array [Serde.toJson pair.1, Serde.toJson pair.2]
  fromJson
    | .array [first, second] => do return (← Serde.fromJson first, ← Serde.fromJson second)
    | _ => none
  fromJson_toJson pair := by simp [Serde.fromJson_toJson]
  toJson_ne_null _ same := by cases same

def readOption [SolidSerde α] : Json → Option (Option α)
  | .null => some none
  | json => (Serde.fromJson json).map some

theorem readOption_toJson [SolidSerde α] (value : α) :
    readOption (Serde.toJson value) = some (some value) := by
  have solid := SolidSerde.toJson_ne_null value
  have read := Serde.fromJson_toJson value
  cases written : (Serde.toJson value : Json) with
  | null => exact absurd written solid
  | bool | number | string | array | object =>
    rw [written] at read
    simp [readOption, read]

instance [SolidSerde α] : Serde (Option α) where
  toJson
    | none => .null
    | some value => Serde.toJson value
  fromJson := readOption
  fromJson_toJson
    | none => rfl
    | some value => readOption_toJson value

/-! ### Positional parameters -/

/-- The parameters of a request, in order. What follows the last one is not looked at. -/
class Positional (π : Type) where
  parse : List Json → Option π
  print : π → List Json
  parse_print : ∀ params, parse (print params) = some params

instance : Positional Unit where
  parse _ := some ()
  print _ := []
  parse_print _ := rfl

instance (priority := low) [Serde α] [Positional π] : Positional (α × π) where
  parse
    | [] => none
    | first :: rest => do return (← Serde.fromJson first, ← Positional.parse rest)
  print params := Serde.toJson params.1 :: Positional.print params.2
  parse_print params := by simp [Serde.fromJson_toJson, Positional.parse_print]

/-- An optional parameter may be left out. -/
instance [SolidSerde α] [Positional π] : Positional (Option α × π) where
  parse
    | [] => (Positional.parse []).map fun rest => (none, rest)
    | first :: rest => do return (← Serde.fromJson first, ← Positional.parse rest)
  print params := Serde.toJson params.1 :: Positional.print params.2
  parse_print params := by simp [Serde.fromJson_toJson, Positional.parse_print]

end Encoding
