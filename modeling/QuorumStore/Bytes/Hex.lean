import QuorumStore.Bytes

namespace QuorumStore.Hex

def digit (n : UInt8) : Char := if n < 10 then Char.ofUInt8 (48 + n) else Char.ofUInt8 (87 + n)

def digits (b : Bytes) : List Char := b.flatMap (fun (x : UInt8) => [digit (x >>> 4), digit (x &&& 15)])

def encode (b : Bytes) : String := String.ofList (digits b)

def value? (c : Char) : Option UInt8 :=
  if '0' ≤ c ∧ c ≤ '9' then some (c.toUInt8 - 48)
  else if 'a' ≤ c ∧ c ≤ 'f' then some (c.toUInt8 - 87)
  else if 'A' ≤ c ∧ c ≤ 'F' then some (c.toUInt8 - 55)
  else none

def ofDigits? : List Char → Option Bytes
  | [] => some []
  | [_] => none
  | c :: d :: r => do
      let hi ← value? c
      let lo ← value? d
      let rest ← ofDigits? r
      pure ((hi <<< 4 ||| lo) :: rest)

def decode? (s : String) : Option Bytes := ofDigits? s.toList

theorem ofDigits?_pair (x : UInt8) (r : List Char) :
    ofDigits? (digit (x >>> 4) :: digit (x &&& 15) :: r) = (ofDigits? r).map (x :: ·) := by
  have h : ∀ x : UInt8, value? (digit (x >>> 4)) = some (x >>> 4) ∧
      value? (digit (x &&& 15)) = some (x &&& 15) ∧ (x >>> 4) <<< 4 ||| (x &&& 15) = x := by
    intro x
    have : ∀ n : Fin 256, value? (digit (UInt8.ofFin n >>> 4)) = some (UInt8.ofFin n >>> 4) ∧
        value? (digit (UInt8.ofFin n &&& 15)) = some (UInt8.ofFin n &&& 15) ∧
        (UInt8.ofFin n >>> 4) <<< 4 ||| (UInt8.ofFin n &&& 15) = UInt8.ofFin n := by
      decide +kernel
    simpa using this x.toFin
  obtain ⟨h₁, h₂, h₃⟩ := h x
  simp only [ofDigits?, h₁, h₂, Option.bind_eq_bind, Option.bind_some, h₃]
  cases ofDigits? r <;> rfl

theorem ofDigits?_digits (b : Bytes) : ofDigits? (digits b) = some b := by
  induction b with
  | nil => rfl
  | cons x r ih =>
      have h : digits (x :: r) = digit (x >>> 4) :: digit (x &&& 15) :: digits r := rfl
      rw [h, ofDigits?_pair, ih]
      rfl

end QuorumStore.Hex
