/-!
Hexadecimal digits of bytes and words.
-/
namespace FederatedQuery.Text

def hexDigit (upper : Bool) (n : Nat) : Char :=
  if n < 10 then Char.ofNat (48 + n) else Char.ofNat ((if upper then 55 else 87) + n)

/-- The last `width` hexadecimal digits of a number. -/
def hexDigits (upper : Bool) : Nat → Nat → List Char
  | 0, _ => []
  | width + 1, n => hexDigits upper width (n / 16) ++ [hexDigit upper (n % 16)]

def hexBytes (upper : Bool) (bytes : List UInt8) : String :=
  String.ofList (bytes.flatMap fun b => hexDigits upper 2 b.toNat)

def hexValue? (c : Char) : Option Nat :=
  if c.isDigit then some (c.toNat - '0'.toNat)
  else if 'a' ≤ c ∧ c ≤ 'f' then some (c.toNat - 'a'.toNat + 10)
  else if 'A' ≤ c ∧ c ≤ 'F' then some (c.toNat - 'A'.toNat + 10)
  else none

def readHex? : List Char → Option (List UInt8)
  | [] => some []
  | a :: b :: rest => do
    return ((← hexValue? a) * 16 + (← hexValue? b)).toUInt8 :: (← readHex? rest)
  | _ => none

end FederatedQuery.Text
