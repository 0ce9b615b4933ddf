/-!
The standard base64 alphabet with padding. Reading accepts exactly what writing produces: padding is
required, and the bits that a last group leaves over are zero.
-/
namespace FederatedQuery.Text

def sixBits (n : Nat) : Char :=
  if n < 26 then Char.ofNat (65 + n)
  else if n < 52 then Char.ofNat (71 + n)
  else if n < 62 then Char.ofNat (n - 4)
  else if n = 62 then '+' else '/'

def sixBitsOf? (c : Char) : Option Nat :=
  let code := c.toNat
  if 65 ≤ code ∧ code ≤ 90 then some (code - 65)
  else if 97 ≤ code ∧ code ≤ 122 then some (code - 71)
  else if 48 ≤ code ∧ code ≤ 57 then some (code + 4)
  else if c = '+' then some 62
  else if c = '/' then some 63
  else none

def base64Chars : List UInt8 → List Char
  | [] => []
  | [a] =>
    let n := a.toNat * 16
    [sixBits (n / 64), sixBits (n % 64), '=', '=']
  | [a, b] =>
    let n := (a.toNat * 256 + b.toNat) * 4
    [sixBits (n / 4096), sixBits (n / 64 % 64), sixBits (n % 64), '=']
  | a :: b :: c :: rest =>
    let n := (a.toNat * 256 + b.toNat) * 256 + c.toNat
    sixBits (n / 262144) :: sixBits (n / 4096 % 64) :: sixBits (n / 64 % 64) :: sixBits (n % 64) ::
      base64Chars rest

def base64 (bytes : List UInt8) : String := String.ofList (base64Chars bytes)

def base64Bytes? : List Char → Option (List UInt8)
  | [] => some []
  | [a, b, '=', '='] => do
    let n := (← sixBitsOf? a) * 64 + (← sixBitsOf? b)
    if n % 16 = 0 then some [(n / 16).toUInt8] else none
  | [a, b, c, '='] => do
    let n := ((← sixBitsOf? a) * 64 + (← sixBitsOf? b)) * 64 + (← sixBitsOf? c)
    if n % 4 = 0 then some [(n / 1024).toUInt8, (n / 4 % 256).toUInt8] else none
  | a :: b :: c :: d :: rest => do
    let n := (((← sixBitsOf? a) * 64 + (← sixBitsOf? b)) * 64 + (← sixBitsOf? c)) * 64 +
      (← sixBitsOf? d)
    let tail ← base64Bytes? rest
    some ((n / 65536).toUInt8 :: (n / 256 % 256).toUInt8 :: (n % 256).toUInt8 :: tail)
  | _ => none

def readBase64? (text : String) : Option (List UInt8) := base64Bytes? text.toList

end FederatedQuery.Text
