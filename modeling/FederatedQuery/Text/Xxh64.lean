/-!
The sixty-four bit digest XXH64, with seed zero. The input is cut into words of eight bytes, low byte
first; four words make a stripe.
-/
namespace FederatedQuery.Text.Xxh64

def prime1 : UInt64 := 0x9E3779B185EBCA87

def prime2 : UInt64 := 0xC2B2AE3D27D4EB4F

def prime3 : UInt64 := 0x165667B19E3779F9

def prime4 : UInt64 := 0x85EBCA77C2B2AE63

def prime5 : UInt64 := 0x27D4EB2F165667C5

def rotate (x : UInt64) (n : UInt64) : UInt64 := (x <<< n) ||| (x >>> (64 - n))

def round (acc word : UInt64) : UInt64 := rotate (acc + word * prime2) 31 * prime1

/-- The number that bytes stand for, low byte first. -/
def littleEndian : List UInt8 → UInt64
  | [] => 0
  | b :: rest => b.toUInt64 + 256 * littleEndian rest

/-- Words of eight bytes, and the bytes left over. -/
def words : List UInt8 → List UInt64 × List UInt8
  | a :: b :: c :: d :: e :: f :: g :: h :: rest =>
    let (ws, left) := words rest
    (littleEndian [a, b, c, d, e, f, g, h] :: ws, left)
  | left => ([], left)

structure Lanes where
  a : UInt64
  b : UInt64
  c : UInt64
  d : UInt64

def Lanes.start : Lanes := ⟨prime1 + prime2, prime2, 0, 0 - prime1⟩

/-- Takes whole stripes; gives the words left over. -/
def stripes (l : Lanes) : List UInt64 → Lanes × List UInt64
  | a :: b :: c :: d :: rest => stripes ⟨round l.a a, round l.b b, round l.c c, round l.d d⟩ rest
  | left => (l, left)

def merge (h lane : UInt64) : UInt64 := (h ^^^ round 0 lane) * prime1 + prime4

def Lanes.join (l : Lanes) : UInt64 :=
  merge (merge (merge (merge
    (rotate l.a 1 + rotate l.b 7 + rotate l.c 12 + rotate l.d 18) l.a) l.b) l.c) l.d

def addWord (h word : UInt64) : UInt64 := rotate (h ^^^ round 0 word) 27 * prime1 + prime4

def addByte (h : UInt64) (b : UInt8) : UInt64 := rotate (h ^^^ (b.toUInt64 * prime5)) 11 * prime1

/-- The bytes after the last whole word: four of them as one number if there are so many. -/
def addBytes (h : UInt64) : List UInt8 → UInt64
  | a :: b :: c :: d :: rest =>
    rest.foldl addByte (rotate (h ^^^ (littleEndian [a, b, c, d] * prime1)) 23 * prime2 + prime3)
  | rest => rest.foldl addByte h

def mix (h : UInt64) : UInt64 :=
  let h := (h ^^^ (h >>> 33)) * prime2
  let h := (h ^^^ (h >>> 29)) * prime3
  h ^^^ (h >>> 32)

def digest (bytes : List UInt8) : UInt64 :=
  let (ws, left) := words bytes
  let (lanes, rest) := stripes Lanes.start ws
  let h := if bytes.length < 32 then prime5 else lanes.join
  mix (addBytes (rest.foldl addWord (h + bytes.length.toUInt64)) left)

end FederatedQuery.Text.Xxh64
