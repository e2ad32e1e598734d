/-!
A digest of sixteen bytes for naming files by their content. The message is filled up to blocks of
sixty-four bytes; each block is mixed into four words in sixty-four rounds.
-/
namespace InlineImpact.Digest

structure Words where
  a : UInt32
  b : UInt32
  c : UInt32
  d : UInt32

def initial : Words := ⟨0x67452301, 0xefcdab89, 0x98badcfe, 0x10325476⟩

/-- The additive constants of the rounds: the fractions of the sines of 1 to 64. -/
def sines : Array UInt32 := #[
  0xd76aa478, 0xe8c7b756, 0x242070db, 0xc1bdceee, 0xf57c0faf, 0x4787c62a,
  0xa8304613, 0xfd469501, 0x698098d8, 0x8b44f7af, 0xffff5bb1, 0x895cd7be,
  0x6b901122, 0xfd987193, 0xa679438e, 0x49b40821, 0xf61e2562, 0xc040b340,
  0x265e5a51, 0xe9b6c7aa, 0xd62f105d, 0x02441453, 0xd8a1e681, 0xe7d3fbc8,
  0x21e1cde6, 0xc33707d6, 0xf4d50d87, 0x455a14ed, 0xa9e3e905, 0xfcefa3f8,
  0x676f02d9, 0x8d2a4c8a, 0xfffa3942, 0x8771f681, 0x6d9d6122, 0xfde5380c,
  0xa4beea44, 0x4bdecfa9, 0xf6bb4b60, 0xbebfbc70, 0x289b7ec6, 0xeaa127fa,
  0xd4ef3085, 0x04881d05, 0xd9d4d039, 0xe6db99e5, 0x1fa27cf8, 0xc4ac5665,
  0xf4292244, 0x432aff97, 0xab9423a7, 0xfc93a039, 0x655b59c3, 0x8f0ccc92,
  0xffeff47d, 0x85845dd1, 0x6fa87e4f, 0xfe2ce6e0, 0xa3014314, 0x4e0811a1,
  0xf7537e82, 0xbd3af235, 0x2ad7d2bb, 0xeb86d391]

/-- The amounts of rotation, four for each group of sixteen rounds. -/
def rotations : Array UInt32 := #[7, 12, 17, 22, 5, 9, 14, 20, 4, 11, 16, 23, 6, 10, 15, 21]

def rotateLeft (x n : UInt32) : UInt32 := (x <<< n) ||| (x >>> (32 - n))

/-- The mixing function of a round and the place of the message word that it takes. -/
def roundPlan (i : Nat) (w : Words) : UInt32 × Nat :=
  match i / 16 with
  | 0 => ((w.b &&& w.c) ||| (~~~w.b &&& w.d), i)
  | 1 => ((w.d &&& w.b) ||| (~~~w.d &&& w.c), (5 * i + 1) % 16)
  | 2 => (w.b ^^^ w.c ^^^ w.d, (3 * i + 5) % 16)
  | _ => (w.c ^^^ (w.b ||| ~~~w.d), 7 * i % 16)

def round (block : Array UInt32) (w : Words) (i : Nat) : Words :=
  let (f, g) := roundPlan i w
  let sum := f + w.a + sines.getD i 0 + block.getD g 0
  ⟨w.d, w.b + rotateLeft sum (rotations.getD (i / 16 * 4 + i % 4) 0), w.b, w.c⟩

def mixBlock (w : Words) (block : Array UInt32) : Words :=
  let m := (List.range 64).foldl (round block) w
  ⟨w.a + m.a, w.b + m.b, w.c + m.c, w.d + m.d⟩

/-- `n` bytes of a natural, the lowest first. -/
def lowBytes : Nat → Nat → List UInt8
  | 0, _ => []
  | n + 1, value => UInt8.ofNat (value % 256) :: lowBytes n (value / 256)

/-- Fills up with a single bit, zeros and the length in bits. -/
def padded (message : List UInt8) : List UInt8 :=
  let zeros := (119 - message.length % 64) % 64
  message ++ 0x80 :: (List.replicate zeros 0 ++ lowBytes 8 (8 * message.length))

/-- Words of four bytes, the lowest byte first. -/
def toWords : List UInt8 → List UInt32
  | a :: b :: c :: d :: rest =>
    (a.toUInt32 ||| (b.toUInt32 <<< 8) ||| (c.toUInt32 <<< 16) ||| (d.toUInt32 <<< 24)) ::
      toWords rest
  | _ => []

/-- Cuts into blocks of sixteen words, at most `fuel` of them. -/
def blocks : (fuel : Nat) → List UInt32 → List (Array UInt32)
  | 0, _ => []
  | fuel + 1, ws => if ws.isEmpty then [] else (ws.take 16).toArray :: blocks fuel (ws.drop 16)

def bytes (message : List UInt8) : List UInt8 :=
  let ws := toWords (padded message)
  let w := (blocks ws.length ws).foldl mixBlock initial
  [w.a, w.b, w.c, w.d].flatMap fun x => lowBytes 4 x.toNat

def hexByte (b : UInt8) : List Char :=
  [Nat.digitChar (b.toNat / 16), Nat.digitChar (b.toNat % 16)]

/-- The digest in base sixteen. -/
def hex (message : ByteArray) : String :=
  String.ofList ((bytes message.toList).flatMap hexByte)

end InlineImpact.Digest
