import Roll.Format

/-!
BLAKE2b-512 as RFC 7693 has it, with no key: what OpenSSL computes for the class
that wraps it.
-/
namespace Roll.Rfc7693

/-- The initial value. -/
def IV : List UInt64 :=
  [0x6A09E667F3BCC908, 0xBB67AE8584CAA73B, 0x3C6EF372FE94F82B, 0xA54FF53A5F1D36F1,
    0x510E527FADE682D1, 0x9B05688C2B3E6C1F, 0x1F83D9ABFB41BD6B, 0x5BE0CD19137E2179]

/-- The message words of each round. -/
def SIGMA : List (List Nat) :=
  [[0, 1, 2, 3, 4, 5, 6, 7, 8, 9, 10, 11, 12, 13, 14, 15],
    [14, 10, 4, 8, 9, 15, 13, 6, 1, 12, 0, 2, 11, 7, 5, 3],
    [11, 8, 12, 0, 5, 2, 15, 13, 10, 14, 3, 6, 7, 1, 9, 4],
    [7, 9, 3, 1, 13, 12, 11, 14, 2, 6, 5, 10, 4, 0, 15, 8],
    [9, 0, 5, 7, 2, 4, 10, 15, 14, 1, 11, 12, 6, 8, 3, 13],
    [2, 12, 6, 10, 0, 11, 8, 3, 4, 13, 7, 5, 15, 14, 1, 9],
    [12, 5, 1, 15, 14, 13, 4, 10, 0, 7, 6, 3, 9, 2, 8, 11],
    [13, 11, 7, 14, 12, 1, 3, 9, 5, 0, 15, 4, 8, 6, 2, 10],
    [6, 15, 14, 9, 11, 3, 0, 8, 12, 2, 13, 7, 1, 4, 10, 5],
    [10, 2, 8, 4, 7, 6, 1, 5, 15, 11, 9, 14, 3, 12, 13, 0],
    [0, 1, 2, 3, 4, 5, 6, 7, 8, 9, 10, 11, 12, 13, 14, 15],
    [14, 10, 4, 8, 9, 15, 13, 6, 1, 12, 0, 2, 11, 7, 5, 3]]

/-- The columns and the diagonals of the working vector. -/
def quarters : List (Nat × Nat × Nat × Nat) :=
  [(0, 4, 8, 12), (1, 5, 9, 13), (2, 6, 10, 14), (3, 7, 11, 15),
    (0, 5, 10, 15), (1, 6, 11, 12), (2, 7, 8, 13), (3, 4, 9, 14)]

def word (v : List UInt64) (i : Nat) : UInt64 := v.getD i 0

def rotate (x n : UInt64) : UInt64 := x >>> n ||| x <<< (64 - n)

/-- The mixing function. -/
def G (v : List UInt64) (a b c d : Nat) (x y : UInt64) : List UInt64 :=
  let v := v.set a (word v a + word v b + x)
  let v := v.set d (rotate (word v d ^^^ word v a) 32)
  let v := v.set c (word v c + word v d)
  let v := v.set b (rotate (word v b ^^^ word v c) 24)
  let v := v.set a (word v a + word v b + y)
  let v := v.set d (rotate (word v d ^^^ word v a) 16)
  let v := v.set c (word v c + word v d)
  v.set b (rotate (word v b ^^^ word v c) 63)

def round (m v : List UInt64) (sigma : List Nat) : List UInt64 :=
  quarters.zipIdx.foldl (fun v (q, i) =>
    G v q.1 q.2.1 q.2.2.1 q.2.2.2 (word m (sigma.getD (2 * i) 0)) (word m (sigma.getD (2 * i + 1) 0))) v

/-- The first words of a block. It is filled up with zeros. -/
def words : Nat → List UInt8 → List UInt64
  | 0, _ => []
  | n + 1, block => (block.take 8).foldr (fun byte word => word * 256 + byte.toUInt64) 0 :: words n (block.drop 8)

/-- The compression function. `t` is how much of the message there is up to the end of the block. -/
def F (h : List UInt64) (block : List UInt8) (t : Nat) (last : Bool) : List UInt64 :=
  let v := h ++ IV
  let v := v.set 12 (word v 12 ^^^ UInt64.ofNat t)
  let v := v.set 13 (word v 13 ^^^ UInt64.ofNat (t >>> 64))
  let v := if last then v.set 14 (word v 14 ^^^ 0xFFFFFFFFFFFFFFFF) else v
  let v := SIGMA.foldl (round (words 16 block)) v
  (List.range 8).map fun i => word h i ^^^ word v i ^^^ word v (i + 8)

/-- So many blocks, and the last one. -/
def compress (h : List UInt64) (t : Nat) : Nat → List UInt8 → List UInt64
  | 0, rest => F h rest (t + rest.length) true
  | n + 1, rest => compress (F h (rest.take 128) (t + 128) false) (t + 128) n (rest.drop 128)

def blake2b512 (message : List UInt8) : List UInt8 :=
  let h := compress (IV.set 0 (word IV 0 ^^^ 0x01010040)) 0 ((message.length - 1) / 128) message
  (List.range 64).map fun i => (word h (i / 8) >>> UInt64.ofNat (8 * (i % 8))).toUInt8

theorem blake2b512_length (message : List UInt8) : (blake2b512 message).length = 64 := by
  rw [blake2b512, List.length_map, List.length_range]

end Roll.Rfc7693
