import Roll.Signature

/-!
`ChunkIndex`: a content-addressed index over a signature's chunks.

The hash map is a list of buckets, one for each distinct content; the hash
function only decides how fast a bucket is found.
-/
namespace Roll

/-- The positions of one content, in ascending order, and the number of them
    that are known to be consumed. -/
structure Bucket where
  positions : List Nat := []
  cursor : Nat := 0
deriving DecidableEq, Repr

structure ChunkIndex where
  buckets_ : List (SignedChunk × Bucket) := []
deriving DecidableEq, Repr

namespace ChunkIndex

/-- `buckets_[chunk].positions.push_back(i)`. -/
def push (chunk : SignedChunk) (i : Nat) : List (SignedChunk × Bucket) → List (SignedChunk × Bucket)
  | [] => [(chunk, { positions := [i] })]
  | (key, bucket) :: rest =>
    if key.same chunk then (key, { bucket with positions := bucket.positions ++ [i] }) :: rest
    else (key, bucket) :: push chunk i rest

/-- The chunks from position `i` on enter the index. -/
def insert_from : Nat → List SignedChunk → List (SignedChunk × Bucket) → List (SignedChunk × Bucket)
  | _, [], buckets => buckets
  | i, chunk :: rest, buckets => insert_from (i + 1) rest (push chunk i buckets)

def build (chunks : List SignedChunk) : ChunkIndex := { buckets_ := insert_from 0 chunks [] }

/-- The loop of `find_unused`: the cursor passes the consumed positions. -/
def skip_used (used : List Bool) : List Nat → Nat → Nat
  | [], cursor => cursor
  | position :: rest, cursor => if used.getD position false then skip_used used rest (cursor + 1) else cursor

def advance (used : List Bool) (bucket : Bucket) : Bucket :=
  { bucket with cursor := skip_used used (bucket.positions.drop bucket.cursor) bucket.cursor }

def find_in (used : List Bool) (probe : SignedChunk) :
    List (SignedChunk × Bucket) → Option Nat × List (SignedChunk × Bucket)
  | [] => (none, [])
  | (key, bucket) :: rest =>
    if key.same probe then
      let bucket := advance used bucket
      (bucket.positions[bucket.cursor]?, (key, bucket) :: rest)
    else
      let (found, rest) := find_in used probe rest
      (found, (key, bucket) :: rest)

/-- A chunk equal to the probe that is not consumed. -/
def find_unused (used : List Bool) (probe : SignedChunk) (index : ChunkIndex) : Option Nat × ChunkIndex :=
  let (found, buckets) := find_in used probe index.buckets_
  (found, { buckets_ := buckets })

end ChunkIndex

end Roll
