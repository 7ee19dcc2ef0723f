import Roll.DeltaCodec

/-!
`createDiff`: the opcodes that turn one chunk into another, from a shortest
edit script where Myers' search finds one, and from a greedy comparison
otherwise.

The indices of the search are those of the source, so that they may leave
their buffer; an access out of range has no value, and then the whole search
has none.
-/
namespace Roll

/-- An entry of an edit script: `-1` deletes a byte of the old data, `0` keeps
    one and `+1` inserts one of the new data. -/
inductive Edit
  | delete
  | keep
  | insert
deriving DecidableEq, Repr

/-- The buffers `myers_v_` and `myers_trace_`. -/
structure Scratch where
  myers_v_ : List Int := []
  myers_trace_ : List Int := []
deriving DecidableEq, Repr

namespace Diff

/-- An element of a buffer. -/
def at_ {α : Type} (xs : List α) (i : Int) : Option α := if i < 0 then none else xs[i.toNat]?

/-- An element of a buffer is assigned. -/
def put (xs : List Int) (i : Int) (x : Int) : Option (List Int) :=
  if i < 0 ∨ xs.length ≤ i.toNat then none else some (xs.set i.toNat x)

/-- The largest edit distance that is searched for. -/
def D_LIMIT : Nat := 2048

/-- The snake from `(x, y)`: how far equal bytes go; the first coordinate of
    its end. -/
def snake (a b : List UInt8) : Nat → Int → Int → Option Int
  | 0, x, _ => some x
  | fuel + 1, x, y =>
    if x < a.length ∧ y < b.length then do
      let p ← at_ a x
      let q ← at_ b y
      if p = q then snake a b fuel (x + 1) (y + 1) else some x
    else some x

/-- Whether diagonal `k` of distance `d` is entered from above, with the value
    of the diagonal it is entered from; `values` holds the furthest points of
    distance `d - 1`, diagonal `k` at `base + k`. -/
def entered (values : List Int) (base : Int) (d k : Int) : Option (Bool × Int) := do
  if k = -d then
    let above ← at_ values (base + k + 1)
    some (true, above)
  else if k = d then
    let left ← at_ values (base + k - 1)
    some (false, left)
  else
    let left ← at_ values (base + k - 1)
    let above ← at_ values (base + k + 1)
    if left < above then some (true, above) else some (false, left)

/-- The diagonals of distance `d` from `k` on; whether the end of both inputs
    was reached. -/
def diagonals (a b : List UInt8) (offset d : Int) : Nat → Int → List Int → Option (Bool × List Int)
  | 0, _, v => some (false, v)
  | fuel + 1, k, v =>
    if k ≤ d then do
      let (from_above, value) ← entered v offset d k
      let start := if from_above then value else value + 1
      let x ← snake a b a.length start (start - k)
      let v ← put v (offset + k) x
      if x ≥ a.length ∧ x - k ≥ b.length then some (true, v) else diagonals a b offset d fuel (k + 2) v
    else some (false, v)

/-- The most that a path of distance `d` has consumed of both inputs. -/
def best_xy (v : List Int) (offset d : Int) : Nat → Int → Int → Option Int
  | 0, _, best => some best
  | fuel + 1, k, best =>
    if k ≤ d then do
      let x ← at_ v (offset + k)
      best_xy v offset d fuel (k + 1) (max best (2 * x - k))
    else some best

/-- The early abandon on dissimilar content. -/
def abandons (v : List Int) (offset d : Int) : Option Bool :=
  if d = 256 ∨ d = 512 ∨ d = 1024 then do
    let best ← best_xy v offset d (2 * d.toNat + 1) (-d) 0
    some (Int.tdiv (best - d) 2 < Int.tdiv d 2)
  else some false

/-- The distances from `d` on: the distance found, if any, and the buffers. -/
def search (a b : List UInt8) (d_max : Nat) : Nat → Nat → List Int → List Int → Option (Option Nat × List Int × List Int)
  | 0, _, v, trace => some (none, v, trace)
  | fuel + 1, d, v, trace =>
    if d ≤ d_max then do
      let (reached, v) ← diagonals a b d_max d (d + 1) (-d) v
      let trace := trace ++ (v.drop (d_max - d)).take (2 * d + 1)
      let abandoned ← abandons v d_max d
      if abandoned then some (none, v, trace)
      else if reached then some (some d, v, trace)
      else search a b d_max fuel (d + 1) v trace
    else some (none, v, trace)

/-- The diagonal part of a step back, from `(x, y)` to `prev`. -/
def unwind : Nat → Int → Int → Int → Int → List Edit → Int × Int × List Edit
  | 0, x, y, _, _, ses => (x, y, ses)
  | fuel + 1, x, y, prev_x, prev_y, ses =>
    if x > prev_x ∧ y > prev_y then unwind fuel (x - 1) (y - 1) prev_x prev_y (ses ++ [.keep]) else (x, y, ses)

/-- The way back from `(x, y)` at distance `d`; the script in reverse. -/
def backtrack (n : Nat) (trace : List Int) : Nat → Int → Int → List Edit → Option (List Edit)
  | 0, x, y, ses =>
    let (_, _, ses) := unwind n x y 0 0 ses
    some ses
  | d + 1, x, y, ses => do
    let base : Int := d * d + d
    let k := x - y
    let (came_from_above, prev_x) ← entered trace base (d + 1) k
    let prev_k := if came_from_above then k + 1 else k - 1
    let prev_y := prev_x - prev_k
    let (x, y, ses) := unwind n x y prev_x prev_y ses
    if came_from_above then backtrack n trace d x (y - 1) (ses ++ [.insert])
    else backtrack n trace d (x - 1) y (ses ++ [.delete])

/-- Myers' shortest edit script, when its length is at most `d_limit` and the
    search is not abandoned. -/
def myersSES (a b : List UInt8) (d_limit : Nat) (scratch : Scratch) : Option (Option (List Edit) × Scratch) :=
  if a = [] ∧ b = [] then some (some [], scratch)
  else if a = [] then some (some (List.replicate b.length .insert), scratch)
  else if b = [] then some (some (List.replicate a.length .delete), scratch)
  else do
    let d_max := min (a.length + b.length) d_limit
    let (final_d, v, trace) ← search a b d_max (d_max + 1) 0 (List.replicate (2 * d_max + 1) 0) []
    let scratch : Scratch := { myers_v_ := v, myers_trace_ := trace }
    match final_d with
    | none => some (none, scratch)
    | some d => do
      let ses ← backtrack (a.length + b.length) trace d a.length b.length []
      some (some ses.reverse, scratch)

/-- `myersSES` as a method: whether it succeeds, and what it leaves in `out_ses`. -/
def myersSES_out (a b : List UInt8) (d_limit : Nat) (out_ses : List Edit) (scratch : Scratch) :
    Option (Bool × List Edit × Scratch) := do
  let (found, scratch) ← myersSES a b d_limit scratch
  match found with
  | some ses => some (true, ses, scratch)
  | none => some (false, out_ses, scratch)

/-! ### Opcodes -/

/-- A `D` or `I` opcode stream for `bytes`, split at the count cap. -/
def emitInlineBytes (op : UInt8) : Nat → List UInt8 → Nat → List UInt8 → List UInt8
  | 0, diff, _, _ => diff
  | fuel + 1, diff, pos, bytes =>
    if bytes = [] then diff
    else
      let count := min 255 bytes.length
      emitInlineBytes op fuel
        (push_u32_be (diff ++ [op]) (UInt32.ofNat pos) ++ [UInt8.ofNat count] ++ bytes.take count)
        (pos + count) (bytes.drop count)

/-- One change block at position `pos` of the new data. -/
def emitBlock (diff : List UInt8) (pos deletes : Nat) (inserts : List UInt8) : List UInt8 :=
  if deletes > 0 ∧ deletes = inserts.length then emitInlineBytes OP_REPLACE inserts.length diff pos inserts
  else
    let diff :=
      if deletes > 0 then push_u32_be (push_u32_be (diff ++ [OP_DELETE]) (UInt32.ofNat pos)) (UInt32.ofNat deletes)
      else diff
    if inserts ≠ [] then emitInlineBytes OP_INSERT inserts.length diff pos inserts else diff

/-- A block of entries that are not `keep`: its deletions, its insertions and
    the entries after it. -/
def takeBlock (new_data : List UInt8) : List Edit → Nat → Nat → List UInt8 → Nat × Nat × List UInt8 × List Edit
  | .delete :: ses, y, deletes, inserts => takeBlock new_data ses y (deletes + 1) inserts
  | .insert :: ses, y, deletes, inserts => takeBlock new_data ses (y + 1) deletes (inserts ++ [new_data.getD y 0])
  | ses, y, deletes, inserts => (y, deletes, inserts, ses)

/-- The walk over the script. -/
def emitScript (new_data : List UInt8) : Nat → List UInt8 → Nat → List Edit → List UInt8
  | 0, diff, _, _ => diff
  | _ + 1, diff, _, [] => diff
  | fuel + 1, diff, y, .keep :: ses => emitScript new_data fuel diff (y + 1) ses
  | fuel + 1, diff, y, ses =>
    let (y', deletes, inserts, rest) := takeBlock new_data ses y 0 []
    emitScript new_data fuel (emitBlock diff y deletes inserts) y' rest

def emitOpcodesFromSES (new_data : List UInt8) (ses : List Edit) : List UInt8 :=
  emitScript new_data ses.length [] 0 ses

/-- A run of equal bytes at the head of both; the number of bytes. -/
def matching : List UInt8 → List UInt8 → Nat
  | a :: as, b :: bs => if a = b then matching as bs + 1 else 0
  | _, _ => 0

/-- A run of different bytes at the head of both, at most `cap`. -/
def differing : Nat → List UInt8 → List UInt8 → Nat
  | cap + 1, a :: as, b :: bs => if a ≠ b then differing cap as bs + 1 else 0
  | _, _, _ => 0

/-- The main loop of the greedy diff, at `i` in the old and `j` in the new data. -/
def greedyLoop (old_data new_data : List UInt8) : Nat → List UInt8 → Nat → Nat → List UInt8 × Nat × Nat
  | 0, diff, i, j => (diff, i, j)
  | fuel + 1, diff, i, j =>
    if i < old_data.length ∧ j < new_data.length then
      let same := matching (old_data.drop i) (new_data.drop j)
      let i := i + same
      let j := j + same
      let count := differing 255 (old_data.drop i) (new_data.drop j)
      let diff_bytes := (new_data.drop j).take count
      let diff :=
        if diff_bytes ≠ [] then
          push_u32_be (diff ++ [OP_REPLACE]) (UInt32.ofNat i) ++ [UInt8.ofNat diff_bytes.length] ++ diff_bytes
        else diff
      greedyLoop old_data new_data fuel diff (i + count) (j + count)
    else (diff, i, j)

/-- The insertions at the end of the greedy diff. -/
def greedyTail (new_data : List UInt8) : Nat → List UInt8 → Nat → List UInt8
  | 0, diff, _ => diff
  | fuel + 1, diff, j =>
    if j < new_data.length then
      let count := min 255 (new_data.length - j)
      greedyTail new_data fuel
        (push_u32_be (diff ++ [OP_INSERT]) (UInt32.ofNat j) ++ [UInt8.ofNat count] ++ (new_data.drop j).take count)
        (j + count)
    else diff

def createGreedyDiff (old_data new_data : List UInt8) : List UInt8 :=
  let (diff, i, j) := greedyLoop old_data new_data (old_data.length + 1) [] 0 0
  let diff :=
    if i < old_data.length then
      push_u32_be (push_u32_be (diff ++ [OP_DELETE]) (UInt32.ofNat i)) (UInt32.ofNat (old_data.length - i))
    else diff
  greedyTail new_data (new_data.length + 1) diff j

def createDiff (old_data new_data : List UInt8) (scratch : Scratch) : Option (List UInt8 × Scratch) := do
  let (ses, scratch) ← myersSES old_data new_data D_LIMIT scratch
  match ses with
  | some ses => some (emitOpcodesFromSES new_data ses, scratch)
  | none => some (createGreedyDiff old_data new_data, scratch)

end Diff

end Roll
