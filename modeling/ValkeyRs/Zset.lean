/-
The sorted-set commands that write, `crates/commands/src/zset.rs`.

A command reads its sorted set out of the store, changes the copy and puts it back, so each
of them is a program with a read at the front and a `Store::set` at the end; everything in
between is a pure function of the copy. The `while idx < args.len()` loops over options are
recursions over the arguments that are left. Where the source moves its index by more than
one, the recursion carries the number of arguments still to be skipped.

Indexing behind the end of the arguments, which several option parsers do, is a panic.
-/
import ValkeyRs.Storage

set_option autoImplicit false

open ValkeyRs Text Storage Resp.FloatText

namespace ValkeyRs.Zset

/-- What the sorted-set commands use of `f64`. -/
class Score (F : Type) extends LinearOrder F, Resp.FloatText F where
  zero : F
  one : F
  add : F → F → F
  mul : F → F → F
  display : F → String

instance transOrd_of_score {F : Type} [Score F] : Std.TransOrd F := inferInstance

/-- The two infinities, to run commands on concrete input. -/
instance : Score Resp.Infinity where
  toLinearOrder := LinearOrder.lift' (fun d : Resp.Infinity => d == .pos) (by
    intro a b h
    cases a <;> cases b <;> first | rfl | cases h)
  zero := .pos
  one := .pos
  add a _ := a
  mul a _ := a
  display d := if d = .pos then "inf" else "-inf"

variable {F : Type} [Score F]

abbrev Reply (F : Type) := Resp.RespValue F

def err {α : Type} (e : String) : Except Halt α := .error (.Err e)

theorem lift_err_bind {F α β : Type} [LinearOrder F] (e : String) (f : α → StoreM F β) :
    (liftM (err e : Except Halt α) : StoreM F α) >>= f = .fail (.Err e) := rfl

/-! ## Arguments -/

/-- `usize::MAX`. -/
def usize_max : ℕ := 2 ^ 64 - 1

def str_from_bytes (b : Bytes) : Except Halt String :=
  match from_utf8 b with
  | .ok s => .ok s
  | .error _ => err "ERR value is not a valid string"

def parse_score (b : Bytes) : Except Halt F :=
  match from_utf8 b with
  | .error _ => err "ERR value is not a valid float"
  | .ok s =>
    if s = "inf" ∨ s = "+inf" then .ok infinity
    else if s = "-inf" then .ok neg_infinity
    else match parse s with
      | .ok d => .ok d
      | .error _ => err "ERR value is not a valid float"

def not_an_integer : String := "ERR value is not an integer or out of range"

/-- `str_from_bytes(b)?.parse::<isize>()`. -/
def parse_isize (b : Bytes) : Except Halt ℤ := do
  match parse_int (some 64) (← str_from_bytes b) with
  | .ok n => return n
  | .error _ => err not_an_integer

/-- `str_from_bytes(b)?.parse::<usize>()`. -/
def parse_usize (b : Bytes) : Except Halt ℕ := do
  match parse_nat (some 64) (← str_from_bytes b) with
  | .ok n => return n
  | .error _ => err not_an_integer

/-- `&args[i]`. -/
def arg (args : List Bytes) (i : ℕ) : Except Halt Bytes :=
  match args[i]? with
  | some a => .ok a
  | none => .error .Panic

/-- A `usize` sum, in a build that checks for overflow. -/
def checked (n : ℕ) : Except Halt ℕ :=
  if n > usize_max then .error .Panic else .ok n

def wrong_number (cmd : String) : String :=
  "ERR wrong number of arguments for '" ++ cmd ++ "' command"

inductive ScoreBound (F : Type) where
  | Inclusive (v : F)
  | Exclusive (v : F)
  | NegInfinity
  | PosInfinity

namespace ScoreBound

def from_str (s : String) : Option (ScoreBound F) :=
  if s = "-inf" then some .NegInfinity
  else if s = "+inf" then some .PosInfinity
  else match s.toList with
    | '(' :: rest => (parse (String.ofList rest)).toOption.map .Exclusive
    | _ => (parse s).toOption.map .Inclusive

def contains_upper : ScoreBound F → F → Bool
  | .Inclusive v, score => decide (score ≤ v)
  | .Exclusive v, score => decide (score < v)
  | .NegInfinity, _ => false
  | .PosInfinity, _ => true

def contains_lower : ScoreBound F → F → Bool
  | .Inclusive v, score => decide (v ≤ score)
  | .Exclusive v, score => decide (v < score)
  | .NegInfinity, _ => true
  | .PosInfinity, _ => false

def value : ScoreBound F → F
  | .Inclusive v | .Exclusive v => v
  | .NegInfinity => neg_infinity
  | .PosInfinity => infinity

end ScoreBound

inductive LexBound where
  | Inclusive (v : Bytes)
  | Exclusive (v : Bytes)
  | NegInfinity
  | PosInfinity
  deriving Repr, DecidableEq

namespace LexBound

def from_str (s : String) : Option LexBound :=
  match s.toList with
  | ['-'] => some .NegInfinity
  | ['+'] => some .PosInfinity
  | '(' :: rest => some (.Exclusive (as_bytes (String.ofList rest)))
  | '[' :: rest => some (.Inclusive (as_bytes (String.ofList rest)))
  | _ => none

def contains : LexBound → Bytes → Bool
  | .Inclusive v, member => (compare v member).isLE
  | .Exclusive v, member => (compare v member).isLT
  | .NegInfinity, _ => true
  | .PosInfinity, _ => false

def contains_upper : LexBound → Bytes → Bool
  | .Inclusive v, member => (compare member v).isLE
  | .Exclusive v, member => (compare member v).isLT
  | .NegInfinity, _ => false
  | .PosInfinity, _ => true

end LexBound

def score_bound (s : String) : Except Halt (ScoreBound F) :=
  match ScoreBound.from_str s with
  | some b => .ok b
  | none => err "ERR min or max is not a float"

def lex_bound (s : String) : Except Halt LexBound :=
  match LexBound.from_str s with
  | some b => .ok b
  | none => err "ERR min or max not valid string range item"

/-! ## Selecting entries -/

def zset_entries (zset : ZSetData F) : List (Bytes × F) :=
  zset.scores.toList.flatMap fun (score, members) => members.toList.map (·, score)

def norm_idx (idx len : ℤ) : ℕ :=
  if idx < 0 then (max (len + idx) 0).toNat else idx.toNat

/-- The index arithmetic of `zset_range` and `zset_rev_range`, over the entries in the order
they are taken from. -/
def entries_range (all : List (Bytes × F)) (start stop : ℤ) : List (Bytes × F) :=
  let len := all.length
  if len = 0 then []
  else
    let s := norm_idx start len
    let e := norm_idx stop len
    if s > e ∨ s ≥ len then []
    else
      let e := max (min e (len - 1)) s
      (all.drop s).take (e + 1 - s)

def zset_range (zset : ZSetData F) (start stop : ℤ) : List (Bytes × F) :=
  entries_range (zset_entries zset) start stop

def zset_rev_range (zset : ZSetData F) (start stop : ℤ) : List (Bytes × F) :=
  entries_range (zset_entries zset).reverse start stop

/-- The bucket loop of `zset_range_by_score`, with its `continue`s and its `break`. -/
def buckets_by_score (min max : ScoreBound F) : List (F × BTreeSet Bytes) → List (Bytes × F)
  | [] => []
  | (s, members) :: rest =>
    if !min.contains_lower s then buckets_by_score min max rest
    else if s > max.value then []
    else if !max.contains_upper s then buckets_by_score min max rest
    else members.toList.map (·, s) ++ buckets_by_score min max rest

def zset_range_by_score (zset : ZSetData F) (min max : ScoreBound F) : List (Bytes × F) :=
  buckets_by_score min max zset.scores.toList

/-- `v[offset..end]` as the LIMIT clauses compute it. When `offset + count` does not fit, a
checked build panics at the sum and an unchecked one at the slice. -/
def limit {α : Type} (v : List α) (offset count : ℕ) : Except Halt (List α) :=
  if offset ≥ v.length then .ok []
  else if count = usize_max then .ok (v.drop offset)
  else if offset + count > usize_max then .error .Panic
  else .ok ((v.drop offset).take (min (offset + count) v.length - offset))

def zset_range_by_lex (zset : ZSetData F) (min max : LexBound) (offset count : ℕ) :
    Except Halt (List Bytes) :=
  -- the keys of an ordered map come sorted, as `all.sort()` leaves them
  limit (zset.members.keys.filter fun m => min.contains m && max.contains_upper m) offset count

def apply_lim (entries : List (Bytes × F)) (offset count : ℕ) : Except Halt (List (Bytes × F)) :=
  limit entries offset count

/-! ## Reading and writing a sorted set -/

def get_zset (key : String) : StoreM F (Option (ZSetData F)) := do
  match ← Store.get (as_bytes key) with
  | some entry =>
    match entry.data with
    | .ZSet zs => return some zs
    | _ => return none
  | none => return none

def set_zset (key : String) (zset : ZSetData F) : StoreM F Unit :=
  Store.set (as_bytes key) (.ZSet zset) none

def rebuild_scores (zset : ZSetData F) : ZSetData F :=
  { zset with scores := zset.members.toList.foldl (fun ns (m, s) => ZSetData.link ns m s) ∅ }

/-- `for m in .. { zset.members.remove(m); }`. -/
def remove_members (zset : ZSetData F) (ms : List Bytes) : ZSetData F :=
  { zset with members := ms.foldl (fun members m => members.erase m) zset.members }

def bulk (b : Bytes) : Reply F := .BulkString (some b)

def int (n : ℕ) : Reply F := .Integer (Int64.ofNat n)

def with_scores (entries : List (Bytes × F)) : List (Reply F) :=
  entries.flatMap fun (m, s) => [bulk m, bulk (as_bytes (Score.display s))]

/-! ## ZADD and ZINCRBY -/

structure ZaddFlags where
  nx : Bool
  xx : Bool
  gt : Bool
  lt : Bool
  incr : Bool
  deriving Repr, DecidableEq

/-- The option loop of `zadd`: the flags, and the arguments from the first one that is not an
option on. -/
def zadd_flags : List Bytes → ZaddFlags → Except Halt (ZaddFlags × List Bytes)
  | [], flags => .ok (flags, [])
  | a :: rest, flags => do
    let s ← str_from_bytes a
    match to_ascii_uppercase s with
    | "NX" => zadd_flags rest { flags with nx := true }
    | "XX" => zadd_flags rest { flags with xx := true }
    | "GT" => zadd_flags rest { flags with gt := true }
    | "LT" => zadd_flags rest { flags with lt := true }
    | "CH" => zadd_flags rest flags
    | "INCR" => zadd_flags rest { flags with incr := true }
    | _ => .ok (flags, a :: rest)

/-- Whether a pair takes effect, given the member's present score. -/
def zadd_should (flags : ZaddFlags) (score : F) (old : Option F) : Bool :=
  if flags.nx && old.isSome then false
  else if flags.xx && old.isNone then false
  else if flags.gt && old.any (score ≤ ·) then false
  else if flags.lt && old.any (· ≤ score) then false
  else true

/-- The pair loop of `zadd`. -/
def zadd_pairs (flags : ZaddFlags) : List Bytes → ZSetData F → ℕ → Except Halt (ZSetData F × ℕ)
  | s :: member :: rest, zset, changed => do
    let score ← parse_score s
    let old := zset.members[member]?
    if zadd_should flags score old then
      zadd_pairs flags rest (zset.add member score)
        (if old = some score then changed else changed + 1)
    else zadd_pairs flags rest zset changed
  | _, zset, changed => .ok (zset, changed)

/-- The read, add and write back that ZINCRBY and ZADD INCR share. -/
def increment (key : String) (member : Bytes) (increment : F) : StoreM F (Reply F) := do
  let zset := (← get_zset key).getD .new
  let current := zset.members[member]?.getD Score.zero
  let new_score := Score.add current increment
  set_zset key (zset.add member new_score)
  return bulk (as_bytes (Score.display new_score))

def zadd (args : List Bytes) : StoreM F (Reply F) := do
  if args.length < 3 then .fail (.Err (wrong_number "zadd")) else do
  let key ← str_from_bytes (← arg args 0)
  let (flags, rest) ← zadd_flags (args.drop 1) ⟨false, false, false, false, false⟩
  if flags.nx && flags.xx then
    .fail (.Err "ERR XX and NX options at the same time are not compatible") else do
  if flags.gt && flags.lt then
    .fail (.Err "ERR GT and LT options at the same time are not compatible") else do
  let remaining := rest.length
  if remaining < 2 ∨ remaining % 2 ≠ 0 then .fail (.Err "ERR syntax error") else do
  if flags.incr then
    if remaining ≠ 2 then .fail (.Err "ERR INCR option supports a single score-member pair") else do
    let score ← parse_score (← arg rest 0)
    increment key (← arg rest 1) score
  else do
  let zset := (← get_zset key).getD .new
  let (zset, changed) ← zadd_pairs flags rest zset 0
  set_zset key zset
  return int changed

def zincrby (args : List Bytes) : StoreM F (Reply F) := do
  if args.length ≠ 3 then .fail (.Err (wrong_number "zincrby")) else do
  let key ← str_from_bytes (← arg args 0)
  let by_ ← parse_score (← arg args 1)
  increment key (← arg args 2) by_

/-! ## Removals -/

/-- `zset.members.remove(m).is_some()` over the arguments, with the count. -/
def zrem_members : List Bytes → ZSetData F → ℕ → ZSetData F × ℕ
  | [], zset, count => (zset, count)
  | m :: ms, zset, count =>
    zrem_members ms { zset with members := zset.members.erase m }
      (if zset.members.contains m then count + 1 else count)

def zrem (args : List Bytes) : StoreM F (Reply F) := do
  if args.length < 2 then .fail (.Err (wrong_number "zrem")) else do
  let key ← str_from_bytes (← arg args 0)
  match ← get_zset key with
  | some zset => do
    let (zset, count) := zrem_members (args.drop 1) zset 0
    set_zset key (rebuild_scores zset)
    return int count
  | none => return int 0

/-- The body the three ZREMRANGE commands share: `select` says which members go. -/
def zremrange (key : String) (select : ZSetData F → Except Halt (List Bytes)) :
    StoreM F (Reply F) := do
  match ← get_zset key with
  | some zset => do
    let ms ← select zset
    set_zset key (rebuild_scores (remove_members zset ms))
    return int ms.length
  | none => return int 0

def zremrangebyrank (args : List Bytes) : StoreM F (Reply F) := do
  if args.length ≠ 3 then .fail (.Err (wrong_number "zremrangebyrank")) else do
  let key ← str_from_bytes (← arg args 0)
  let start ← parse_isize (← arg args 1)
  let stop ← parse_isize (← arg args 2)
  zremrange key fun zset => .ok ((zset_range zset start stop).map Prod.fst)

def zremrangebyscore (args : List Bytes) : StoreM F (Reply F) := do
  if args.length ≠ 3 then .fail (.Err (wrong_number "zremrangebyscore")) else do
  let key ← str_from_bytes (← arg args 0)
  let min ← score_bound (← str_from_bytes (← arg args 1))
  let max ← score_bound (← str_from_bytes (← arg args 2))
  zremrange key fun zset => .ok ((zset_range_by_score zset min max).map Prod.fst)

def zremrangebylex (args : List Bytes) : StoreM F (Reply F) := do
  if args.length ≠ 3 then .fail (.Err (wrong_number "zremrangebylex")) else do
  let key ← str_from_bytes (← arg args 0)
  let min ← lex_bound (← str_from_bytes (← arg args 1))
  let max ← lex_bound (← str_from_bytes (← arg args 2))
  zremrange key fun zset => zset_range_by_lex zset min max 0 usize_max

/-- The entries a pop takes: from the front of the order, or of the reversed order. -/
def pop_entries (zset : ZSetData F) (from_max : Bool) (count : ℕ) : List (Bytes × F) :=
  let e := if from_max then (zset_entries zset).reverse else zset_entries zset
  e.take (min count e.length)

def pop_count (args : List Bytes) : Except Halt ℕ :=
  if args.length = 2 then arg args 1 >>= parse_usize else .ok 1

def zpop (cmd : String) (from_max : Bool) (args : List Bytes) : StoreM F (Reply F) := do
  if args.length < 1 ∨ args.length > 2 then .fail (.Err (wrong_number cmd)) else do
  let key ← str_from_bytes (← arg args 0)
  let count ← pop_count args
  match ← get_zset key with
  | some zset => do
    let popped := pop_entries zset from_max count
    set_zset key (rebuild_scores (remove_members zset (popped.map Prod.fst)))
    return .Array (some (with_scores popped))
  | none => return .Array (some [])

def zpopmin (args : List Bytes) : StoreM F (Reply F) := zpop "zpopmin" false args

def zpopmax (args : List Bytes) : StoreM F (Reply F) := zpop "zpopmax" true args

/-- `for i in 0..numkeys` of `zmpop`: the first key with a sorted set that is not empty. -/
def zmpop_keys (is_min : Bool) (count : ℕ) : List Bytes → StoreM F (Reply F)
  | [] => return .BulkString none
  | k :: ks => do
    let key ← str_from_bytes k
    match ← get_zset key with
    | some zset =>
      if zset.is_empty then zmpop_keys is_min count ks
      else do
        let popped := pop_entries zset (!is_min) count
        set_zset key (rebuild_scores (remove_members zset (popped.map Prod.fst)))
        return .Array (some [bulk (as_bytes key), .Array (some (with_scores popped))])
    | none => zmpop_keys is_min count ks

/-- The clause after the keys: nothing, or COUNT and a number. -/
def zmpop_count : List Bytes → Except Halt ℕ
  | [] => .ok 1
  | a :: rest => do
    let s ← str_from_bytes a
    if to_ascii_uppercase s = "COUNT" then do
      let count ← parse_usize (← arg rest 0)
      if rest.length ≠ 1 then err "ERR syntax error" else .ok count
    else err "ERR syntax error"

def zmpop_side (b : Bytes) : Except Halt Bool := do
  let side ← str_from_bytes b
  match to_ascii_uppercase side with
  | "MIN" => .ok true
  | "MAX" => .ok false
  | _ => err "ERR syntax error"

def zmpop (args : List Bytes) : StoreM F (Reply F) := do
  if args.length < 3 then .fail (.Err (wrong_number "zmpop")) else do
  let numkeys ← parse_usize (← arg args 0)
  if args.length < (← checked (2 + numkeys)) then .fail (.Err "ERR syntax error") else do
  let is_min ← zmpop_side (← arg args (1 + numkeys))
  let count ← zmpop_count (args.drop (2 + numkeys))
  zmpop_keys is_min count ((args.drop 1).take numkeys)

/-! ## Commands that store a new sorted set -/

inductive Aggregate where
  | Sum
  | Min
  | Max
  deriving Repr, DecidableEq

/-- One score out of several. -/
def Aggregate.apply (agg : Aggregate) (scores : List F) : F :=
  match agg with
  | .Sum => scores.foldl Score.add Score.zero
  | .Min => scores.foldl min infinity
  | .Max => scores.foldl max neg_infinity

/-- `weights[i] = parse_score(&args[idx + 1 + i])?` for the given number of keys. -/
def parse_weights : ℕ → List Bytes → Except Halt (List F)
  | 0, _ => .ok []
  | _ + 1, [] => .error .Panic
  | n + 1, a :: rest => do
    let w ← parse_score a
    let ws ← parse_weights n rest
    return w :: ws

def parse_aggregate (b : Bytes) : Except Halt Aggregate := do
  let s ← str_from_bytes b
  match to_ascii_uppercase s with
  | "SUM" => .ok .Sum
  | "MIN" => .ok .Min
  | "MAX" => .ok .Max
  | _ => err "ERR syntax error"

/-- The option loop of `zunionstore` and `zinterstore`, from the first argument behind the
keys on. -/
def store_options (numkeys : ℕ) :
    ℕ → List Bytes → List F → Aggregate → Except Halt (List F × Aggregate)
  | _, [], weights, agg => .ok (weights, agg)
  | skip + 1, _ :: rest, weights, agg => store_options numkeys skip rest weights agg
  | 0, a :: rest, weights, agg => do
    let s ← str_from_bytes a
    match to_ascii_uppercase s with
    | "WEIGHTS" => do
      let weights ← parse_weights numkeys rest
      store_options numkeys numkeys rest weights agg
    | "AGGREGATE" => do
      let agg ← parse_aggregate (← arg rest 0)
      store_options numkeys 1 rest weights agg
    | _ => err "ERR syntax error"

/-- The arguments of a command that combines sorted sets: its destination, the source keys
and what comes after them. -/
def store_args (cmd : String) (args : List Bytes) : Except Halt (String × List Bytes × List Bytes) := do
  if args.length < 3 then err (wrong_number cmd) else do
  let dest ← str_from_bytes (← arg args 0)
  let numkeys ← parse_usize (← arg args 1)
  if args.length < (← checked (2 + numkeys)) then err "ERR syntax error" else
  return (dest, (args.drop 2).take numkeys, args.drop (2 + numkeys))

def store_result (dest : String) (rz : ZSetData F) : StoreM F (Reply F) := do
  set_zset dest rz
  return int rz.len

/-- `all.entry(m).or_default().push(s * weight)` over one source. -/
def push_weighted (weight : F) (zset : ZSetData F) (all : HashMap Bytes (List F)) :
    HashMap Bytes (List F) :=
  zset.members.toList.foldl
    (fun all (m, s) => all.alter m fun scores => some (scores.getD [] ++ [Score.mul s weight])) all

/-- `for i in 0..numkeys` of `zunionstore`. -/
def zunion_sources : List (Bytes × F) → HashMap Bytes (List F) → StoreM F (HashMap Bytes (List F))
  | [], all => return all
  | (k, weight) :: rest, all => do
    match ← get_zset (← str_from_bytes k) with
    | some zset => zunion_sources rest (push_weighted weight zset all)
    | none => zunion_sources rest all

def zunionstore (args : List Bytes) : StoreM F (Reply F) := do
  let (dest, keys, opts) ← store_args "zunionstore" args
  let (weights, agg) ←
    store_options keys.length 0 opts (List.replicate keys.length Score.one) .Sum
  let all ← zunion_sources (keys.zip weights) ∅
  store_result dest (all.toList.foldl (fun rz (m, scores) => rz.add m (agg.apply scores)) .new)

/-- `(0..numkeys).filter_map(..)`: the sources that are there. A key that is no text counts
as absent. -/
def present_sources : List Bytes → StoreM F (List (ZSetData F))
  | [] => return []
  | k :: ks => do
    match from_utf8 k with
    | .error _ => present_sources ks
    | .ok key =>
      match ← get_zset key with
      | some zset => do
        let sets ← present_sources ks
        return zset :: sets
      | none => present_sources ks

/-- The member's scores in all the sets, weighted by position. -/
def weighted_scores (sets : List (ZSetData F)) (weights : List F) (m : Bytes) : List F :=
  (sets.zip weights).filterMap fun (st, w) => st.members[m]?.map (Score.mul · w)

def intersection (sets : List (ZSetData F)) (weights : List F) (agg : Aggregate) : ZSetData F :=
  match sets with
  | [] => .new
  | first :: _ =>
    first.members.toList.foldl
      (fun rz (m, _) =>
        if sets.all (·.members.contains m) then rz.add m (agg.apply (weighted_scores sets weights m))
        else rz) .new

def zinterstore (args : List Bytes) : StoreM F (Reply F) := do
  let (dest, keys, opts) ← store_args "zinterstore" args
  let (weights, agg) ←
    store_options keys.length 0 opts (List.replicate keys.length Score.one) .Sum
  let sets ← present_sources keys
  store_result dest (intersection sets weights agg)

def difference (sets : List (ZSetData F)) : ZSetData F :=
  match sets with
  | [] => .new
  | first :: others =>
    first.members.toList.foldl
      (fun rz (m, s) => if others.any (·.members.contains m) then rz else rz.add m s) .new

/-- `zdiffstore`. Unlike the other two it ignores whatever follows the keys. -/
def zdiffstore (args : List Bytes) : StoreM F (Reply F) := do
  let (dest, keys, _) ← store_args "zdiffstore" args
  let sets ← present_sources keys
  store_result dest (difference sets)

structure RangeOpts where
  by_score : Bool
  by_lex : Bool
  rev : Bool
  offset : ℕ
  count : ℕ
  deriving Repr, DecidableEq

/-- The option loop of `zrangestore`. -/
def range_options : ℕ → List Bytes → RangeOpts → Except Halt RangeOpts
  | _, [], opts => .ok opts
  | skip + 1, _ :: rest, opts => range_options skip rest opts
  | 0, a :: rest, opts => do
    let s ← str_from_bytes a
    match to_ascii_uppercase s with
    | "BYSCORE" => range_options 0 rest { opts with by_score := true }
    | "BYLEX" => range_options 0 rest { opts with by_lex := true }
    | "REV" => range_options 0 rest { opts with rev := true }
    | "LIMIT" => do
      let offset ← parse_usize (← arg rest 0)
      let count ← parse_usize (← arg rest 1)
      range_options 2 rest { opts with offset := offset, count := count }
    | _ => err "ERR syntax error"

/-- `ms.parse::<isize>()`. -/
def parse_rank (s : String) : Except Halt ℤ :=
  match parse_int (some 64) s with
  | .ok n => .ok n
  | .error _ => err not_an_integer

/-- What `zrangestore` copies. A range by member keeps no scores. -/
def zrangestore_select (zset : ZSetData F) (ms me : String) (opts : RangeOpts) :
    Except Halt (List (Bytes × F)) := do
  if opts.by_score then do
    let min ← score_bound ms
    let max ← score_bound me
    let ev := zset_range_by_score zset min max
    apply_lim (if opts.rev then ev.reverse else ev) opts.offset opts.count
  else if opts.by_lex then do
    let min ← lex_bound ms
    let max ← lex_bound me
    let members ← zset_range_by_lex zset min max opts.offset opts.count
    return members.map (·, Score.zero)
  else do
    let s ← parse_rank ms
    let e ← parse_rank me
    apply_lim (if opts.rev then zset_rev_range zset s e else zset_range zset s e)
      opts.offset opts.count

def zrangestore (args : List Bytes) : StoreM F (Reply F) := do
  if args.length < 4 then .fail (.Err (wrong_number "zrangestore")) else do
  let dest ← str_from_bytes (← arg args 0)
  let src ← str_from_bytes (← arg args 1)
  let ms ← str_from_bytes (← arg args 2)
  let me ← str_from_bytes (← arg args 3)
  let opts ← range_options 0 (args.drop 4) ⟨false, false, false, 0, usize_max⟩
  match ← get_zset src with
  | some zset => do
    let e ← zrangestore_select zset ms me opts
    store_result dest (e.foldl (fun nz (m, s) => nz.add m s) .new)
  | none => return int 0

/-! ## Dispatch -/

/-- The sorted-set commands that write. -/
inductive ZWrite where
  | ZADD
  | ZINCRBY
  | ZREM
  | ZREMRANGEBYRANK
  | ZREMRANGEBYSCORE
  | ZREMRANGEBYLEX
  | ZPOPMIN
  | ZPOPMAX
  | ZMPOP
  | ZUNIONSTORE
  | ZINTERSTORE
  | ZDIFFSTORE
  | ZRANGESTORE
  deriving Repr, DecidableEq

/-- The handler `dispatch_ctx` calls. -/
def ZWrite.handler : ZWrite → List Bytes → StoreM F (Reply F)
  | .ZADD => zadd
  | .ZINCRBY => zincrby
  | .ZREM => zrem
  | .ZREMRANGEBYRANK => zremrangebyrank
  | .ZREMRANGEBYSCORE => zremrangebyscore
  | .ZREMRANGEBYLEX => zremrangebylex
  | .ZPOPMIN => zpopmin
  | .ZPOPMAX => zpopmax
  | .ZMPOP => zmpop
  | .ZUNIONSTORE => zunionstore
  | .ZINTERSTORE => zinterstore
  | .ZDIFFSTORE => zdiffstore
  | .ZRANGESTORE => zrangestore

end ValkeyRs.Zset
