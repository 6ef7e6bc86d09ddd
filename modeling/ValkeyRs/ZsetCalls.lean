/-
What the commands on one sorted set have in common.

Behind its arguments such a command does one of two things. An addition takes the sorted set under
its key, or an empty one when there is none, changes it and stores it (`upsert`); a removal works
only on a sorted set that is there (`Removal.run`). The arguments come to a key and an `Addition` or
a `Removal`, and the handlers are equal to the two programs behind their requests. Anything but a
sorted set counts as none: the two accessors do not tell the cases apart.
-/
import ValkeyRs.Geo
import ValkeyRs.StoreWp

set_option autoImplicit false

open ValkeyRs Text Storage Geo Prog

namespace ValkeyRs.Storage

variable {F : Type} [LinearOrder F]

/-- `DataType::ZSet(zs) => Some(zs)`, and nothing for any other type. -/
def DataType.as_zset : DataType F → Option (ZSetData F)
  | .ZSet zs => some zs
  | _ => none

end ValkeyRs.Storage

namespace ValkeyRs.Zset

section Calls

variable {F : Type} [Score F]

/-! ## The two programs -/

def read_zset (key : Bytes) : StoreM F (Option (ZSetData F)) := do
  return (← Store.get key).bind fun entry => entry.data.as_zset

/-- Change the sorted set under a key, which is made if there is none. -/
def upsert (key : Bytes) (change : ZSetData F → Except Halt (ZSetData F × Reply F)) :
    StoreM F (Reply F) := do
  let zset := (← read_zset key).getD .new
  let (zset, reply) ← change zset
  Store.set key (.ZSet zset) none
  return reply

theorem get_zset_eq (key : String) : (get_zset key : StoreM F _) = read_zset (as_bytes key) := by
  refine congrArg (Store.get (as_bytes key) >>= ·) (funext fun entry => ?_)
  rcases entry with _ | ⟨_ | _ | _ | _ | _ | _ | _ | _⟩ <;> rfl

/-! ## Additions -/

/-- What ZADD and ZINCRBY ask for. -/
inductive Addition (F : Type) where
  | pairs (flags : ZaddFlags) (rest : List Bytes)
  | incr (member : Bytes) (by_ : F)

def Addition.change : Addition F → ZSetData F → Except Halt (ZSetData F × Reply F)
  | .pairs flags rest, zset => do
    let (zset, changed) ← zadd_pairs flags rest zset 0
    return (zset, int changed)
  | .incr member by_, zset =>
    let new_score := Score.add (zset.members[member]?.getD Score.zero) by_
    .ok (zset.add member new_score, bulk (as_bytes (Score.display new_score)))

def scores_readable (F : Type) [Score F] : List Bytes → Bool
  | s :: _ :: rest => (parse_score s : Except Halt F).isOk && scores_readable F rest
  | _ => true

/-- Whether the sorted set comes to be stored, which does not depend on what is in it. -/
def Addition.accepted : Addition F → Bool
  | .pairs _ rest => scores_readable F rest
  | .incr _ _ => true

theorem zadd_pairs_isOk (flags : ZaddFlags) (rest : List Bytes) (zset : ZSetData F) (changed : ℕ) :
    (zadd_pairs flags rest zset changed).isOk = scores_readable F rest := by
  fun_induction zadd_pairs flags rest zset changed with
  | case1 s member rest zset changed ih₁ ih₂ =>
    rw [scores_readable]
    cases hscore : (parse_score s : Except Halt F) with
    | error e => rfl
    | ok score =>
      show (if zadd_should flags score zset.members[member]? then _ else _ : Except Halt _).isOk = _
      by_cases hshould : zadd_should flags score zset.members[member]?
      · rw [if_pos hshould, ih₁]
        rfl
      · rw [if_neg hshould, ih₂]
        rfl
  | case2 rest zset changed hrest =>
    unfold scores_readable
    split
    · exact absurd rfl (hrest _ _ _)
    · rfl

theorem Addition.change_isOk (a : Addition F) (zset : ZSetData F) :
    (a.change zset).isOk = a.accepted := by
  cases a with
  | incr member by_ => rfl
  | pairs flags rest =>
    rw [Addition.accepted, ← zadd_pairs_isOk flags rest zset 0]
    show (zadd_pairs flags rest zset 0 >>= fun r => .ok (r.1, int r.2) : Except Halt _).isOk = _
    cases zadd_pairs flags rest zset 0 <;> rfl

def zadd_request (args : List Bytes) : Except Halt (String × Addition F) := do
  if args.length < 3 then err (wrong_number "zadd") else do
  let key ← str_from_bytes (← arg args 0)
  let (flags, rest) ← zadd_flags (args.drop 1) ⟨false, false, false, false, false⟩
  if flags.nx && flags.xx then
    err "ERR XX and NX options at the same time are not compatible" else do
  if flags.gt && flags.lt then
    err "ERR GT and LT options at the same time are not compatible" else do
  if rest.length < 2 ∨ rest.length % 2 ≠ 0 then err "ERR syntax error" else do
  if flags.incr then
    if rest.length ≠ 2 then err "ERR INCR option supports a single score-member pair" else do
    let score ← parse_score (← arg rest 0)
    return (key, .incr (← arg rest 1) score)
  else return (key, .pairs flags rest)

def zincrby_request (args : List Bytes) : Except Halt (String × Addition F) := do
  if args.length ≠ 3 then err (wrong_number "zincrby") else do
  let key ← str_from_bytes (← arg args 0)
  let by_ ← parse_score (← arg args 1)
  return (key, .incr (← arg args 2) by_)

def run_addition (request : Except Halt (String × Addition F)) : StoreM F (Reply F) := do
  let (key, addition) ← request
  upsert (as_bytes key) addition.change

def addition_key (request : Except Halt (String × Addition F)) : Option Bytes :=
  match request with
  | .ok (key, addition) => if addition.accepted then some (as_bytes key) else none
  | .error _ => none

theorem increment_eq (key : String) (member : Bytes) (by_ : F) :
    increment key member by_ = upsert (as_bytes key) (Addition.incr member by_).change := by
  unfold increment
  rw [get_zset_eq]
  rfl

theorem add_pairs_eq (key : String) (flags : ZaddFlags) (rest : List Bytes) :
    upsert (as_bytes key) (Addition.pairs flags rest).change = (do
      let zset := (← get_zset key).getD .new
      let (zset, changed) ← zadd_pairs flags rest zset 0
      set_zset key zset
      return int changed : StoreM F (Reply F)) := by
  rw [get_zset_eq]
  refine congrArg (read_zset (as_bytes key) >>= ·) (funext fun zset => ?_)
  dsimp only [Addition.change]
  cases zadd_pairs flags rest (zset.getD .new) 0 <;> rfl

variable (args : List Bytes)

theorem zadd_eq : (zadd args : StoreM F (Reply F)) = run_addition (zadd_request args) := by
  simp only [zadd, run_addition, zadd_request, lift_ite, ite_bind, lift_bind,
    bind_assoc, lift_pure_bind, lift_err_bind, increment_eq, add_pairs_eq]

theorem zincrby_eq : (zincrby args : StoreM F (Reply F)) = run_addition (zincrby_request args) := by
  simp only [zincrby, run_addition, zincrby_request, lift_ite, ite_bind, lift_bind,
    bind_assoc, lift_pure_bind, lift_err_bind, increment_eq]

/-! ## Removals -/

/-- What ZREM, the three ZREMRANGE commands and the two pops ask for. -/
inductive Removal (F : Type) where
  | members (ms : List Bytes)
  | ranks (start stop : ℤ)
  | scores (min max : ScoreBound F)
  | lex (min max : LexBound)
  | pop (from_max : Bool) (count : ℕ)

namespace Removal

def victims : Removal F → ZSetData F → List Bytes
  | .members ms, _ => ms
  | .ranks start stop, zset => (zset_range zset start stop).map Prod.fst
  | .scores min max, zset => (zset_range_by_score zset min max).map Prod.fst
  | .lex min max, zset => zset.members.keys.filter fun m => min.contains m && max.contains_upper m
  | .pop from_max count, zset => (pop_entries zset from_max count).map Prod.fst

def reply (r : Removal F) (zset : ZSetData F) : Reply F :=
  match r with
  | .members ms => int (zrem_members ms zset 0).2
  | .pop from_max count => .Array (some (with_scores (pop_entries zset from_max count)))
  | _ => int (r.victims zset).length

def absent : Removal F → Reply F
  | .pop _ _ => .Array (some [])
  | _ => int 0

def run (key : Bytes) (r : Removal F) : StoreM F (Reply F) := do
  match ← read_zset key with
  | some zset => do
    Store.set key (.ZSet (rebuild_scores (remove_members zset (r.victims zset)))) none
    return r.reply zset
  | none => return r.absent

end Removal

def zrem_request (args : List Bytes) : Except Halt (String × Removal F) := do
  if args.length < 2 then err (wrong_number "zrem") else do
  let key ← str_from_bytes (← arg args 0)
  return (key, .members (args.drop 1))

def zremrangebyrank_request (args : List Bytes) : Except Halt (String × Removal F) := do
  if args.length ≠ 3 then err (wrong_number "zremrangebyrank") else do
  let key ← str_from_bytes (← arg args 0)
  let start ← parse_isize (← arg args 1)
  let stop ← parse_isize (← arg args 2)
  return (key, .ranks start stop)

def zremrangebyscore_request (args : List Bytes) : Except Halt (String × Removal F) := do
  if args.length ≠ 3 then err (wrong_number "zremrangebyscore") else do
  let key ← str_from_bytes (← arg args 0)
  let min ← score_bound (← str_from_bytes (← arg args 1))
  let max ← score_bound (← str_from_bytes (← arg args 2))
  return (key, .scores min max)

def zremrangebylex_request (args : List Bytes) : Except Halt (String × Removal F) := do
  if args.length ≠ 3 then err (wrong_number "zremrangebylex") else do
  let key ← str_from_bytes (← arg args 0)
  let min ← lex_bound (← str_from_bytes (← arg args 1))
  let max ← lex_bound (← str_from_bytes (← arg args 2))
  return (key, .lex min max)

def zpop_request (cmd : String) (from_max : Bool) (args : List Bytes) :
    Except Halt (String × Removal F) := do
  if args.length < 1 ∨ args.length > 2 then err (wrong_number cmd) else do
  let key ← str_from_bytes (← arg args 0)
  let count ← pop_count args
  return (key, .pop from_max count)

def run_removal (request : Except Halt (String × Removal F)) : StoreM F (Reply F) := do
  let (key, removal) ← request
  removal.run (as_bytes key)

def removal_key (request : Except Halt (String × Removal F)) : Option Bytes :=
  match request with
  | .ok (key, _) => some (as_bytes key)
  | .error _ => none

theorem zrem_members_fst (ms : List Bytes) (zset : ZSetData F) (count : ℕ) :
    (zrem_members ms zset count).1 = remove_members zset ms := by
  induction ms generalizing zset count with
  | nil => rfl
  | cons m ms ih => exact ih _ _

theorem zrem_eq : (zrem args : StoreM F (Reply F)) = run_removal (zrem_request args) := by
  simp only [zrem, run_removal, zrem_request, lift_ite, ite_bind, lift_bind,
    bind_assoc, lift_pure_bind, lift_err_bind, Removal.run, get_zset_eq, zrem_members_fst]
  rfl

theorem zremrange_ranks (key : String) (start stop : ℤ) :
    (zremrange key fun zset => .ok ((zset_range zset start stop).map Prod.fst) :
      StoreM F (Reply F)) = (Removal.ranks start stop).run (as_bytes key) := by
  simp only [zremrange, get_zset_eq, Removal.run]
  rfl

theorem zremrange_scores (key : String) (min max : ScoreBound F) :
    (zremrange key fun zset => .ok ((zset_range_by_score zset min max).map Prod.fst) :
      StoreM F (Reply F)) = (Removal.scores min max).run (as_bytes key) := by
  simp only [zremrange, get_zset_eq, Removal.run]
  rfl

theorem zset_range_by_lex_unlimited (zset : ZSetData F) (min max : LexBound) :
    zset_range_by_lex zset min max 0 usize_max = .ok ((Removal.lex min max).victims zset) := by
  by_cases hlen : 0 ≥ ((Removal.lex min max).victims zset).length
  · have hnil : (Removal.lex min max).victims zset = [] :=
      List.length_eq_zero_iff.mp (Nat.le_zero.mp hlen)
    rw [hnil]
    exact if_pos hlen
  · exact (if_neg hlen).trans (if_pos rfl)

theorem zremrange_lex (key : String) (min max : LexBound) :
    (zremrange key fun zset => zset_range_by_lex zset min max 0 usize_max : StoreM F (Reply F)) =
      (Removal.lex min max).run (as_bytes key) := by
  simp only [zremrange, get_zset_eq, Removal.run, zset_range_by_lex_unlimited]
  rfl

theorem zremrangebyrank_eq :
    (zremrangebyrank args : StoreM F (Reply F)) = run_removal (zremrangebyrank_request args) := by
  simp only [zremrangebyrank, run_removal, zremrangebyrank_request, lift_ite, ite_bind,
    lift_bind, bind_assoc, lift_pure_bind, lift_err_bind, zremrange_ranks]

theorem zremrangebyscore_eq :
    (zremrangebyscore args : StoreM F (Reply F)) = run_removal (zremrangebyscore_request args) := by
  simp only [zremrangebyscore, run_removal, zremrangebyscore_request, lift_ite, ite_bind,
    lift_bind, bind_assoc, lift_pure_bind, lift_err_bind, zremrange_scores]

theorem zremrangebylex_eq :
    (zremrangebylex args : StoreM F (Reply F)) = run_removal (zremrangebylex_request args) := by
  simp only [zremrangebylex, run_removal, zremrangebylex_request, lift_ite, ite_bind,
    lift_bind, bind_assoc, lift_pure_bind, lift_err_bind, zremrange_lex]

theorem zpop_eq (cmd : String) (from_max : Bool) (args : List Bytes) :
    (zpop cmd from_max args : StoreM F (Reply F)) = run_removal (zpop_request cmd from_max args) := by
  simp only [zpop, run_removal, zpop_request, lift_ite, ite_bind, lift_bind,
    bind_assoc, lift_pure_bind, lift_err_bind, Removal.run, get_zset_eq]
  rfl

/-! ## At a fixed time -/

def zset_at (T : Instant) (m : HashMap Bytes (Entry F)) (key : Bytes) : Option (ZSetData F) :=
  (seen T m key).bind fun entry => entry.data.as_zset

section FixedTime

variable {T : Instant} {m : HashMap Bytes (Entry F)} {key : Bytes}
  {Q : Except Halt (Reply F) → HashMap Bytes (Entry F) → Prop}

theorem wp_read_zset_at {f : Option (ZSetData F) → StoreM F (Reply F)}
    (h : (f (zset_at T m key)).Wp (may (· = T)) Q (swept T m key)) :
    (read_zset key >>= f).Wp (may (· = T)) Q m := by
  unfold read_zset
  rw [bind_assoc]
  exact wp_get_at h

theorem wp_upsert_at {change : ZSetData F → Except Halt (ZSetData F × Reply F)}
    (hok : ∀ zset reply, change ((zset_at T m key).getD .new) = .ok (zset, reply) →
      Q (.ok reply) ((swept T m key).insert key ⟨.ZSet zset, none, T, 1, 1⟩))
    (herror : ∀ e, change ((zset_at T m key).getD .new) = .error e →
      Q (.error e) (swept T m key)) :
    (upsert key change).Wp (may (· = T)) Q m := by
  refine wp_read_zset_at ?_
  dsimp only
  cases hchange : change ((zset_at T m key).getD .new) with
  | error e => exact herror e hchange
  | ok r =>
    refine wp_set_none ?_
    rintro now rfl
    exact hok r.1 r.2 hchange

theorem wp_removal_at {r : Removal F}
    (hfound : ∀ zset, zset_at T m key = some zset → Q (.ok (r.reply zset))
      ((swept T m key).insert key
        ⟨.ZSet (rebuild_scores (remove_members zset (r.victims zset))), none, T, 1, 1⟩))
    (habsent : zset_at T m key = none → Q (.ok r.absent) (swept T m key)) :
    (r.run key).Wp (may (· = T)) Q m := by
  refine wp_read_zset_at ?_
  cases hzset : zset_at T m key with
  | none => exact habsent hzset
  | some zset =>
    refine wp_set_none ?_
    rintro now rfl
    exact hfound zset hzset

end FixedTime

end Calls

/-! ## Positions -/

section Positions

variable {F : Type} [GeoScore F]

theorem get_or_create_zset_bind (key : Bytes) (f : ZSetData F → StoreM F (Reply F)) :
    get_or_create_zset key >>= f = read_zset key >>= fun zset => f (zset.getD .new) := by
  unfold get_or_create_zset read_zset
  rw [bind_assoc, bind_assoc]
  refine congrArg (Store.get key >>= ·) (funext fun entry => ?_)
  rcases entry with _ | ⟨_ | _ | _ | _ | _ | _ | _ | _⟩ <;> rfl

/-- What GEOADD does to a sorted set. -/
def geoadd_change (flags : GeoFlags) (rest : List Bytes) (zset : ZSetData F) :
    Except Halt (ZSetData F × Reply F) := do
  let st ← geoadd_positions flags rest ⟨zset, 0, 0⟩
  return (st.zset, int (if flags.ch then st.changed else st.added))

def positions_readable (F : Type) [GeoScore F] : List Bytes → Bool
  | lon :: lat :: _ :: rest => (position lon lat : Except Halt F).isOk && positions_readable F rest
  | _ => true

theorem geoadd_positions_isOk (flags : GeoFlags) (rest : List Bytes) (st : GeoState F) :
    (geoadd_positions flags rest st).isOk = positions_readable F rest := by
  fun_induction geoadd_positions flags rest st with
  | case1 lon lat member rest st ih₁ ih₂ =>
    rw [positions_readable]
    cases (position lon lat : Except Halt F) with
    | error e => rfl
    | ok score =>
      by_cases hskip : (flags.nx && !st.zset.members[member]?.isNone ||
          flags.xx && st.zset.members[member]?.isNone) = true
      · exact (congrArg Except.isOk (if_pos hskip)).trans ih₁
      · exact (congrArg Except.isOk (if_neg hskip)).trans (ih₂ score)
  | case2 rest st hrest =>
    unfold positions_readable
    split
    · exact absurd rfl (hrest _ _ _ _)
    · rfl

theorem geoadd_change_isOk (flags : GeoFlags) (rest : List Bytes) (zset : ZSetData F) :
    (geoadd_change flags rest zset).isOk = positions_readable F rest := by
  rw [← geoadd_positions_isOk flags rest ⟨zset, 0, 0⟩]
  unfold geoadd_change
  cases geoadd_positions flags rest ⟨zset, 0, 0⟩ <;> rfl

def geoadd_request (args : List Bytes) : Except Halt (Bytes × GeoFlags × List Bytes) := do
  if args.length < 4 then err (wrong_number "geoadd") else do
  let key ← arg args 0
  let (flags, rest) := geoadd_flags (args.drop 1) ⟨false, false, false⟩
  if flags.nx && flags.xx then
    err "ERR XX and NX options at the same time are not compatible" else do
  if rest.length < 3 ∨ rest.length % 3 ≠ 0 then err "ERR syntax error" else
  return (key, flags, rest)

/-- The key of a GEOADD that is well formed. -/
def geoadd_key (F : Type) [GeoScore F] (args : List Bytes) : Option Bytes :=
  match geoadd_request args with
  | .ok (key, _, rest) => if positions_readable F rest then some key else none
  | .error _ => none

theorem geoadd_eq (args : List Bytes) : (geoadd args : StoreM F (Reply F)) = (do
    let (key, flags, rest) ← geoadd_request args
    upsert key (geoadd_change flags rest)) := by
  simp only [geoadd, geoadd_request, lift_ite, ite_bind, lift_bind, bind_assoc,
    lift_pure_bind, lift_err_bind, get_or_create_zset_bind, upsert, geoadd_change]
  rfl

end Positions

end ValkeyRs.Zset
