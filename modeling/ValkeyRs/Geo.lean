/-
GEOADD, `crates/commands/src/geo.rs`.

Positions are kept in a sorted set, with the interleaved bits of the two coordinates as the score.
The arithmetic on coordinates is that of `f64`: what the command uses of it, the bounds, the cell of
a coordinate on its axis and the conversion of an integer, is a class, and the interleaving of the
bits is as in the source.

`str_arg` decodes its argument with `from_utf8_lossy`. Where something had to be replaced the text
holds a U+FFFD, which neither an option nor a number does, so such an argument counts as neither.
-/
import ValkeyRs.Zset

set_option autoImplicit false

open ValkeyRs Text Storage Zset

namespace ValkeyRs.Geo

/-- What GEOADD uses of `f64` beyond scores. -/
class GeoScore (F : Type) extends Score F where
  GEO_LAT_MIN : F
  GEO_LAT_MAX : F
  GEO_LON_MIN : F
  GEO_LON_MAX : F
  encode_axis : F → F → F → UInt32
  of_u64 : UInt64 → F

/-- The two infinities, with all the world between them. -/
instance : GeoScore Resp.Infinity where
  GEO_LAT_MIN := .neg
  GEO_LAT_MAX := .pos
  GEO_LON_MIN := .neg
  GEO_LON_MAX := .pos
  encode_axis _ _ _ := 0
  of_u64 _ := .pos

variable {F : Type} [GeoScore F]

/-! ## Geohashes -/

/-- The bits of `x` go to the odd places and those of `y` to the even ones. -/
def interleave (x y : UInt32) : UInt64 :=
  (List.range 26).foldl (fun r i =>
    let i := UInt64.ofNat i
    r ||| (((x.toUInt64 >>> i) &&& 1) <<< (2 * i + 1)) ||| (((y.toUInt64 >>> i) &&& 1) <<< (2 * i))) 0

def encode_geohash (lon lat : F) : F :=
  let lon_bits := GeoScore.encode_axis lon GeoScore.GEO_LON_MIN GeoScore.GEO_LON_MAX
  let lat_bits := GeoScore.encode_axis lat GeoScore.GEO_LAT_MIN GeoScore.GEO_LAT_MAX
  GeoScore.of_u64 (interleave lon_bits lat_bits)

/-! ## Reading and writing -/

def get_or_create_zset (key : Bytes) : StoreM F (ZSetData F) := do
  match ← Store.get key with
  | some entry =>
    match entry.data with
    | .ZSet zs => return zs
    | _ => return .new
  | none => return .new

def set_zset (key : Bytes) (zset : ZSetData F) : StoreM F Unit := Store.set key (.ZSet zset) none

/-! ## GEOADD -/

structure GeoFlags where
  nx : Bool
  xx : Bool
  ch : Bool
  deriving Repr, DecidableEq

/-- The option loop of `geoadd`, with the arguments it leaves. -/
def geoadd_flags : List Bytes → GeoFlags → GeoFlags × List Bytes
  | [], flags => (flags, [])
  | a :: rest, flags =>
    match option_name a with
    | some "NX" => geoadd_flags rest { flags with nx := true }
    | some "XX" => geoadd_flags rest { flags with xx := true }
    | some "CH" => geoadd_flags rest { flags with ch := true }
    | _ => (flags, a :: rest)

/-- `str_arg(b).parse()`, within the bounds of an axis. -/
def coordinate (b : Bytes) (message : String) : Except Halt F :=
  match (from_utf8 b).toOption.bind fun s => (Resp.FloatText.parse s).toOption with
  | some v => .ok v
  | none => err message

def within (lo hi v : F) (message : String) : Except Halt Unit :=
  if lo ≤ v ∧ v ≤ hi then .ok () else err message

/-- The position three arguments give: both numbers are read before either bound is checked. -/
def position (lon lat : Bytes) : Except Halt F := do
  let lon ← coordinate lon "ERR invalid longitude"
  let lat ← coordinate lat "ERR invalid latitude"
  within GeoScore.GEO_LON_MIN GeoScore.GEO_LON_MAX lon "ERR invalid longitude"
  within GeoScore.GEO_LAT_MIN GeoScore.GEO_LAT_MAX lat "ERR invalid latitude"
  return encode_geohash lon lat

/-- The sorted set with the positions so far, and how many members are new and how many have
changed. -/
structure GeoState (F : Type) [LinearOrder F] where
  zset : ZSetData F
  added : ℕ
  changed : ℕ

/-- The loop of `geoadd` over the positions. -/
def geoadd_positions (flags : GeoFlags) : List Bytes → GeoState F → Except Halt (GeoState F)
  | lon :: lat :: member :: rest, st => do
    let score ← position lon lat
    let old_score := st.zset.members[member]?
    let is_new := old_score.isNone
    if (flags.nx && !is_new) || (flags.xx && is_new) then geoadd_positions flags rest st
    else
      geoadd_positions flags rest
        { zset := st.zset.add member score
          added := if is_new then st.added + 1 else st.added
          changed := if is_new ∨ old_score ≠ some score then st.changed + 1 else st.changed }
  | _, st => .ok st

def geoadd (args : List Bytes) : StoreM F (Reply F) := do
  if args.length < 4 then .fail (.Err (wrong_number "geoadd")) else do
  let key ← arg args 0
  let (flags, rest) := geoadd_flags (args.drop 1) ⟨false, false, false⟩
  if flags.nx && flags.xx then
    .fail (.Err "ERR XX and NX options at the same time are not compatible") else do
  let remaining := rest.length
  if remaining < 3 ∨ remaining % 3 ≠ 0 then .fail (.Err "ERR syntax error") else do
  let zset ← get_or_create_zset key
  let st ← geoadd_positions flags rest ⟨zset, 0, 0⟩
  set_zset key st.zset
  return int (if flags.ch then st.changed else st.added)

end ValkeyRs.Geo
