/-
Values as a client sees them.

The store has two representations each for lists and sets, and which one a key has depends on its
history. `DataType.value` forgets the representation, and the index that a sorted set keeps beside
its members.
-/
import ValkeyRs.Maps
import ValkeyRs.Storage

set_option autoImplicit false

open ValkeyRs Text Maps

namespace ValkeyRs.Storage

inductive Value (F : Type) where
  | string (b : Bytes)
  | list (items : List Bytes)
  | set (members : HashSet Bytes)
  | hash (fields : HashMap Bytes Bytes)
  | zset (members : HashMap Bytes F)
  | stream (entries : BTreeMap StreamId (List (Bytes × Bytes)))
      (groups : HashMap String ConsumerGroup) (last_id : StreamId)

def IntSet.members (self : IntSet) : List Bytes := self.iter.map fun v => as_bytes (toString v)

variable {F : Type} [LinearOrder F]

def DataType.value : DataType F → Value F
  | .String s => .string s
  | .List list => .list list
  | .Set set => .set set
  | .ZSet zset => .zset zset.members
  | .Hash hash => .hash hash
  | .Stream stream => .stream stream.entries stream.groups stream.last_id
  | .ListPack lp => .list lp.to_vec
  | .IntSet s => .set (gather ∅ s.members)

/-- What a client can find out about an entry: its value and its expiry time. -/
def Entry.view (self : Entry F) : Value F × Option Instant := (self.data.value, self.expires_at)

def World.single (key : Bytes) (entry : Entry F) (env : Env) : World F :=
  { (World.new env : World F) with
    store := { (Store.new : Store F) with keyspace := (∅ : HashMap _ _).insert key entry } }

theorem World.single_self (key : Bytes) (entry : Entry F) (env : Env) :
    (World.single key entry env).store.keyspace[key]? = some entry :=
  Std.ExtTreeMap.getElem?_insert_self

theorem World.single_getElem? {key k : Bytes} {entry e : Entry F} {env : Env}
    (h : (World.single key entry env).store.keyspace[k]? = some e) : k = key ∧ e = entry := by
  have hget : ((∅ : HashMap Bytes (Entry F)).insert key entry)[k]? = some e := h
  obtain ⟨hk, he⟩ | hget := Maps.of_insert hget
  · exact ⟨hk.symm, he.symm⟩
  · rw [Std.ExtTreeMap.getElem?_empty] at hget
    cases hget

end ValkeyRs.Storage
