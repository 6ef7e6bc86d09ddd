/-
What the sorted-set commands that write do to the store, for any contract.

Each of them reads sorted sets under some of its arguments, computes, and stores a sorted set
under one of its arguments. So a contract that grants these two things for the arguments
(`Grants`) is met by every one of the commands (`handler_meets`), whatever it is about. Where a
contract asks something of the sorted sets that are stored, it can be any property that the
empty set has, that adding a member keeps, and that rebuilding establishes (`Closed`): the
commands make their results with these three.
-/
import ValkeyRs.StoreRules
import ValkeyRs.Zset

set_option autoImplicit false

open ValkeyRs Text Storage Prog List

namespace ValkeyRs.Zset

variable {F : Type} [Score F]

/-! ## Keys -/

/-- The key is one of the arguments, read as text. -/
def KeyOf (args : List Bytes) (key : String) : Prop := ∃ b ∈ args, from_utf8 b = .ok key

theorem from_utf8_of_str_from_bytes {b : Bytes} {key : String}
    (h : str_from_bytes b = .ok key) : from_utf8 b = .ok key := by
  unfold str_from_bytes at h
  cases hb : from_utf8 b with
  | ok s =>
    rw [hb] at h
    cases h
    rfl
  | error e =>
    rw [hb] at h
    cases h

theorem mem_of_arg {args : List Bytes} {i : ℕ} {a : Bytes} (h : arg args i = .ok a) : a ∈ args := by
  unfold arg at h
  cases ha : args[i]? with
  | none =>
    rw [ha] at h
    cases h
  | some b =>
    rw [ha] at h
    cases h
    exact mem_of_getElem? ha

theorem keyOf_arg {args : List Bytes} {i : ℕ} {a : Bytes} {key : String}
    (ha : arg args i = .ok a) (hk : str_from_bytes a = .ok key) : KeyOf args key :=
  ⟨a, mem_of_arg ha, from_utf8_of_str_from_bytes hk⟩

/-! ## What a contract has to grant -/

/-- A property of the sorted sets that the commands make. -/
structure Closed (G : ZSetData F → Prop) : Prop where
  new : G .new
  add : ∀ z m s, G z → G (z.add m s)
  rebuild : ∀ z, G (rebuild_scores z)

/-- The contract lets a program read sorted sets under the keys, which then have the property,
and store those that do. -/
structure Grants (C : Prog.Contract (StoreOp F) StoreOp.Res) (G : ZSetData F → Prop)
    (K : String → Prop) : Prop where
  read : ∀ key, K key → (get_zset key).Meets C fun z => ∀ x ∈ z, G x
  write : ∀ key z, K key → G z → (set_zset key z).Meets C fun _ => True

/-- Reading a sorted set is a `Store::get`. -/
theorem get_zset_meets {C : Prog.Contract (StoreOp F) StoreOp.Res} {P : Entry F → Prop}
    {G : ZSetData F → Prop} {key : String}
    (hget : (Store.get (as_bytes key)).Meets C fun e => ∀ x, e = some x → P x)
    (hG : ∀ x z, P x → x.data = .ZSet z → G z) :
    (get_zset key).Meets C fun z => ∀ x ∈ z, G x := by
  refine .bind hget fun e he => ?_
  cases e with
  | none =>
    intro x hx
    cases hx
  | some entry =>
    dsimp only
    split
    · rename_i zs hdata
      intro x hx
      cases hx
      exact hG entry zs (he entry rfl) hdata
    · intro x hx
      cases hx

section Closed

variable {G : ZSetData F → Prop} (hG : Closed G)

include hG

theorem Closed.getD {z : Option (ZSetData F)} (h : ∀ x ∈ z, G x) : G (z.getD .new) := by
  cases z with
  | none => exact hG.new
  | some x => exact h x rfl

theorem Closed.foldl {α : Type} {f : ZSetData F → α → ZSetData F}
    (hf : ∀ z a, f z a = z ∨ ∃ m s, f z a = z.add m s) (l : List α) : G (l.foldl f .new) := by
  have hloop : ∀ z, G z → G (l.foldl f z) := by
    induction l with
    | nil =>
      intro z hz
      exact hz
    | cons a l ih =>
      intro z hz
      refine ih _ ?_
      rcases hf z a with h | ⟨m, s, h⟩
      · rw [h]
        exact hz
      · rw [h]
        exact hG.add z m s hz
  exact hloop _ hG.new

theorem Closed.zadd_pairs (flags : ZaddFlags) (l : List Bytes)
    {z z' : ZSetData F} {n n' : ℕ} (hz : G z) (h : Zset.zadd_pairs flags l z n = .ok (z', n')) :
    G z' := by
  induction l using List.twoStepInduction generalizing z n with
  | nil | singleton =>
    cases h
    exact hz
  | cons_cons s member rest ih =>
    simp only [Zset.zadd_pairs] at h
    cases hs : (parse_score s : Except Halt F) with
    | error e =>
      rw [hs] at h
      cases h
    | ok score =>
      rw [hs] at h
      simp only [Bind.bind, Except.bind] at h
      split at h
      · exact ih (hG.add z member score hz) h
      · exact ih hz h

theorem Closed.intersection (sets : List (ZSetData F)) (weights : List F)
    (agg : Aggregate) : G (Zset.intersection sets weights agg) := by
  unfold Zset.intersection
  split
  · exact hG.new
  · refine hG.foldl (fun z a => ?_) _
    dsimp only
    split
    · exact .inr ⟨_, _, rfl⟩
    · exact .inl rfl

theorem Closed.difference (sets : List (ZSetData F)) : G (Zset.difference sets) := by
  unfold Zset.difference
  split
  · exact hG.new
  · refine hG.foldl (fun z a => ?_) _
    dsimp only
    split
    · exact .inl rfl
    · exact .inr ⟨_, _, rfl⟩

end Closed

/-! ## The commands -/

section Commands

variable {C : Prog.Contract (StoreOp F) StoreOp.Res} {G : ZSetData F → Prop}

section Key

variable {K : String → Prop} (h : Grants C G K) {key : String} (hk : K key)

include h hk

theorem store_result_meets {rz : ZSetData F} (hrz : G rz) :
    (store_result key rz).Meets C fun _ => True :=
  .bind (h.write key rz hk hrz) fun _ _ => trivial

variable (hG : Closed G)

include hG

theorem increment_meets (member : Bytes) (by_ : F) :
    (increment key member by_).Meets C fun _ => True := by
  refine .bind (h.read key hk) fun z hz => ?_
  exact .bind (h.write key _ hk (hG.add _ _ _ (hG.getD hz))) fun _ _ => trivial

theorem rebuild_meets (z : ZSetData F) {r : Reply F} :
    (set_zset key (rebuild_scores z) >>= fun _ => (Pure.pure r)).Meets C fun _ => True :=
  .bind (h.write key _ hk (hG.rebuild z)) fun _ _ => trivial

theorem zremrange_meets (select : ZSetData F → Except Halt (List Bytes)) :
    (zremrange key select).Meets C fun _ => True := by
  refine .bind (h.read key hk) fun z hz => ?_
  cases z with
  | none => trivial
  | some z => exact .lift_bind fun ms _ => rebuild_meets h hk hG _

end Key

variable {args : List Bytes} (h : Grants C G (KeyOf args))

theorem store_args_keys {cmd dest : String} {keys opts : List Bytes}
    (h : store_args cmd args = .ok (dest, keys, opts)) :
    KeyOf args dest ∧ ∀ k ∈ keys, k ∈ args := by
  unfold store_args at h
  split at h
  · cases h
  · cases ha : arg args 0 with
    | error e =>
      rw [ha] at h
      cases h
    | ok a =>
      cases hd : str_from_bytes a with
      | error e =>
        rw [ha] at h
        simp only [Bind.bind, Except.bind, hd] at h
        cases h
      | ok d =>
        rw [ha] at h
        simp only [Bind.bind, Except.bind, hd] at h
        -- what follows only computes how many of the arguments are sources
        split at h
        · cases h
        · split at h
          · cases h
          · split at h
            · cases h
            · split at h
              · cases h
              · cases h
                refine ⟨keyOf_arg ha hd, fun k hk => ?_⟩
                exact mem_of_mem_drop (mem_of_mem_take hk)

include h

theorem zunion_sources_meets {sources : List (Bytes × F)} (hs : ∀ p ∈ sources, p.1 ∈ args)
    (all : HashMap Bytes (List F)) :
    (zunion_sources sources all).Meets C fun _ => True := by
  induction sources generalizing all with
  | nil => trivial
  | cons p rest ih =>
    have hrest := fun all => ih (fun q hq => hs q (mem_cons_of_mem _ hq)) all
    refine .lift_bind fun key hkey => ?_
    have hk : KeyOf args key :=
      ⟨p.1, hs p mem_cons_self, from_utf8_of_str_from_bytes hkey⟩
    refine .bind (h.read key hk) fun z hz => ?_
    cases z with
    | none => exact hrest all
    | some z => exact hrest _

theorem present_sources_meets {keys : List Bytes} (hkeys : ∀ k ∈ keys, k ∈ args) :
    (present_sources keys).Meets C fun _ => True := by
  induction keys with
  | nil => trivial
  | cons k ks ih =>
    have hrest := ih fun k' hk' => hkeys k' (mem_cons_of_mem _ hk')
    unfold present_sources
    split
    · exact hrest
    · rename_i key hkey
      refine .bind (h.read key ⟨k, hkeys k mem_cons_self, hkey⟩) fun z hz => ?_
      cases z with
      | none => exact hrest
      | some z => exact .bind hrest fun _ _ => trivial

variable (hG : Closed G)

include hG

theorem zadd_meets : (zadd args).Meets C fun _ => True := by
  refine .ite (fun _ => trivial) fun _ => ?_
  refine .lift_bind fun a ha => .lift_bind fun key hkey => ?_
  have hk : KeyOf args key := keyOf_arg ha hkey
  refine .lift_bind fun p _ => ?_
  refine .ite (fun _ => trivial) fun _ => .ite (fun _ => trivial) fun _ => ?_
  refine .ite (fun _ => trivial) fun _ => .ite (fun _ => ?_) fun _ => ?_
  · refine .ite (fun _ => trivial) fun _ => ?_
    refine .lift_bind fun s _ => .lift_bind fun score _ => ?_
    exact .lift_bind fun member _ => increment_meets h hk hG _ _
  · refine .bind (h.read key hk) fun z hz => ?_
    refine .lift_bind fun q hq => ?_
    have hq' : G q.1 := hG.zadd_pairs p.1 p.2 (hG.getD hz) hq
    exact .bind (h.write key _ hk hq') fun _ _ => trivial

theorem zincrby_meets : (zincrby args).Meets C fun _ => True := by
  refine .ite (fun _ => trivial) fun _ => ?_
  refine .lift_bind fun a ha => .lift_bind fun key hkey => ?_
  refine .lift_bind fun b _ => .lift_bind fun by_ _ => ?_
  exact .lift_bind fun member _ => increment_meets h (keyOf_arg ha hkey) hG _ _

theorem zrem_meets : (zrem args).Meets C fun _ => True := by
  refine .ite (fun _ => trivial) fun _ => ?_
  refine .lift_bind fun a ha => .lift_bind fun key hkey => ?_
  have hk : KeyOf args key := keyOf_arg ha hkey
  refine .bind (h.read key hk) fun z hz => ?_
  cases z with
  | none => trivial
  | some z => exact rebuild_meets h hk hG _

theorem zremrangebyrank_meets : (zremrangebyrank args).Meets C fun _ => True := by
  refine .ite (fun _ => trivial) fun _ => ?_
  refine .lift_bind fun a ha => .lift_bind fun key hkey => ?_
  refine .lift_bind fun _ _ => .lift_bind fun _ _ => ?_
  refine .lift_bind fun _ _ => .lift_bind fun _ _ => ?_
  exact zremrange_meets h (keyOf_arg ha hkey) hG _

/-- The two bounds of ZREMRANGEBYSCORE and ZREMRANGEBYLEX are each read in three steps. -/
theorem zremrangebyscore_meets : (zremrangebyscore args).Meets C fun _ => True := by
  refine .ite (fun _ => trivial) fun _ => ?_
  refine .lift_bind fun a ha => .lift_bind fun key hkey => ?_
  refine .lift_bind fun _ _ => .lift_bind fun _ _ => ?_
  refine .lift_bind fun _ _ => .lift_bind fun _ _ => ?_
  refine .lift_bind fun _ _ => .lift_bind fun _ _ => ?_
  exact zremrange_meets h (keyOf_arg ha hkey) hG _

theorem zremrangebylex_meets : (zremrangebylex args).Meets C fun _ => True := by
  refine .ite (fun _ => trivial) fun _ => ?_
  refine .lift_bind fun a ha => .lift_bind fun key hkey => ?_
  refine .lift_bind fun _ _ => .lift_bind fun _ _ => ?_
  refine .lift_bind fun _ _ => .lift_bind fun _ _ => ?_
  refine .lift_bind fun _ _ => .lift_bind fun _ _ => ?_
  exact zremrange_meets h (keyOf_arg ha hkey) hG _

theorem zpop_meets (cmd : String) (from_max : Bool) :
    (zpop cmd from_max args).Meets C fun _ => True := by
  refine .ite (fun _ => trivial) fun _ => ?_
  refine .lift_bind fun a ha => .lift_bind fun key hkey => ?_
  have hk : KeyOf args key := keyOf_arg ha hkey
  refine .lift_bind fun count _ => .bind (h.read key hk) fun z hz => ?_
  cases z with
  | none => trivial
  | some z => exact rebuild_meets h hk hG _

theorem zmpop_keys_meets (is_min : Bool) (count : ℕ) {keys : List Bytes} (hkeys : ∀ k ∈ keys, k ∈ args) :
    (zmpop_keys is_min count keys).Meets C fun _ => True := by
  induction keys with
  | nil => trivial
  | cons k ks ih =>
    have hrest := ih fun k' hk' => hkeys k' (mem_cons_of_mem _ hk')
    refine .lift_bind fun key hkey => ?_
    have hk : KeyOf args key :=
      ⟨k, hkeys k mem_cons_self, from_utf8_of_str_from_bytes hkey⟩
    refine .bind (h.read key hk) fun z hz => ?_
    cases z with
    | none => exact hrest
    | some z => exact .ite (fun _ => hrest) fun _ => rebuild_meets h hk hG _

theorem zmpop_meets : (zmpop args).Meets C fun _ => True := by
  refine .ite (fun _ => trivial) fun _ => ?_
  refine .lift_bind fun a _ => .lift_bind fun numkeys _ => ?_
  refine .lift_bind fun n _ => .ite (fun _ => trivial) fun _ => ?_
  refine .lift_bind fun b _ => .lift_bind fun is_min _ => ?_
  refine .lift_bind fun count _ => zmpop_keys_meets h hG _ _ fun k hk => ?_
  exact mem_of_mem_drop (mem_of_mem_take hk)

theorem zunionstore_meets : (zunionstore args).Meets C fun _ => True := by
  refine .lift_bind fun p hp => .lift_bind fun q _ => ?_
  obtain ⟨hdest, hkeys⟩ := store_args_keys hp
  refine .bind (zunion_sources_meets h (fun k hk => ?_) _) fun all _ => ?_
  · exact hkeys _ (of_mem_zip hk).1
  · exact store_result_meets h hdest (hG.foldl (fun z a => .inr ⟨_, _, rfl⟩) _)

theorem zinterstore_meets : (zinterstore args).Meets C fun _ => True := by
  refine .lift_bind fun p hp => .lift_bind fun q _ => ?_
  obtain ⟨hdest, hkeys⟩ := store_args_keys hp
  refine .bind (present_sources_meets h hkeys) fun sets _ => ?_
  exact store_result_meets h hdest (hG.intersection _ _ _)

theorem zdiffstore_meets : (zdiffstore args).Meets C fun _ => True := by
  refine .lift_bind fun p hp => ?_
  obtain ⟨hdest, hkeys⟩ := store_args_keys hp
  refine .bind (present_sources_meets h hkeys) fun sets _ => ?_
  exact store_result_meets h hdest (hG.difference _)

theorem zrangestore_meets : (zrangestore args).Meets C fun _ => True := by
  refine .ite (fun _ => trivial) fun _ => ?_
  refine .lift_bind fun a ha => .lift_bind fun dest hdest => ?_
  refine .lift_bind fun b hb => .lift_bind fun src hsrc => ?_
  refine .lift_bind fun _ _ => .lift_bind fun ms _ => ?_
  refine .lift_bind fun _ _ => .lift_bind fun me _ => ?_
  refine .lift_bind fun opts _ => ?_
  refine .bind (h.read src (keyOf_arg hb hsrc)) fun z hz => ?_
  cases z with
  | none => trivial
  | some z =>
    refine .lift_bind fun e _ => store_result_meets h (keyOf_arg ha hdest) ?_
    exact hG.foldl (fun z a => .inr ⟨_, _, rfl⟩) _

/-- A contract that grants reading and storing sorted sets under the arguments is met by every
writing command. -/
theorem handler_meets (c : ZWrite) : (c.handler args).Meets C fun _ => True := by
  cases c with
  | ZADD => exact zadd_meets h hG
  | ZINCRBY => exact zincrby_meets h hG
  | ZREM => exact zrem_meets h hG
  | ZREMRANGEBYRANK => exact zremrangebyrank_meets h hG
  | ZREMRANGEBYSCORE => exact zremrangebyscore_meets h hG
  | ZREMRANGEBYLEX => exact zremrangebylex_meets h hG
  | ZPOPMIN => exact zpop_meets h hG _ _
  | ZPOPMAX => exact zpop_meets h hG _ _
  | ZMPOP => exact zmpop_meets h hG
  | ZUNIONSTORE => exact zunionstore_meets h hG
  | ZINTERSTORE => exact zinterstore_meets h hG
  | ZDIFFSTORE => exact zdiffstore_meets h hG
  | ZRANGESTORE => exact zrangestore_meets h hG

end Commands

end ValkeyRs.Zset
