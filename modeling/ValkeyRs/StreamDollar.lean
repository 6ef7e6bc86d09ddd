/-
The ID `$`: from now on.

`$` stands for the last ID of the stream, and what is read from an ID are the entries behind it. But
`last_id` is not the ID of the last entry: it is the next one, which an entry of the same millisecond
gets. A group made at `$` never hands out that entry. XREAD takes `$` anew every time it looks, so
what has come in between is in front of it.
-/
import ValkeyRs.Pending

set_option autoImplicit false

open ValkeyRs Text Storage Zset Strings Maps Runs

namespace ValkeyRs.Streams

variable {F : Type} [Score F]

def dollar : Bytes := as_bytes "$"

theorem s_dollar : s dollar = .ok "$" := by decide

/-! ## The IDs in a reply -/

def reply_id : Reply F → Option StreamId
  | .Array (some (b :: _)) => returned_id (.ok b)
  | _ => none

/-- The IDs of the entries that a read of one stream returns. -/
def returned_ids (r : Except Halt (Reply F)) : List StreamId := (returned_entries r).filterMap reply_id

variable {key : Bytes} {id : StreamId} {sd : StreamData} {w : World F}

omit [Score F] in
theorem mem_returned_ids {entries : List (StreamId × Fields)} :
    id ∈ returned_ids (.ok (read_reply (key_reply key entries)) : Except Halt (Reply F)) ↔
      id ∈ entries.map Prod.fst := by
  have hid : (fun e => reply_id (entry_reply e : Reply F)) = fun e => some e.1 :=
    funext fun e => returned_id_bytes (F := F) e.1
  have hids : returned_ids (.ok (read_reply (key_reply key entries)) : Except Halt (Reply F)) =
      entries.map Prod.fst := by
    unfold returned_ids
    rw [returned_entries_read, List.filterMap_map]
    show entries.filterMap (fun e => reply_id (entry_reply e : Reply F)) = _
    rw [hid]
    exact congrFun List.filterMap_eq_map' entries
  rw [hids]

theorem mem_after_ids {x : StreamId} :
    id ∈ (sd.after x).map Prod.fst ↔ x < id ∧ sd.entries.contains id = true := by
  rw [List.mem_map, Std.ExtTreeMap.contains_eq_isSome_getElem?, Option.isSome_iff_exists]
  constructor
  · rintro ⟨e, he, rfl⟩
    obtain ⟨hfound, hlt⟩ := mem_after.mp he
    exact ⟨hlt, e.2, hfound⟩
  · rintro ⟨hlt, fields, hfound⟩
    exact ⟨(id, fields), mem_after.mpr ⟨hfound, hlt⟩, rfl⟩

/-! ## A group from now on -/

/-- XGROUP CREATE and XGROUP SETID, with `$`. -/
inductive FromNow where
  | CREATE
  | SETID
  deriving Repr, DecidableEq

def FromNow.handler (key gn : Bytes) (extra : List Bytes) : FromNow → StoreM F (Reply F)
  | .CREATE => xgroup (as_bytes "CREATE" :: key :: gn :: dollar :: extra)
  | .SETID => xgroup (as_bytes "SETID" :: key :: gn :: dollar :: extra)

section Groups

variable {C : Instant → Prop} {m : HashMap Bytes (Entry F)} {key : Bytes} {sd : StreamData}

/-- The group has handed out everything up to this ID. -/
def Stands (gn : Bytes) (id : StreamId) (sd : StreamData) : Prop :=
  ∃ g, StreamData.group sd gn = some g ∧ g.last_delivered_id = id

theorem stands_insert {gn : Bytes} {name : String} (hname : s gn = .ok name) {g : ConsumerGroup}
    {id : StreamId} (hg : g.last_delivered_id = id) :
    Stands gn id { sd with groups := sd.groups.insert name g } := by
  refine ⟨g, ?_, hg⟩
  unfold StreamData.group
  rw [hname]
  exact Std.ExtTreeMap.getElem?_insert_self

theorem xgc_dollar_leads (h : Holds m key sd) (gn : Bytes) (extra : List Bytes) :
    Leads C m key (xgc key gn dollar extra) fun r sd' =>
      ∀ a, r = .ok a → Stands gn sd.last_id sd' := by
  refine .lift h (fun _ _ => nofun) fun gns hgns => ?_
  refine .lift h (fun _ _ => nofun) fun ids hids => ?_
  refine .lift h (fun _ _ => nofun) fun er _ => .get_stream h ?_
  cases s_dollar.symm.trans hids
  rw [if_pos rfl]
  refine Prog.Wp.ite (fun _ => Leads.fail h nofun) fun _ => Leads.save h ?_
  exact fun _ _ => stands_insert hgns rfl

theorem xgsid_dollar_leads (h : Holds m key sd) (gn : Bytes) (extra : List Bytes) :
    Leads C m key (xgsid key gn dollar extra) fun r sd' =>
      ∀ a, r = .ok a → Stands gn sd.last_id sd' := by
  refine .lift h (fun _ _ => nofun) fun gns hgns => ?_
  refine .lift h (fun _ _ => nofun) fun ids hids => ?_
  refine .lift h (fun _ _ => nofun) fun er _ => .get_stream h ?_
  cases s_dollar.symm.trans hids
  cases sd.groups[gns]? with
  | none => exact .fail h nofun
  | some g => exact .save h fun _ _ => stands_insert hgns rfl

theorem xgroup_create (key gn id : Bytes) (extra : List Bytes) :
    (xgroup (as_bytes "CREATE" :: key :: gn :: id :: extra) : StoreM F (Reply F)) =
      xgc key gn id extra := by
  have hs : s (as_bytes "CREATE") = .ok "CREATE" := by decide
  have hupper : to_ascii_uppercase "CREATE" = "CREATE" := by decide
  unfold xgroup
  dsimp only
  rw [hs]
  refine Eq.trans (Prog.lift_pure_bind "CREATE" _) ?_
  rw [hupper]
  rfl

theorem xgroup_setid (key gn id : Bytes) (extra : List Bytes) :
    (xgroup (as_bytes "SETID" :: key :: gn :: id :: extra) : StoreM F (Reply F)) =
      xgsid key gn id extra := by
  have hs : s (as_bytes "SETID") = .ok "SETID" := by decide
  have hupper : to_ascii_uppercase "SETID" = "SETID" := by decide
  unfold xgroup
  dsimp only
  rw [hs]
  refine Eq.trans (Prog.lift_pure_bind "SETID" _) ?_
  rw [hupper]
  rfl

theorem from_now_leads (h : Holds m key sd) (gn : Bytes) (extra : List Bytes) (c : FromNow) :
    Leads C m key (c.handler key gn extra : StoreM F (Reply F)) fun r sd' =>
      ∀ a, r = .ok a → Stands gn sd.last_id sd' := by
  cases c with
  | CREATE =>
    unfold FromNow.handler
    rw [xgroup_create]
    exact xgc_dollar_leads h gn extra
  | SETID =>
    unfold FromNow.handler
    rw [xgroup_setid]
    exact xgsid_dollar_leads h gn extra

end Groups

/-! ## What has been added since -/

def add_all (key : Bytes) (h : History F) (adds : List (List Bytes)) : History F :=
  run (History.step key) h (adds.map IdCommand.XADD)

theorem add_all_holds {h : History F}
    (hholds : Holds h.world.store.keyspace key sd) (adds : List (List Bytes)) :
    ∃ sd', Holds (add_all key h adds).world.store.keyspace key sd' ∧ sd'.groups = sd.groups := by
  induction adds generalizing h sd with
  | nil => exact ⟨sd, hholds, rfl⟩
  | cons args adds ih =>
    have hleads := xadd_leads (C := fun _ => True) hholds args
    obtain ⟨-, sd₁, hholds₁, hgroups₁⟩ := run_of_wp hleads fun _ => trivial
    obtain ⟨sd', hholds', hgroups'⟩ := ih (h := h.step key (.XADD args)) hholds₁
    exact ⟨sd', hholds', hgroups'.trans hgroups₁⟩

/-- A read without COUNT returns all entries behind the last one of the group. -/
theorem read_all {gn : Bytes} (hholds : Holds w.store.keyspace key sd) (hstands : Stands gn id sd)
    {args : List Bytes} {request : GroupRequest} (hrequest : group_request args = .ok request)
    (hgroup : s gn = .ok request.group) (hstreams : request.streams = [(key, new_entries)])
    (hcount : request.options.count = none) : ((xreadgroup args).run World.step w).1 =
      .ok (read_reply (key_reply key (sd.after id))) := by
  obtain ⟨g, hg, hlast⟩ := hstands
  unfold StreamData.group at hg
  rw [hgroup] at hg
  have hrun : (xreadgroup args : StoreM F (Reply F)) =
      xreadgroup_streams request.group request.consumer request.options [(key, new_entries)] [] := by
    rw [xreadgroup_eq, hrequest, ← hstreams]
    rfl
  have hleads : Leads (fun _ => True) w.store.keyspace key (xreadgroup args : StoreM F (Reply F)) _ :=
    hrun ▸ read_new_leads hholds hg request.options
  obtain ⟨-, sd', -, taken, rest, g₁, g', hr, -, hafter, hall, -⟩ :=
    run_of_wp hleads fun _ => trivial
  rw [hr, ← hlast, hafter, hall hcount, List.append_nil]

/-! ## Waiting -/

/-- One look from `$`: it returns what is behind the last ID of this moment. -/
theorem run_xri_dollar (h : Holds w.store.keyspace key sd) :
    (xri none [(key, dollar)] []).run World.step w =
      (.ok (read_reply (key_reply key (sd.after sd.last_id))), w) := by
  unfold xri
  rw [s_dollar]
  refine Eq.trans (congrArg (fun p : StoreM F (Reply F) => p.run World.step w)
    (Prog.lift_pure_bind "$" _)) ?_
  rw [if_pos rfl, run_get_holds h]
  cases he : w.store.keyspace[key]? with
  | none =>
    rw [h.absent he]
    rfl
  | some e =>
    rw [Option.map_some, (h.found e he).1]
    refine (run_get_holds h _).trans ?_
    rw [he, Option.map_some, (h.found e he).1]
    rfl

/-- XREAD BLOCK from `$` without COUNT, as it waits: at each turn some entries have been added, and
then it looks. The reply comes with what has been added until then. -/
def xread_waiting (key : Bytes) (h : History F) :
    List (List (List Bytes)) → Except Halt (Reply F) × History F
  | [] => (.ok null_bulk, h)
  | adds :: rest =>
    let h := add_all key h adds
    let r := (xri none [(key, dollar)] [] : StoreM F (Reply F)).run World.step h.world
    match r.1 with
    | .ok (.BulkString none) => xread_waiting key ⟨r.2, h.returned⟩ rest
    | _ => (r.1, ⟨r.2, h.returned⟩)

/-- When nothing is added this is the waiting loop of XREAD. -/
theorem xread_waiting_alone (key : Bytes) (h : History F) (polls : ℕ) :
    (xread_waiting key h (List.replicate polls [])).1 =
      ((xread_wait none [(key, dollar)] polls).run World.step h.world).1 := by
  induction polls generalizing h with
  | zero => rfl
  | succ polls ih =>
    rw [List.replicate_succ]
    unfold xread_waiting xread_wait
    have halone : add_all key h [] = h := rfl
    rw [Prog.run_bind, halone]
    dsimp only
    cases hlook : (xri none [(key, dollar)] [] : StoreM F (Reply F)).run World.step h.world with
    | mk r w' =>
      cases r with
      | error e => rfl
      | ok reply =>
        cases reply with
        | BulkString b =>
          cases b with
          | none => exact ih ⟨w', h.returned⟩
          | some b => rfl
        | _ => rfl

/-- **Waiting.** An entry that is added meanwhile is returned exactly if it is in the stream and its
ID is behind the last ID when XREAD looks for the last time. -/
theorem xread_waiting_iff {h : History F}
    (hholds : Holds h.world.store.keyspace key sd) {turns : List (List (List Bytes))}
    (hturns : turns ≠ []) (id : StreamId) :
    let r := xread_waiting key h turns
    let final := stream_of r.2.world.store.keyspace key
    id ∈ returned_ids r.1 ↔ final.last_id < id ∧ final.entries.contains id = true := by
  induction turns generalizing h sd with
  | nil => exact absurd rfl hturns
  | cons adds turns ih =>
    obtain ⟨sd₁, hholds₁, -⟩ := add_all_holds hholds adds
    have hlook := run_xri_dollar hholds₁
    -- a turn that ends the waiting, or the last one
    have hthis : id ∈ returned_ids (.ok (read_reply (key_reply key (sd₁.after sd₁.last_id))) :
        Except Halt (Reply F)) ↔ (stream_of (add_all key h adds).world.store.keyspace key).last_id < id ∧
          (stream_of (add_all key h adds).world.store.keyspace key).entries.contains id = true := by
      rw [hholds₁.stream_of_eq, mem_returned_ids, mem_after_ids]
    unfold xread_waiting
    dsimp only
    rw [hlook]
    cases hentries : sd₁.after sd₁.last_id with
    | cons e rest =>
      rw [hentries] at hthis
      exact hthis
    | nil =>
      rw [hentries] at hthis
      cases turns with
      | nil => exact hthis
      | cons adds' turns => exact ih (h := ⟨_, _⟩) hholds₁ (List.cons_ne_nil _ _)

def entry_args (id : String) : List Bytes := [id, "f", "v"].map as_bytes

/-- A stream with the entry 5-0, at 5 ms. -/
def first_entry : World Resp.Infinity :=
  ((xadd (as_bytes "k" :: entry_args "5-0") : StoreM Resp.Infinity _).run World.step
    (timed_world fun _ => 5)).2

end ValkeyRs.Streams
