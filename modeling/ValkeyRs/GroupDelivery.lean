/-
What a consumer group hands out.

`XREADGROUP .. STREAMS key >` gives out the entries behind the last ID the group has given out, and
moves that ID on. When the IDs of new entries exceed those that are there, what has been handed out
so far and what is behind the last ID make up, one after the other, the entries behind the ID the
group started from. Every read takes its entries off the front of the second part.
-/
import ValkeyRs.StreamIds

set_option autoImplicit false

open ValkeyRs Text Storage Zset Strings Maps Runs List

namespace ValkeyRs.Streams

variable {F : Type} [Score F]

/-! ## The entries behind an ID -/

section Entries

variable {sd : StreamData} {id x : StreamId}

theorem after_pairwise (sd : StreamData) (x : StreamId) :
    (sd.after x).Pairwise fun e e' => e.1 < e'.1 := by
  refine List.Pairwise.filter _ ?_
  have hkeys := Std.ExtTreeMap.ordered_keys_toList (t := sd.entries)
  exact hkeys.imp fun {e e'} h => by
    exact compare_lt_iff_lt.mp h

theorem mem_after {e : StreamId × Fields} :
    e ∈ sd.after x ↔ sd.entries[e.1]? = some e.2 ∧ x < e.1 := by
  unfold StreamData.after
  rw [List.mem_filter, decide_eq_true_eq, Std.ExtTreeMap.mem_toList_iff_getElem?_eq_some]

theorem eq_of_pairwise {l l' : List (StreamId × Fields)} (h : l.Pairwise fun e e' => e.1 < e'.1)
    (h' : l'.Pairwise fun e e' => e.1 < e'.1) (hmem : ∀ e, e ∈ l ↔ e ∈ l') : l = l' := by
  have hnodup : l.Nodup := h.imp fun {e e'} hlt heq => absurd (congrArg Prod.fst heq) hlt.ne
  have hnodup' : l'.Nodup := h'.imp fun {e e'} hlt heq => absurd (congrArg Prod.fst heq) hlt.ne
  refine List.Perm.eq_of_pairwise (fun e e' _ _ hlt hlt' => absurd hlt (lt_asymm hlt')) h h' ?_
  exact (perm_ext_iff_of_nodup hnodup hnodup').mpr hmem

theorem after_add (hnew : ∀ id', sd.entries.contains id' → id' < id) (fields : Fields) :
    (sd.add id fields).after x = sd.after x ++ if x < id then [(id, fields)] else [] := by
  have hlast : ∀ e ∈ sd.after x, e.1 < id := by
    intro e he
    refine hnew e.1 ?_
    rw [Std.ExtTreeMap.contains_eq_isSome_getElem?, (mem_after.mp he).1]
    rfl
  have hself : ¬ sd.entries.contains id := fun h => absurd (hnew id h) (lt_irrefl id)
  refine eq_of_pairwise (after_pairwise _ _) ?_ fun e => ?_
  · refine pairwise_append.mpr ⟨after_pairwise sd x, ?_, ?_⟩
    · split
      · exact pairwise_singleton _ _
      · exact List.Pairwise.nil
    · intro e he e' he'
      split at he'
      · rw [mem_singleton.mp he']
        exact hlast e he
      · cases he'
  · rw [mem_after, mem_append, mem_after]
    unfold StreamData.add
    rw [Std.ExtTreeMap.getElem?_insert]
    by_cases heq : compare id e.1 = .eq
    · have hid := Std.LawfulEqCmp.eq_of_compare heq
      rw [if_pos heq, ← hid]
      have hnone : sd.entries[id]? = none := by
        rw [Std.ExtTreeMap.contains_eq_isSome_getElem?] at hself
        simpa using hself
      rw [hnone]
      by_cases hx : x < id
      · rw [if_pos hx, mem_singleton]
        constructor
        · rintro ⟨hf, -⟩
          exact .inr (Prod.ext hid.symm (Option.some.inj hf).symm)
        · rintro (⟨hf, -⟩ | rfl)
          · cases hf
          · exact ⟨rfl, hx⟩
      · rw [if_neg hx]
        constructor
        · rintro ⟨-, hlt⟩
          exact absurd hlt hx
        · rintro (⟨hf, -⟩ | hf)
          · cases hf
          · cases hf
    · rw [if_neg heq]
      constructor
      · exact fun h => .inl h
      · rintro (h | h)
        · exact h
        · split at h
          · rw [mem_singleton.mp h] at heq
            exact absurd Std.ReflCmp.compare_self heq
          · cases h

theorem after_last {taken rest : List (StreamId × Fields)} {e : StreamId × Fields}
    (h : sd.after x = (taken ++ [e]) ++ rest) : sd.after e.1 = rest := by
  have hsorted := after_pairwise sd x
  have hxe : x < e.1 := (mem_after.mp (show e ∈ sd.after x by rw [h]; simp)).2
  have hfilter : sd.after e.1 = (sd.after x).filter fun e' => decide (e.1 < e'.1) := by
    unfold StreamData.after
    rw [filter_filter]
    refine filter_congr fun e' _ => ?_
    by_cases hlt : e.1 < e'.1
    · rw [decide_eq_true hlt, decide_eq_true (hxe.trans hlt)]
      rfl
    · rw [decide_eq_false hlt]
      rfl
  rw [h] at hsorted hfilter
  obtain ⟨hfront, -, hcross⟩ := pairwise_append.mp hsorted
  rw [hfilter, filter_append]
  have hnone : (taken ++ [e]).filter (fun e' => decide (e.1 < e'.1)) = [] := by
    refine filter_eq_nil_iff.mpr fun e' he' => ?_
    rw [decide_eq_true_eq]
    rcases mem_append.mp he' with hmem | hmem
    · exact lt_asymm ((pairwise_append.mp hfront).2.2 e' hmem e (mem_singleton_self e))
    · rw [mem_singleton.mp hmem]
      exact lt_irrefl _
  have hall : rest.filter (fun e' => decide (e.1 < e'.1)) = rest := by
    refine filter_eq_self.mpr fun e' he' => ?_
    exact decide_eq_true (hcross e (by simp) e' he')
  rw [hnone, hall, nil_append]

end Entries

/-! ## Handing out -/

/-- `deliver` gives these entries, the first ones of those that are there, to a consumer. -/
structure Delivered (cn : String) (noack : Bool) (g g' : ConsumerGroup)
    (taken : List (StreamId × Fields)) : Prop where
  last : g'.last_delivered_id = (taken.getLast?.map Prod.fst).getD g.last_delivered_id
  consumers : g'.consumers = g.consumers
  others : ∀ id, id ∉ taken.map Prod.fst → g'.pending[id]? = g.pending[id]?
  pending : noack = false → ∀ id ∈ taken.map Prod.fst,
    ∃ pe, g'.pending[id]? = some pe ∧ pe.consumer = cn
  unchanged : noack = true → g'.pending = g.pending

theorem Delivered.nil (cn : String) (noack : Bool) (g : ConsumerGroup) : Delivered cn noack g g [] :=
  ⟨rfl, rfl, fun _ _ => rfl, nofun, fun _ => rfl⟩

theorem Delivered.cons {cn : String} {noack : Bool} {g g₁ g' : ConsumerGroup} {e : StreamId × Fields}
    {taken : List (StreamId × Fields)} (h : Delivered cn noack g₁ g' taken)
    (hlast : g₁.last_delivered_id = e.1) (hconsumers : g₁.consumers = g.consumers)
    (hpending : noack = false → ∃ now, g₁.pending = g.pending.insert e.1 (.new cn now))
    (hunchanged : noack = true → g₁.pending = g.pending) : Delivered cn noack g g' (e :: taken) where
  last := by
    rw [h.last, hlast]
    cases taken with
    | nil => rfl
    | cons e' taken => rw [List.getLast?_cons_cons, List.getLast?_cons]; rfl
  consumers := h.consumers.trans hconsumers
  others id hid := by
    rw [map_cons, mem_cons, not_or] at hid
    rw [h.others id hid.2]
    cases hnoack : noack with
    | true => rw [hunchanged hnoack]
    | false =>
      obtain ⟨now, hnow⟩ := hpending hnoack
      rw [hnow, Maps.insert_of_ne hid.1]
  pending hnoack id hid := by
    -- an ID that comes once more is noted down once more, for the same consumer
    by_cases hmore : id ∈ taken.map Prod.fst
    · exact h.pending hnoack id hmore
    · rw [map_cons, mem_cons] at hid
      have hide : id = e.1 := hid.resolve_right hmore
      obtain ⟨now, hnow⟩ := hpending hnoack
      refine ⟨.new cn now, ?_, rfl⟩
      rw [h.others id hmore, hnow, hide, Std.ExtTreeMap.getElem?_insert_self]
  unchanged hnoack := (h.unchanged hnoack).trans (hunchanged hnoack)

section Reading

variable {C : Instant → Prop} {m : HashMap Bytes (Entry F)} {key : Bytes} {sd : StreamData}

/-- What `deliver` comes to: it takes some entries off the front, and all of them if there is no
count. -/
theorem deliver_wp (cn : String) (noack : Bool) (count : Option ℕ)
    (todo done : List (StreamId × Fields)) (g : ConsumerGroup) :
    (deliver cn noack count todo done g).Wp (may C) (fun r m' =>
      m' = m ∧ ∃ taken rest g', r = .ok (done ++ taken, g') ∧ todo = taken ++ rest ∧
        (count = none → rest = []) ∧ Delivered cn noack g g' taken) m := by
  induction todo generalizing done g with
  | nil => exact ⟨rfl, [], [], g, by rw [append_nil], rfl, fun _ => rfl, .nil cn noack g⟩
  | cons e todo ih =>
    -- the rest of the loop, from the group in which the entry has been noted down
    have hrest : ∀ g₁ : ConsumerGroup, g₁.last_delivered_id = e.1 → g₁.consumers = g.consumers →
        (noack = false → ∃ now, g₁.pending = g.pending.insert e.1 (.new cn now)) →
        (noack = true → g₁.pending = g.pending) →
        (if reached count (done ++ [e]).length then return (done ++ [e], g₁)
          else deliver cn noack count todo (done ++ [e]) g₁ : StoreM F _).Wp (may C) (fun r m' =>
            m' = m ∧ ∃ taken rest g', r = .ok (done ++ taken, g') ∧ e :: todo = taken ++ rest ∧
              (count = none → rest = []) ∧ Delivered cn noack g g' taken) m := by
      intro g₁ hlast hconsumers hpending hunchanged
      by_cases hreached : reached count (done ++ [e]).length
      · rw [if_pos hreached]
        refine ⟨rfl, [e], todo, g₁, rfl, rfl, ?_, ?_⟩
        · rintro rfl
          cases hreached
        · exact (Delivered.nil cn noack g₁).cons hlast hconsumers hpending hunchanged
      · rw [if_neg hreached]
        refine (ih (done ++ [e]) g₁).mono ?_
        rintro r m' ⟨hm, taken, rest, g', hr, htodo, hcount, hdel⟩
        refine ⟨hm, e :: taken, rest, g', ?_, ?_, hcount, ?_⟩
        · rw [hr, append_assoc, singleton_append]
        · rw [htodo, cons_append]
        · exact hdel.cons hlast hconsumers hpending hunchanged
    cases noack with
    | true => exact hrest _ rfl rfl (fun h => (nomatch h)) fun _ => rfl
    | false =>
      exact wp_now.mpr fun now _ => hrest _ rfl rfl (fun _ => ⟨now, rfl⟩) fun h => (nomatch h)

theorem ensure_consumer_wp (cn : String) (g : ConsumerGroup) :
    (ensure_consumer cn g).Wp (may C) (fun r m' => m' = m ∧ ∃ g', r = .ok g' ∧
      g'.last_delivered_id = g.last_delivered_id ∧ g'.pending = g.pending ∧
      ∀ cn', g'.consumers.contains cn' = (g.consumers.contains cn' || cn' == cn)) m := by
  unfold ensure_consumer
  by_cases hknown : g.consumers.contains cn
  · rw [if_pos hknown]
    refine ⟨rfl, g, rfl, rfl, rfl, fun cn' => ?_⟩
    by_cases heq : cn' = cn
    · rw [heq, hknown]
      rfl
    · rw [beq_false_of_ne heq, Bool.or_false]
  · rw [if_neg hknown]
    refine wp_now.mpr fun now _ => ⟨rfl, _, rfl, rfl, rfl, fun cn' => ?_⟩
    rw [Std.ExtTreeMap.contains_insert, Bool.or_comm]
    by_cases heq : cn' = cn
    · rw [heq]
      simp
    · rw [beq_false_of_ne heq]
      have hne : compare cn cn' ≠ .eq := fun h => heq (Std.LawfulEqCmp.eq_of_compare h).symm
      simp [hne]

theorem wp_find_stream {α : Type} {Q : Except Halt α → HashMap Bytes (Entry F) → Prop}
    (h : Holds m key sd) {f : Option StreamData → StoreM F α}
    (hf : (f (some sd)).Wp (may C) Q m) : (find_stream key >>= f).Wp (may C) Q m := by
  unfold find_stream
  rw [Prog.bind_assoc]
  refine wp_access.mpr ?_
  rw [alter_eq_self rfl]
  cases he : m[key]? with
  | none =>
    rw [h.absent he] at hf
    exact hf
  | some e =>
    dsimp only
    rw [(h.found e he).1]
    exact hf

/-- What XREADGROUP is asked for, with the streams and their IDs. -/
structure GroupRequest where
  group : String
  consumer : String
  options : ReadOptions
  streams : List (Bytes × Bytes)
  deriving Repr, DecidableEq

def group_request (args : List Bytes) : Except Halt GroupRequest :=
  if args.length < 5 then err (wrong_number "xreadgroup")
  else match args with
  | word :: gn :: cn :: rest => do
    if to_ascii_uppercase (← s word) ≠ "GROUP" then err "ERR syntax error" else do
    let gn ← s gn
    let cn ← s cn
    let (opts, streams) ← xreadgroup_options rest ⟨none, none, false⟩
    return ⟨gn, cn, opts, streams⟩
  | _ => err (wrong_number "xreadgroup")

theorem xreadgroup_eq (args : List Bytes) :
    (xreadgroup args : StoreM F (Reply F)) = (liftM (group_request args) : StoreM F _) >>= fun r =>
      xreadgroup_streams r.group r.consumer r.options r.streams [] := by
  unfold xreadgroup group_request
  by_cases hlen : args.length < 5
  · rw [if_pos hlen, if_pos hlen]
    rfl
  · rw [if_neg hlen, if_neg hlen]
    match args with
    | [] | [_] | [_, _] => rfl
    | word :: gn :: cn :: rest =>
      simp only [Prog.lift_ite, Prog.ite_bind, Prog.lift_bind, Prog.bind_assoc, Prog.lift_pure_bind,
        lift_err_bind]

def new_entries : Bytes := as_bytes ">"

/-- **One read.** The first entries behind the last one go to the consumer. -/
theorem read_new_leads (h : Holds m key sd) {gn cn : String} {g : ConsumerGroup}
    (hg : sd.groups[gn]? = some g) (opts : ReadOptions) :
    Leads C m key (xreadgroup_streams gn cn opts [(key, new_entries)] [])
      fun r sd' => ∃ taken rest g₁ g', r = .ok (read_reply (key_reply key taken)) ∧
        sd' = { sd with groups := sd.groups.insert gn g' } ∧
        sd.after g.last_delivered_id = taken ++ rest ∧ (opts.count = none → rest = []) ∧
        g₁.last_delivered_id = g.last_delivered_id ∧ g₁.pending = g.pending ∧
        Delivered cn opts.noack g₁ g' taken := by
  have hs : s new_entries = .ok ">" := by decide
  unfold xreadgroup_streams
  rw [hs]
  refine wp_find_stream h ?_
  dsimp only
  rw [hg]
  dsimp only
  unfold read_group
  rw [Prog.bind_assoc]
  refine Prog.Wp.bind (ensure_consumer_wp cn g) ?_ (fun e m' h => (nomatch h.2.choose_spec.1))
  rintro _ _ ⟨rfl, g₁, hg₁, hlast, hpending, -⟩
  cases hg₁
  rw [if_pos rfl, hlast]
  refine Prog.Wp.bind (deliver_wp cn opts.noack opts.count _ [] _) ?_ ?_
  · rintro _ _ ⟨rfl, taken, rest, g', hr, htodo, hcount, hdel⟩
    cases hr
    refine wp_save_stream h fun m₂ hothers h₂ => ?_
    exact ⟨hothers, _, h₂, taken, rest, _, g', rfl, rfl, htodo, hcount, hlast, hpending, hdel⟩
  · rintro _ _ ⟨-, _, _, _, hr, -⟩
    cases hr

end Reading

/-! ## Histories -/

def returned_entries : Except Halt (Reply F) → List (Reply F)
  | .ok (.Array (some [.Array (some [_, .Array (some entries)])])) => entries
  | _ => []

omit [Score F] in
theorem returned_entries_read (key : Bytes) (taken : List (StreamId × Fields)) :
    returned_entries (.ok (read_reply (key_reply key taken)) : Except Halt (Reply F)) =
      taken.map entry_reply := by
  cases taken <;> rfl

/-- A new entry in the stream, or a read of the group. -/
inductive GroupEvent where
  | insert (args : List Bytes)
  | read (args : List Bytes)
  deriving Repr, DecidableEq

def GroupEvent.handler (key : Bytes) : GroupEvent → StoreM F (Reply F)
  | .insert args => xadd (key :: args)
  | .read args => xreadgroup args

def GroupEvent.receiver : GroupEvent → Option String
  | .insert _ => none
  | .read args =>
    match group_request args with
    | .ok request => if request.options.noack then none else some request.consumer
    | .error _ => none

/-- The world, the entries that have been handed out, and those without NOACK with the consumer they
were given to. -/
structure Handout (F : Type) [LinearOrder F] where
  world : World F
  returned : List (Reply F)
  given : List (Reply F × String)

def GroupEvent.entries : GroupEvent → Except Halt (Reply F) → List (Reply F)
  | .insert _, _ => []
  | .read _, r => returned_entries r

def Handout.step (key : Bytes) (h : Handout F) (e : GroupEvent) : Handout F :=
  let r := (e.handler key : StoreM F (Reply F)).run World.step h.world
  ⟨r.2, h.returned ++ e.entries r.1,
    h.given ++ (e.receiver.toList.flatMap fun cn => (e.entries r.1).map (·, cn))⟩

/-- A new entry has an ID behind all that are there, and a read is one of the new entries of this
stream for this group. -/
def Allowed (key : Bytes) (gn : String) (h : Handout F) : GroupEvent → Prop
  | .insert args =>
    let sd := stream_of h.world.store.keyspace key
    ∀ opts req fields id, xadd_args args = .ok (opts, req, fields) →
      sd.generate_id (World.now_ms h.world) req = .ok id →
      opts.maxlen = none ∧ ∀ id', sd.entries.contains id' → id' < id
  | .read args =>
    ∀ request, group_request args = .ok request → request.group = gn ∧
      request.streams = [(key, new_entries)]

/-- What has been handed out and what is behind the last ID of the group make up what is behind the
first one. -/
structure Handout.Sound (key : Bytes) (gn : String) (start : StreamId) (h : Handout F)
    (sd : StreamData) (g : ConsumerGroup) (done : List (StreamId × Fields)) : Prop where
  holds : Holds h.world.store.keyspace key sd
  group : sd.groups[gn]? = some g
  returned : h.returned = done.map entry_reply
  parts : sd.after start = done ++ sd.after g.last_delivered_id
  last : g.last_delivered_id = start ∨
    start < g.last_delivered_id ∧ sd.entries.contains g.last_delivered_id = true
  given : ∀ p ∈ h.given, ∃ e ∈ done, p.1 = entry_reply e ∧
    ∃ pe, g.pending[e.1]? = some pe ∧ pe.consumer = p.2

section Steps

variable {key : Bytes} {gn : String} {start : StreamId} {h : Handout F} {sd : StreamData}
  {g : ConsumerGroup} {done : List (StreamId × Fields)}

theorem insert_step (hs : h.Sound key gn start sd g done) {args : List Bytes}
    (hallowed : Allowed key gn h (.insert args)) :
    ∃ sd', (h.step key (.insert args)).Sound key gn start sd' g done := by
  have hsd : stream_of h.world.store.keyspace key = sd := hs.holds.stream_of_eq
  -- an insertion hands out nothing
  have hreturned : (h.step key (.insert args)).returned = h.returned := append_nil _
  have hgiven : (h.step key (.insert args)).given = h.given := append_nil _
  have hsame : Holds (h.step key (.insert args)).world.store.keyspace key sd →
      ∃ sd', (h.step key (.insert args)).Sound key gn start sd' g done := fun hholds =>
    ⟨sd, hholds, hs.group, hreturned.trans hs.returned, hs.parts, hs.last, hgiven ▸ hs.given⟩
  rcases run_xadd hs.holds args with ⟨-, hholds⟩ | ⟨opts, req, fields, hargs, hadded⟩
  · exact hsame hholds
  unfold Added at hadded
  cases hid : sd.generate_id (World.now_ms h.world) req with
  | error e =>
    rw [hid] at hadded
    exact hsame hadded.2
  | ok id =>
    rw [hid] at hadded
    obtain ⟨hmaxlen, hnew⟩ := hallowed opts req fields id hargs (hsd.symm ▸ hid)
    rw [hsd] at hnew
    rw [hmaxlen] at hadded
    refine ⟨sd.add id fields, hadded.2, hs.group, hreturned.trans hs.returned, ?_, ?_,
      hgiven ▸ hs.given⟩
    · -- the new entry is behind the last ID exactly when it is behind the first one
      have hiff : g.last_delivered_id < id ↔ start < id := by
        rcases hs.last with hlast | ⟨hlt, hlast⟩
        · rw [hlast]
        · exact iff_of_true (hnew _ hlast) (hlt.trans (hnew _ hlast))
      rw [after_add hnew, after_add hnew, hs.parts, append_assoc, if_congr hiff rfl rfl]
    · refine hs.last.imp_right fun ⟨hlt, hlast⟩ => ⟨hlt, ?_⟩
      unfold StreamData.add
      rw [Std.ExtTreeMap.contains_insert, hlast, Bool.or_true]

theorem Handout.Sound.read (hs : h.Sound key gn start sd g done) {w' : World F}
    {g₁ g' : ConsumerGroup} {taken rest : List (StreamId × Fields)} {cn : String} {noack : Bool}
    (hholds : Holds w'.store.keyspace key { sd with groups := sd.groups.insert gn g' })
    (hrest : sd.after g.last_delivered_id = taken ++ rest)
    (hlast : g₁.last_delivered_id = g.last_delivered_id) (hpending : g₁.pending = g.pending)
    (hdel : Delivered cn noack g₁ g' taken) {given : List (Reply F × String)}
    (hgiven : ∀ p ∈ given, noack = false ∧ p.2 = cn ∧ ∃ e ∈ taken, p.1 = entry_reply e) :
    (⟨w', h.returned ++ taken.map entry_reply, h.given ++ given⟩ : Handout F).Sound key gn start
      { sd with groups := sd.groups.insert gn g' } g' (done ++ taken) ∧
      sd.after g'.last_delivered_id = rest := by
  -- the last ID is where it was, or that of the last entry
  obtain ⟨hbehind, hlast'⟩ : sd.after g'.last_delivered_id = rest ∧
      (g'.last_delivered_id = start ∨
        start < g'.last_delivered_id ∧ sd.entries.contains g'.last_delivered_id = true) := by
    rcases eq_nil_or_concat taken with rfl | ⟨front, e, rfl⟩
    · have hsame : g'.last_delivered_id = g.last_delivered_id := hdel.last.trans hlast
      rw [hsame]
      exact ⟨hrest, hs.last⟩
    · have hmoved : g'.last_delivered_id = e.1 := by
        rw [hdel.last, concat_eq_append, List.getLast?_concat]
        rfl
      rw [concat_eq_append] at hrest
      rw [hmoved]
      have hmem : e ∈ sd.after start := by
        rw [hs.parts, hrest]
        simp
      obtain ⟨hfound, hlt⟩ := mem_after.mp hmem
      refine ⟨after_last hrest, .inr ⟨hlt, ?_⟩⟩
      rw [Std.ExtTreeMap.contains_eq_isSome_getElem?, hfound]
      rfl
  have hparts : sd.after start = done ++ taken ++ rest := by
    rw [hs.parts, hrest, append_assoc]
  refine ⟨⟨hholds, ?_, ?_, ?_, hlast', ?_⟩, hbehind⟩
  · exact Std.ExtTreeMap.getElem?_insert_self
  · rw [map_append, ← hs.returned]
  · exact hparts.trans (congrArg (done ++ taken ++ ·) hbehind.symm)
  · intro p hp
    rcases mem_append.mp hp with hold | hnew
    · obtain ⟨e, he, hreply, pe, hpe, hcn⟩ := hs.given p hold
      refine ⟨e, mem_append_left _ he, hreply, pe, ?_, hcn⟩
      -- its ID is in front of those that are handed out now
      have hfresh : e.1 ∉ taken.map Prod.fst := by
        intro hmem
        obtain ⟨e', he', heq⟩ := mem_map.mp hmem
        have hsorted := after_pairwise sd start
        rw [hparts] at hsorted
        have hcross := (pairwise_append.mp (pairwise_append.mp hsorted).1).2.2 e he e' he'
        exact absurd heq.symm hcross.ne
      rw [hdel.others e.1 hfresh, hpending]
      exact hpe
    · obtain ⟨hnoack, hcn, e, he, hreply⟩ := hgiven p hnew
      obtain ⟨pe, hpe, hpc⟩ := hdel.pending hnoack e.1 (mem_map_of_mem he)
      exact ⟨e, mem_append_right _ he, hreply, pe, hpe, hpc.trans hcn.symm⟩

theorem read_error_step {args : List Bytes} {e : Halt} (hrequest : group_request args = .error e) :
    h.step key (.read args) = h := by
  have hrun : (xreadgroup args : StoreM F (Reply F)).run World.step h.world =
      (.error e, h.world) := by
    rw [xreadgroup_eq, hrequest]
    rfl
  have hreceiver : (GroupEvent.read args).receiver = none := by
    dsimp only [GroupEvent.receiver]
    rw [hrequest]
  unfold Handout.step
  rw [hreceiver]
  dsimp only [GroupEvent.handler, GroupEvent.entries]
  rw [hrun]
  show (⟨h.world, h.returned ++ [], h.given ++ []⟩ : Handout F) = h
  rw [append_nil, append_nil]

/-- **One read.** What has been handed out stays an initial part of the entries, and is all of them
if there is no COUNT. -/
theorem read_step (hs : h.Sound key gn start sd g done) {args : List Bytes}
    (hallowed : Allowed key gn h (.read args)) :
    ∃ sd' g' done', (h.step key (.read args)).Sound key gn start sd' g' done' ∧
      ∀ request, group_request args = .ok request → request.options.count = none →
        done' = sd.after start := by
  cases hrequest : group_request args with
  | error e =>
    rw [read_error_step hrequest]
    exact ⟨sd, g, done, hs, nofun⟩
  | ok request =>
    obtain ⟨gn', cn, opts, streams⟩ := request
    obtain ⟨rfl, rfl⟩ := hallowed _ hrequest
    have hrun : (xreadgroup args : StoreM F (Reply F)) =
        xreadgroup_streams gn' cn opts [(key, new_entries)] [] := by
      rw [xreadgroup_eq, hrequest]
      rfl
    have hleads : Leads (fun _ => True) h.world.store.keyspace key
        (xreadgroup args : StoreM F (Reply F)) _ := hrun ▸ read_new_leads hs.holds hs.group opts
    obtain ⟨-, sd', hholds, taken, rest, g₁, g', hr, rfl, hrest, hcount, hlast, hpending, hdel⟩ :=
      run_of_wp hleads fun _ => trivial
    have hreceiver : (GroupEvent.read args).receiver = if opts.noack then none else some cn := by
      dsimp only [GroupEvent.receiver]
      rw [hrequest]
    have hstep : h.step key (.read args) =
        ⟨((xreadgroup args : StoreM F (Reply F)).run World.step h.world).2,
          h.returned ++ taken.map entry_reply,
          h.given ++ (if opts.noack then none else some cn).toList.flatMap fun cn =>
            (taken.map entry_reply).map (·, cn)⟩ := by
      unfold Handout.step
      rw [hreceiver]
      dsimp only [GroupEvent.handler, GroupEvent.entries]
      rw [hr, returned_entries_read]
    have hgiven : ∀ p ∈ (if opts.noack then none else some cn).toList.flatMap fun cn =>
        (taken.map (entry_reply : _ → Reply F)).map (·, cn),
        opts.noack = false ∧ p.2 = cn ∧ ∃ e ∈ taken, p.1 = entry_reply e := by
      intro p hp
      cases hnoack : opts.noack with
      | true =>
        rw [hnoack] at hp
        cases hp
      | false =>
        rw [hnoack] at hp
        obtain ⟨_, hcn, hp⟩ := mem_flatMap.mp hp
        cases mem_singleton.mp hcn
        obtain ⟨reply, hreply, rfl⟩ := mem_map.mp hp
        obtain ⟨e, he, rfl⟩ := mem_map.mp hreply
        exact ⟨rfl, rfl, e, he, rfl⟩
    obtain ⟨hsound, hbehind⟩ := hs.read hholds hrest hlast hpending hdel hgiven
    rw [hstep]
    refine ⟨_, g', done ++ taken, hsound, ?_⟩
    rintro request hreq hnone
    cases hreq
    rw [hs.parts, hrest, hcount hnone, append_nil]

end Steps

/-- **Exactly once.** In every run of insertions behind all entries and reads of one group, what the
reads return makes up, in order, an initial part of the entries behind the ID the group started from;
a read without COUNT completes it; and what has to be acknowledged is pending under the consumer it
was given to. -/
theorem handed_out_once (key : Bytes) (gn : String) (w : World F) (sd : StreamData)
    (g : ConsumerGroup) (events : List GroupEvent) (hholds : Holds w.store.keyspace key sd)
    (hg : sd.groups[gn]? = some g)
    (h : Along (Handout.step key) (Allowed key gn) ⟨w, [], []⟩ events) :
    let final := run (Handout.step key) ⟨w, [], []⟩ events
    let entries := (stream_of final.world.store.keyspace key).after g.last_delivered_id
    entries.Pairwise (fun e e' => e.1 < e'.1) ∧
      final.returned <+: entries.map entry_reply ∧
      (∀ args request, group_request args = .ok request → request.group = gn →
        request.streams = [(key, new_entries)] → request.options.count = none →
        (final.step key (.read args)).returned = entries.map entry_reply) ∧
      ∀ p ∈ final.given, ∃ e ∈ entries, p.1 = entry_reply e ∧
        ∃ g', (stream_of final.world.store.keyspace key).groups[gn]? = some g' ∧
          ∃ pe, g'.pending[e.1]? = some pe ∧ pe.consumer = p.2 := by
  intro final entries
  have hinit : ∃ sd' g' done, (⟨w, [], []⟩ : Handout F).Sound key gn g.last_delivered_id sd' g' done :=
    ⟨sd, g, [], hholds, hg, rfl, rfl, .inl rfl, nofun⟩
  obtain ⟨sd', g', done, hs⟩ : ∃ sd' g' done,
      final.Sound key gn g.last_delivered_id sd' g' done := by
    refine h.invariant (I := fun s => ∃ sd' g' done,
      s.Sound key gn g.last_delivered_id sd' g' done) (fun s e hallowed hs => ?_) hinit
    obtain ⟨sd', g', done, hs⟩ := hs
    cases e with
    | insert args =>
      obtain ⟨sd'', hs'⟩ := insert_step hs hallowed
      exact ⟨sd'', g', done, hs'⟩
    | read args =>
      obtain ⟨sd'', g'', done', hs', -⟩ := read_step hs hallowed
      exact ⟨sd'', g'', done', hs'⟩
  have hsd : stream_of final.world.store.keyspace key = sd' := hs.holds.stream_of_eq
  have hentries : entries = sd'.after g.last_delivered_id := by
    rw [← hsd]
  have hsub : ∀ e ∈ done, e ∈ entries := by
    intro e he
    rw [hentries, hs.parts]
    exact mem_append_left _ he
  refine ⟨after_pairwise _ _, ?_, ?_, ?_⟩
  · rw [hentries, hs.parts, map_append, hs.returned]
    exact prefix_append _ _
  · rintro args request hrequest hgn hstreams hcount
    have hallowed : Allowed key gn final (.read args) := by
      rintro request' hrequest'
      cases hrequest.symm.trans hrequest'
      exact ⟨hgn, hstreams⟩
    obtain ⟨sd'', g'', done', hs', hall⟩ := read_step hs hallowed
    rw [hs'.returned, hall request hrequest hcount, hentries]
  · intro p hp
    obtain ⟨e, he, hreply, pe, hpe, hcn⟩ := hs.given p hp
    exact ⟨e, hsub e he, hreply, g', hsd.symm ▸ hs.group, pe, hpe, hcn⟩

/-- A stream with one group, which starts from the beginning. -/
def grouped_stream : StreamData :=
  { StreamData.new with groups := (∅ : HashMap String _).insert "g" (.new "g" ⟨0, 0⟩ 0) }

def grouped_world : World Resp.Infinity :=
  let w : World Resp.Infinity := .new .still
  { w with store := { w.store with
    keyspace := (∅ : HashMap Bytes _).insert (as_bytes "k") ⟨.Stream grouped_stream, none, 0, 0, 0⟩ } }

def read_group_args : List Bytes := ["GROUP", "g", "c", "STREAMS", "k", ">"].map as_bytes

/-- A new entry goes to the first who reads. -/
theorem handed_out_once_one :
    let final := run (Handout.step (as_bytes "k")) ⟨grouped_world, [], []⟩
      [.insert (["7-1", "f", "v"].map as_bytes)]
    (final.step (as_bytes "k") (.read read_group_args)).returned =
      [entry_reply (⟨7, 1⟩, [(as_bytes "f", as_bytes "v")])] := by
  have hholds : Holds grouped_world.store.keyspace (as_bytes "k") grouped_stream := by
    refine ⟨fun e he => ?_, fun h => ?_⟩
    · have hfound : grouped_world.store.keyspace[as_bytes "k"]? =
          some ⟨.Stream grouped_stream, none, 0, 0, 0⟩ := Std.ExtTreeMap.getElem?_insert_self
      cases hfound.symm.trans he
      exact ⟨rfl, rfl⟩
    · cases (Std.ExtTreeMap.getElem?_insert_self).symm.trans h
  have hrequest : group_request read_group_args =
      .ok ⟨"g", "c", ⟨none, none, false⟩, [(as_bytes "k", new_entries)]⟩ := by
    decide +kernel
  refine (handed_out_once (as_bytes "k") "g" grouped_world grouped_stream (.new "g" ⟨0, 0⟩ 0)
    [.insert (["7-1", "f", "v"].map as_bytes)] hholds rfl
    ⟨?_, trivial⟩).2.2.1 read_group_args _ hrequest rfl rfl rfl
  rintro opts req fields id hargs -
  cases hargs
  refine ⟨rfl, fun id' hid' => ?_⟩
  rw [hholds.stream_of_eq] at hid'
  cases hid'

end ValkeyRs.Streams
