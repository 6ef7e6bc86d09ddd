/-
The pending entries of a consumer group.

Consumers and pending entries are in two maps. XREADGROUP makes the consumer before it notes down
what it gives out, and moves the last ID of the group on; XACK takes entries away. Three commands can
break what ties the maps together: XGROUP DELCONSUMER leaves the entries of the consumer behind,
XCLAIM and XAUTOCLAIM give entries to a consumer whether there is one or not, and XCLAIM takes any
entry of the stream, handed out or not.
-/
import ValkeyRs.GroupDelivery

set_option autoImplicit false

open ValkeyRs Text Storage Zset Strings Maps Runs List

namespace ValkeyRs.Streams

variable {F : Type} [Score F]

/-! ## Groups in order -/

/-- Every pending entry is that of a consumer of the group, and has been handed out. -/
def SoundGroup (g : ConsumerGroup) : Prop :=
  ∀ (id : StreamId) (pe : PendingEntry), g.pending[id]? = some pe →
    g.consumers.contains pe.consumer = true ∧ id ≤ g.last_delivered_id

instance (g : ConsumerGroup) : Decidable (SoundGroup g) :=
  decidable_of_iff (∀ e ∈ g.pending.toList,
    g.consumers.contains e.2.consumer = true ∧ e.1 ≤ g.last_delivered_id)
    ⟨fun h id pe hpe => h (id, pe) (Std.ExtTreeMap.mem_toList_iff_getElem?_eq_some.mpr hpe),
      fun h e he => h e.1 e.2 (Std.ExtTreeMap.mem_toList_iff_getElem?_eq_some.mp he)⟩

def SoundStream (sd : StreamData) : Prop :=
  ∀ (gn : String) (g : ConsumerGroup), sd.groups[gn]? = some g → SoundGroup g

/-- Every key holds a stream that does not expire and whose groups are in order. -/
def AllSound (m : HashMap Bytes (Entry F)) : Prop :=
  ∀ (key : Bytes) (e : Entry F), m[key]? = some e →
    e.expires_at = none ∧ ∃ sd, e.data = .Stream sd ∧ SoundStream sd

theorem sound_new (name : String) (id : StreamId) (er : Int64) : SoundGroup (.new name id er) := by
  intro id' pe hpe
  unfold ConsumerGroup.new at hpe
  cases hpe

variable {sd : StreamData} {g : ConsumerGroup}

theorem SoundStream.insert (h : SoundStream sd) (hg : SoundGroup g) (gn : String) :
    SoundStream { sd with groups := sd.groups.insert gn g } := by
  intro gn' g' hg'
  obtain ⟨-, rfl⟩ | hg' := of_insert hg'
  · exact hg
  · exact h gn' g' hg'

theorem SoundStream.erase (h : SoundStream sd) (gn : String) :
    SoundStream { sd with groups := sd.groups.erase gn } := fun gn' g' hg' =>
  h gn' g' (of_erase hg')

theorem SoundStream.congr {sd' : StreamData} (h : SoundStream sd)
    (hgroups : sd'.groups = sd.groups) : SoundStream sd' := by
  unfold SoundStream
  rw [hgroups]
  exact h

/-- A pending entry may change as long as its consumer is one of the group, and has been handed
out. -/
theorem SoundGroup.insert (h : SoundGroup g) {id : StreamId} {pe : PendingEntry}
    (hconsumer : g.consumers.contains pe.consumer = true) (hid : id ≤ g.last_delivered_id) :
    SoundGroup { g with pending := g.pending.insert id pe } := by
  intro id' pe' hpe
  obtain ⟨rfl, rfl⟩ | hpe := of_insert hpe
  · exact ⟨hconsumer, hid⟩
  · exact h id' pe' hpe

/-- Handing out keeps a group in order, where the entries come behind the last ID and in order. -/
theorem Delivered.sound {cn : String} {noack : Bool} {g' : ConsumerGroup}
    {taken rest : List (StreamId × Fields)} (h : Delivered cn noack g g' taken)
    (hafter : sd.after g.last_delivered_id = taken ++ rest)
    (hcn : g.consumers.contains cn = true) (hg : SoundGroup g) : SoundGroup g' := by
  have htaken : ∀ e ∈ taken, g.last_delivered_id < e.1 ∧ e.1 ≤ g'.last_delivered_id := by
    intro e he
    have hmem : e ∈ sd.after g.last_delivered_id := hafter ▸ mem_append_left _ he
    refine ⟨(mem_after.mp hmem).2, ?_⟩
    rcases eq_nil_or_concat taken with rfl | ⟨front, e', rfl⟩
    · cases he
    · rw [h.last, concat_eq_append, List.getLast?_concat]
      rw [concat_eq_append] at he hafter
      have hsorted := after_pairwise sd g.last_delivered_id
      rw [hafter] at hsorted
      rcases mem_append.mp he with hfront | hlast
      · exact ((pairwise_append.mp (pairwise_append.mp hsorted).1).2.2 e hfront e'
          (mem_singleton_self e')).le
      · rw [mem_singleton.mp hlast]
        exact le_refl _
  have hmoved : g.last_delivered_id ≤ g'.last_delivered_id := by
    cases taken with
    | nil => exact h.last.ge
    | cons e taken =>
      obtain ⟨hlt, hle⟩ := htaken e mem_cons_self
      exact hlt.le.trans hle
  intro id pe hpe
  rw [h.consumers]
  by_cases hnew : noack = false ∧ id ∈ taken.map Prod.fst
  · obtain ⟨pe', hpe', hconsumer⟩ := h.pending hnew.1 id hnew.2
    cases hpe.symm.trans hpe'
    obtain ⟨e, he, rfl⟩ := mem_map.mp hnew.2
    rw [hconsumer]
    exact ⟨hcn, (htaken e he).2⟩
  · have hold : g.pending[id]? = some pe := by
      cases hnoack : noack with
      | true => exact h.unchanged hnoack ▸ hpe
      | false =>
        rw [h.others id fun hmem => hnew ⟨hnoack, hmem⟩] at hpe
        exact hpe
    exact ⟨(hg id pe hold).1, (hg id pe hold).2.trans hmoved⟩

/-! ## What the commands do to a group -/

section Groups

variable {C : Instant → Prop} {m : HashMap Bytes (Entry F)} {key : Bytes} {sd : StreamData}

/-- The loop gives a group in order, and touches nothing else. -/
def Settles {α : Type} (C : Instant → Prop) (m : HashMap Bytes (Entry F)) (p : StoreM F α)
    (group : α → ConsumerGroup) : Prop :=
  p.Wp (may C) (fun r m' => m' = m ∧ ∀ a, r = .ok a → SoundGroup (group a)) m

theorem settles_pure {α : Type} {group : α → ConsumerGroup} {a : α} (hg : SoundGroup (group a)) :
    Settles C m (pure a : StoreM F α) group := by
  refine ⟨rfl, fun a' ha => ?_⟩
  cases ha
  exact hg

theorem Settles.map {α β : Type} {p : StoreM F α} {group : α → ConsumerGroup}
    {group' : β → ConsumerGroup} {f : α → β} (h : Settles C m p group)
    (hf : ∀ a, group' (f a) = group a) : Settles C m (p >>= fun a => pure (f a)) group' := by
  refine .bind h ?_ ?_
  · rintro a _ ⟨rfl, hsettled⟩
    exact settles_pure (hf a ▸ hsettled _ rfl)
  · rintro e _ ⟨rfl, -⟩
    exact ⟨rfl, nofun⟩

variable {g : ConsumerGroup} {cn : String}

theorem ensure_consumer_settles (hg : SoundGroup g) (cn : String) :
    (ensure_consumer cn g).Wp (may C) (fun r m' => m' = m ∧ ∃ g', r = .ok g' ∧
      SoundGroup g' ∧ g'.consumers.contains cn = true) m := by
  refine (ensure_consumer_wp cn g).mono ?_
  rintro r m' ⟨rfl, g', rfl, hlast, hpending, hconsumers⟩
  refine ⟨rfl, g', rfl, fun id pe hpe => ?_, ?_⟩
  · rw [hpending] at hpe
    rw [hconsumers, hlast, (hg id pe hpe).1]
    exact ⟨rfl, (hg id pe hpe).2⟩
  · rw [hconsumers, beq_self_eq_true, Bool.or_true]

theorem redeliver_settles (sd : StreamData) (count : Option ℕ) (ids : List StreamId)
    (entries : List (StreamId × Fields)) (hg : SoundGroup g) :
    Settles C m (redeliver sd count ids entries g) Prod.snd := by
  induction ids generalizing entries g with
  | nil => exact settles_pure hg
  | cons sid ids ih =>
    -- the rest of the loop from a group in order
    have hrest : ∀ (entries : List (StreamId × Fields)) {g : ConsumerGroup}, SoundGroup g →
        Settles C m (if reached count entries.length then return (entries, g)
          else redeliver sd count ids entries g : StoreM F _) Prod.snd := by
      intro entries g hg
      exact .ite (fun _ => settles_pure hg) fun _ => ih entries hg
    unfold redeliver
    cases sd.entries[sid]? with
    | none => exact hrest entries hg
    | some fields =>
      cases hpe : g.pending[sid]? with
      | none => exact hrest _ hg
      | some pe =>
        obtain ⟨hconsumer, hid⟩ := hg sid pe hpe
        exact wp_now.mpr fun now _ => hrest _ (hg.insert hconsumer hid)

theorem read_group_settles (sd : StreamData) (id_str cn : String) (opts : ReadOptions)
    (hg : SoundGroup g) :
    Settles C m (read_group sd id_str cn opts g) Prod.snd := by
  refine .bind (ensure_consumer_settles hg cn) ?_ (fun e m' h => (nomatch h.2.choose_spec.1))
  rintro _ _ ⟨rfl, g₁, hg₁, hsound, hcn⟩
  cases hg₁
  refine .ite (fun _ => ?_) fun _ => redeliver_settles sd opts.count _ [] hsound
  refine (deliver_wp cn opts.noack opts.count _ [] _).mono ?_
  rintro r m' ⟨rfl, taken, rest, g', rfl, hafter, -, hdel⟩
  refine ⟨rfl, fun a ha => ?_⟩
  cases ha
  exact hdel.sound hafter hcn hsound

theorem xack_ids_sound {args : List Bytes} {c : ℕ} {r : ConsumerGroup × ℕ}
    (h : xack_ids args g c = .ok r) (hg : SoundGroup g) : SoundGroup r.1 := by
  induction args generalizing g c with
  | nil =>
    cases h
    exact hg
  | cons a args ih =>
    obtain ⟨text, -, h⟩ := Prog.bind_eq_ok h
    obtain ⟨id, -, h⟩ := Prog.bind_eq_ok h
    exact ih h fun id' pe hpe => hg id' pe (of_erase hpe)

theorem claim_one_settles new_idle {id : StreamId}
    (hg : SoundGroup g) (hcn : g.consumers.contains cn = true) (hid : id ≤ g.last_delivered_id) :
    (claim_one cn new_idle id g).Wp (may C) (fun r m' => m' = m ∧ ∃ g', r = .ok g' ∧
      SoundGroup g' ∧ g'.consumers = g.consumers ∧
      g'.last_delivered_id = g.last_delivered_id) m := by
  refine wp_now.mpr fun now _ => ?_
  cases g.pending[id]? with
  | none => exact ⟨rfl, _, rfl, hg.insert hcn hid, rfl, rfl⟩
  | some pe => exact ⟨rfl, _, rfl, hg.insert hcn hid, rfl, rfl⟩

theorem is_too_young_wp (mi : ℕ) (id : StreamId) (g : ConsumerGroup) :
    (is_too_young mi id g).Wp (may C)
      (fun r m' => m' = m ∧ ∃ b, r = .ok b) m := by
  unfold is_too_young
  cases g.pending[id]? with
  | none => exact ⟨rfl, _, rfl⟩
  | some pe => exact wp_now.mpr fun now _ => ⟨rfl, _, rfl⟩

theorem xclaim_ids_settles (mi : ℕ) (opts : ClaimOptions) (sd : StreamData)
    (ids : List StreamId) (claimed : List (Reply F)) (hg : SoundGroup g)
    (hcn : g.consumers.contains cn = true)
    (hids : ∀ id ∈ ids, sd.entries.contains id → id ≤ g.last_delivered_id) :
    Settles C m (xclaim_ids cn mi opts sd ids claimed g) Prod.fst := by
  induction ids generalizing claimed g with
  | nil => exact settles_pure hg
  | cons id ids ih =>
    have hrest : ∀ id ∈ ids, sd.entries.contains id → id ≤ g.last_delivered_id :=
      fun id' hid' => hids id' (mem_cons_of_mem _ hid')
    refine .ite (fun _ => ih claimed hg hcn hrest) fun hfound => ?_
    refine .bind (is_too_young_wp mi id g) ?_ (fun e m' h => (nomatch h.2.choose_spec))
    rintro b _ ⟨rfl, -⟩
    refine .ite (fun _ => ih claimed hg hcn hrest) fun _ => ?_
    have hid := hids id mem_cons_self (Bool.not_eq_false _ ▸ hfound)
    refine .bind (claim_one_settles opts.new_idle hg hcn hid) ?_
      (fun e m' h => (nomatch h.2.choose_spec.1))
    rintro _ _ ⟨rfl, g', hg', hsound, hconsumers, hlast⟩
    cases hg'
    refine ih _ hsound (hconsumers ▸ hcn) ?_
    rw [hlast]
    exact hrest

theorem xautoclaim_ids_settles (mi : ℕ) (opts : AutoclaimOptions) (sd : StreamData)
    (ids : List StreamId) (claimed : List (Reply F)) (cursor : StreamId)
    (hg : SoundGroup g) (hcn : g.consumers.contains cn = true)
    (hids : ∀ id ∈ ids, id ≤ g.last_delivered_id) :
    Settles C m (xautoclaim_ids cn mi opts sd ids claimed cursor g) Prod.fst := by
  induction ids generalizing claimed cursor g with
  | nil => exact settles_pure hg
  | cons id ids ih =>
    have hrest : ∀ id ∈ ids, id ≤ g.last_delivered_id :=
      fun id' hid' => hids id' (mem_cons_of_mem _ hid')
    refine .ite (fun _ => settles_pure hg) fun _ => ?_
    refine .bind (is_too_young_wp mi id g) ?_ (fun e m' h => (nomatch h.2.choose_spec))
    rintro b _ ⟨rfl, -⟩
    refine .ite (fun _ => ih claimed cursor hg hcn hrest) fun _ => ?_
    refine .bind (claim_one_settles none hg hcn (hids id mem_cons_self)) ?_
      (fun e m' h => (nomatch h.2.choose_spec.1))
    rintro _ _ ⟨rfl, g', hg', hsound, hconsumers, hlast⟩
    cases hg'
    refine ih _ _ hsound (hconsumers ▸ hcn) ?_
    rw [hlast]
    exact hrest

def StreamData.group (sd : StreamData) (gn : Bytes) : Option ConsumerGroup :=
  (s gn).toOption.bind fun name => sd.groups[name]?

theorem group_eq {gn : Bytes} {gns : String} (hgns : s gn = .ok gns)
    (hg : sd.groups[gns]? = some g) : StreamData.group sd gn = some g := by
  unfold StreamData.group
  rw [hgns]
  exact hg

/-- The stream that is left has its groups in order. -/
abbrev LeadsSound (C : Instant → Prop) (m : HashMap Bytes (Entry F)) (key : Bytes)
    (p : StoreM F (Reply F)) : Prop :=
  Leads C m key p fun _ sd' => SoundStream sd'

section OneKey

variable (h : Holds m key sd) (hs : SoundStream sd)

include h hs

theorem lift_leads {α : Type} {x : Except Halt α} {f : α → StoreM F (Reply F)}
    (hf : ∀ a, x = .ok a → LeadsSound C m key (f a)) :
    LeadsSound C m key (liftM x >>= f) :=
  .lift h (fun _ _ => hs) hf

theorem with_group_leads (gn : String)
    {f : StreamData → ConsumerGroup → StoreM F (ConsumerGroup × Reply F)}
    (hf : ∀ g, sd.groups[gn]? = some g → SoundGroup g → Settles C m (f sd g) Prod.fst) :
    LeadsSound C m key (with_group key gn f) := by
  refine .get_stream h ?_
  cases hg : sd.groups[gn]? with
  | none => exact .fail h hs
  | some g =>
    refine .bind (hf g hg (hs gn g hg)) ?_ ?_
    · rintro ⟨g', reply⟩ _ ⟨rfl, hsettled⟩
      exact Leads.save h (hs.insert (hsettled _ rfl) gn)
    · rintro e _ ⟨rfl, -⟩
      exact ⟨fun _ _ => rfl, sd, h, hs⟩

/-! ## XGROUP -/

/-- The ID that XGROUP SETID is given. -/
def setid_id (sd : StreamData) (id : Bytes) : Option StreamId :=
  (s id).toOption.bind fun ids => if ids = "$" then some sd.last_id else (parse_id ids).toOption

/-- SETID does not take the last ID back, and DELCONSUMER takes a consumer without pending
entries. -/
def xgroup_careful (sd : StreamData) (name : String) (rest : List Bytes) : Prop :=
  match name, rest with
  | "SETID", gn :: id :: _ =>
    ∀ g i, StreamData.group sd gn = some g → setid_id sd id = some i → g.last_delivered_id ≤ i
  | "DELCONSUMER", [gn, cn] =>
    ∀ g name, StreamData.group sd gn = some g → s cn = .ok name →
      ∀ (id : StreamId) (pe : PendingEntry), g.pending[id]? = some pe → pe.consumer ≠ name
  | _, _ => True

theorem xgc_leads (gn id : Bytes) (extra : List Bytes) :
    LeadsSound C m key (xgc key gn id extra) := by
  refine lift_leads h hs fun gns _ => lift_leads h hs fun ids _ => ?_
  refine lift_leads h hs fun er _ => .get_stream h ?_
  -- whatever the ID, the new group has no pending entries
  have hcreate : ∀ ldi : StreamId, LeadsSound C m key (if sd.groups.contains gns then
      .fail (.Err "BUSYGROUP Consumer Group name already exists") else do
        save_stream key { sd with groups := sd.groups.insert gns (.new gns ldi er) }
        return ok : StoreM F (Reply F)) := fun ldi =>
    Prog.Wp.ite (fun _ => Leads.fail h hs)
      fun _ => Leads.save h (hs.insert (sound_new gns ldi er) gns)
  by_cases hdollar : ids = "$"
  · rw [if_pos hdollar]
    exact hcreate _
  · rw [if_neg hdollar]
    by_cases hzero : ids = "0"
    · rw [if_pos hzero]
      exact hcreate _
    · rw [if_neg hzero]
      exact lift_leads h hs fun ldi _ => hcreate ldi

theorem xgsid_leads (gn id : Bytes) (extra : List Bytes)
    (hcareful : ∀ g i, StreamData.group sd gn = some g → setid_id sd id = some i →
      g.last_delivered_id ≤ i) :
    LeadsSound C m key (xgsid key gn id extra) := by
  refine lift_leads h hs fun gns hgns => lift_leads h hs fun ids hids => ?_
  refine lift_leads h hs fun er _ => with_group_leads h hs gns fun g hg hsound => ?_
  have hgroup := group_eq hgns hg
  have hset : ∀ ldi, setid_id sd id = some ldi → Settles C m
      (pure ({ g with last_delivered_id := ldi, entries_read := er }, ok) :
        StoreM F (ConsumerGroup × Reply F)) Prod.fst := by
    intro ldi hldi
    exact settles_pure fun id pe hpe =>
      ⟨(hsound id pe hpe).1, (hsound id pe hpe).2.trans (hcareful g ldi hgroup hldi)⟩
  by_cases hdollar : ids = "$"
  · rw [if_pos hdollar]
    refine hset sd.last_id ?_
    unfold setid_id
    rw [hids]
    exact if_pos hdollar
  · rw [if_neg hdollar]
    cases hparse : parse_id ids with
    | error e => exact ⟨rfl, nofun⟩
    | ok ldi =>
      refine hset ldi ?_
      unfold setid_id
      rw [hids]
      refine (if_neg hdollar).trans ?_
      rw [hparse]
      rfl

theorem xgd_leads (gn : Bytes) : LeadsSound C m key (xgd key gn) := by
  refine lift_leads h hs fun gns _ => .get_stream h ?_
  exact Prog.Wp.ite (fun _ => Leads.save h (hs.erase gns)) fun _ => ⟨fun _ _ => rfl, sd, h, hs⟩

theorem xgcc_leads (gn cn : Bytes) : LeadsSound C m key (xgcc key gn cn) := by
  refine lift_leads h hs fun gns _ => lift_leads h hs fun cns _ => ?_
  refine with_group_leads h hs gns fun g _ hsound => ?_
  refine .bind (ensure_consumer_settles hsound cns) ?_
    (fun e m' h => (nomatch h.2.choose_spec.1))
  rintro _ _ ⟨rfl, g', hg', hsound', -⟩
  cases hg'
  exact settles_pure hsound'

theorem xgdc_leads (gn cn : Bytes)
    (hcareful : ∀ g name, StreamData.group sd gn = some g → s cn = .ok name →
      ∀ (id : StreamId) (pe : PendingEntry), g.pending[id]? = some pe → pe.consumer ≠ name) :
    LeadsSound C m key (xgdc key gn cn) := by
  refine lift_leads h hs fun gns hgns => lift_leads h hs fun cns hcns => ?_
  refine with_group_leads h hs gns fun g hg hsound => ⟨rfl, fun a ha => ?_⟩
  have hgroup := group_eq hgns hg
  cases ha
  intro id pe hpe
  obtain ⟨hconsumer, hid⟩ := hsound id pe hpe
  refine ⟨?_, hid⟩
  -- the consumer that goes is not the one the entry is pending for
  have hne : compare cns pe.consumer ≠ .eq := fun heq =>
    hcareful g cns hgroup hcns id pe hpe (Std.LawfulEqCmp.eq_of_compare heq).symm
  rw [Std.ExtTreeMap.contains_erase, hconsumer]
  simp [hne]

theorem xgroup_leads (sub : Bytes) (rest : List Bytes)
    (hcareful : ∀ text, s sub = .ok text → xgroup_careful sd (to_ascii_uppercase text) rest) :
    LeadsSound C m key (xgroup (sub :: key :: rest)) := by
  refine lift_leads h hs fun text htext => ?_
  unfold xgroup_careful at hcareful
  split
  · exact xgc_leads h hs _ _ _
  · exact xgsid_leads h hs _ _ _ (by simpa [*] using hcareful)
  · exact xgd_leads h hs _
  · exact xgcc_leads h hs _ _
  · exact xgdc_leads h hs _ _ (by simpa [*] using hcareful)
  all_goals exact .fail h hs

/-! ## The other commands on one key -/

omit hs in
theorem xadd_with_leads (maxlen : Option (Bool × ℕ)) (req : Option StreamId)
    (fields : Fields) : Leads C m key (xadd_with key maxlen req fields)
      fun _ sd' => sd'.groups = sd.groups := by
  refine .get_stream h (wp_unix_time fun wall => ?_)
  refine Leads.lift h (fun _ _ => rfl) fun id _ => Leads.save h ?_
  exact (thinned_trim maxlen (sd.add id fields)).groups

omit hs in
theorem xadd_leads (args : List Bytes) :
    Leads C m key (xadd (key :: args)) fun _ sd' => sd'.groups = sd.groups := by
  match args with
  | [] | [_] => exact .fail h rfl
  | a :: b :: rest =>
    refine .lift h (fun _ _ => rfl) fun request _ => ?_
    refine .ite (fun _ => wp_exists_stream h fun found => ?_) fun _ => xadd_with_leads h _ _ _
    exact .ite (fun _ => xadd_with_leads h _ _ _) fun _ => ⟨fun _ _ => rfl, sd, h, rfl⟩

theorem xack_leads (args : List Bytes) : LeadsSound C m key (xack (key :: args)) := by
  match args with
  | [] | [_] => exact .fail h hs
  | gn :: a :: rest =>
    refine lift_leads h hs fun gns _ => with_group_leads h hs gns fun g _ hsound => ?_
    cases hids : xack_ids (a :: rest) g 0 with
    | error e => exact ⟨rfl, nofun⟩
    | ok r => exact settles_pure (xack_ids_sound hids hsound)

def consumer_exists (sd : StreamData) (gn cn : Bytes) : Prop :=
  ∀ g name, StreamData.group sd gn = some g → s cn = .ok name → g.consumers.contains name = true

/-- XCLAIM is for a consumer of the group, and for entries that have been handed out. -/
def xclaim_careful (sd : StreamData) : List Bytes → Prop
  | gn :: cn :: _ :: a :: rest =>
    consumer_exists sd gn cn ∧
      ∀ g r, StreamData.group sd gn = some g → claim_ids (a :: rest) [] = .ok r →
        ∀ id ∈ r.1, sd.entries.contains id → id ≤ g.last_delivered_id
  | _ => True

theorem xclaim_leads (args : List Bytes)
    (hcareful : xclaim_careful sd args) :
    LeadsSound C m key (xclaim (key :: args)) := by
  match args with
  | [] | [_] | [_, _] | [_, _, _] => exact .fail h hs
  | gn :: cn :: mi :: a :: rest =>
    obtain ⟨hexists, hids⟩ := hcareful
    refine lift_leads h hs fun gns hgns => ?_
    refine lift_leads h hs fun cns hcns => ?_
    refine lift_leads h hs fun mi _ => lift_leads h hs fun r hr => ?_
    refine lift_leads h hs fun opts _ => with_group_leads h hs gns fun g hg hsound => ?_
    have hgroup := group_eq hgns hg
    exact (xclaim_ids_settles mi opts sd r.1 [] hsound (hexists g cns hgroup hcns)
      (hids g r hgroup hr)).map fun _ => rfl

/-- XAUTOCLAIM is for a consumer of the group. -/
def xautoclaim_careful (sd : StreamData) : List Bytes → Prop
  | gn :: cn :: _ :: _ :: _ => consumer_exists sd gn cn
  | _ => True

theorem xautoclaim_leads (args : List Bytes)
    (hcareful : xautoclaim_careful sd args) :
    LeadsSound C m key (xautoclaim (key :: args)) := by
  match args with
  | [] | [_] | [_, _] | [_, _, _] => exact .fail h hs
  | gn :: cn :: mi :: start :: rest =>
    refine lift_leads h hs fun gns hgns => ?_
    refine lift_leads h hs fun cns hcns => ?_
    refine lift_leads h hs fun mi _ => lift_leads h hs fun start _ => ?_
    refine lift_leads h hs fun opts _ => ?_
    have hclaim : ∀ sid : StreamId, LeadsSound C m key (with_group key gns fun sd g => do
        let pids := g.pending.keys.filter fun id => decide (sid ≤ id)
        let r ← xautoclaim_ids cns mi opts sd pids [] sid g
        let nc := if r.2.1.length ≥ opts.count then id_bytes r.2.2 else as_bytes "0-0"
        return (r.1, .Array (some [bull nc, .Array (some r.2.1), .Array (some [])])) :
        StoreM F (Reply F)) := by
      intro sid
      refine with_group_leads h hs gns fun g hg hsound => ?_
      have hgroup := group_eq hgns hg
      -- only what is pending is claimed, and that has been handed out
      have hids : ∀ id ∈ g.pending.keys.filter fun id => decide (sid ≤ id),
          id ≤ g.last_delivered_id := by
        intro id hid
        have hkey := Std.ExtTreeMap.mem_keys.mp (List.mem_filter.mp hid).1
        exact (hsound id _ (Std.ExtTreeMap.getElem?_eq_some_getElem hkey)).2
      exact (xautoclaim_ids_settles mi opts sd _ [] sid hsound
        (hcareful g cns hgroup hcns) hids).map fun _ => rfl
    by_cases hzero : start = "0-0"
    · rw [if_pos hzero]
      exact hclaim _
    · rw [if_neg hzero]
      exact lift_leads h hs fun sid _ => hclaim sid

end OneKey

end Groups

/-! ## Whole stores -/

section Stores

variable {C : Instant → Prop} {m : HashMap Bytes (Entry F)}

theorem AllSound.holds (h : AllSound m) (key : Bytes) : ∃ sd, Holds m key sd ∧ SoundStream sd := by
  cases he : m[key]? with
  | none =>
    refine ⟨.new, holds_of_absent he, fun gn g hg => ?_⟩
    unfold StreamData.new at hg
    cases hg
  | some e =>
    obtain ⟨hexp, sd, hdata, hs⟩ := h key e he
    refine ⟨sd, ⟨fun e' he' => ?_, fun hnone => ?_⟩, hs⟩
    · cases he.symm.trans he'
      exact ⟨hdata, hexp⟩
    · cases he.symm.trans hnone

theorem AllSound.update (h : AllSound m) {m' : HashMap Bytes (Entry F)} {key : Bytes}
    {sd : StreamData} (hothers : ∀ k, k ≠ key → m'[k]? = m[k]?) (hholds : Holds m' key sd)
    (hs : SoundStream sd) : AllSound m' := by
  intro k e he
  by_cases hk : k = key
  · rw [hk] at he
    exact ⟨(hholds.found e he).2, sd, (hholds.found e he).1, hs⟩
  · rw [hothers k hk] at he
    exact h k e he

theorem AllSound.of_leads (h : AllSound m) {key : Bytes} {p : StoreM F (Reply F)}
    (hp : Leads C m key p fun _ sd => SoundStream sd) :
    p.Wp (may C) (fun _ m' => AllSound m') m := by
  refine .mono hp ?_
  rintro r m' ⟨hothers, sd, hholds, hs⟩
  exact h.update hothers hholds hs

/-- XREADGROUP makes the consumer in every group it reads, and notes down nothing else. -/
theorem xreadgroup_streams_wp (h : AllSound m) (gn cn : String) (opts : ReadOptions)
    (streams : List (Bytes × Bytes)) (results : List (Reply F)) :
    (xreadgroup_streams gn cn opts streams results).Wp (may C) (fun _ m' => AllSound m') m := by
  induction streams generalizing m results with
  | nil => exact h
  | cons stream streams ih =>
    obtain ⟨key, id⟩ := stream
    obtain ⟨sd, hholds, hs⟩ := h.holds key
    unfold xreadgroup_streams
    cases s id with
    | error e => exact h
    | ok id_str =>
      refine wp_find_stream hholds ?_
      dsimp only
      cases hg : sd.groups[gn]? with
      | none => exact ih h results
      | some g =>
        refine .bind (read_group_settles sd id_str cn opts (hs gn g hg)) ?_ ?_
        · rintro ⟨entries, g'⟩ _ ⟨rfl, hsettled⟩
          refine wp_save_stream hholds fun m' hothers hholds' => ?_
          exact ih (h.update hothers hholds' (hs.insert (hsettled _ rfl) gn)) _
        · rintro e _ ⟨rfl, -⟩
          exact h

theorem xreadgroup_wp (h : AllSound m) (args : List Bytes) :
    (xreadgroup args).Wp (may C) (fun _ m' => AllSound m') m := by
  rw [xreadgroup_eq]
  cases group_request args with
  | error e => exact h
  | ok request => exact xreadgroup_streams_wp h _ _ _ _ []

end Stores

/-! ## Runs -/

/-- The commands on streams and groups, with all their arguments. -/
inductive GroupCommand where
  | XADD (args : List Bytes)
  | XDEL (args : List Bytes)
  | XTRIM (args : List Bytes)
  | XGROUP (args : List Bytes)
  | XREADGROUP (args : List Bytes)
  | XACK (args : List Bytes)
  | XCLAIM (args : List Bytes)
  | XAUTOCLAIM (args : List Bytes)
  deriving Repr, DecidableEq

def GroupCommand.handler : GroupCommand → StoreM F (Reply F)
  | .XADD args => xadd args
  | .XDEL args => xdel args
  | .XTRIM args => xtrim args
  | .XGROUP args => xgroup args
  | .XREADGROUP args => xreadgroup args
  | .XACK args => xack args
  | .XCLAIM args => xclaim args
  | .XAUTOCLAIM args => xautoclaim args

def GroupCommand.step (w : World F) (c : GroupCommand) : World F :=
  ((c.handler : StoreM F (Reply F)).run World.step w).2

/-- The command leaves consumers and pending entries together: SETID does not take the last ID back,
DELCONSUMER takes a consumer without pending entries, and claims are for consumers of the group and
for entries that have been handed out. -/
def Careful (w : World F) : GroupCommand → Prop
  | .XGROUP (sub :: key :: rest) =>
    ∀ text, s sub = .ok text →
      xgroup_careful (stream_of w.store.keyspace key) (to_ascii_uppercase text) rest
  | .XCLAIM (key :: args) => xclaim_careful (stream_of w.store.keyspace key) args
  | .XAUTOCLAIM (key :: args) => xautoclaim_careful (stream_of w.store.keyspace key) args
  | _ => True

theorem careful_step (w : World F) (c : GroupCommand) (hcareful : Careful w c)
    (h : AllSound w.store.keyspace) : AllSound (GroupCommand.step w c).store.keyspace := by
  have hwp : c.handler.Wp (may fun _ => True)
      (fun _ m' => AllSound m') w.store.keyspace := by
    match c with
    | .XADD [] | .XDEL [] | .XTRIM [] | .XGROUP [] | .XGROUP [_] | .XACK [] | .XCLAIM []
    | .XAUTOCLAIM [] => exact h
    | .XREADGROUP args => exact xreadgroup_wp h args
    | .XADD (key :: args) =>
      obtain ⟨sd, hholds, hs⟩ := h.holds key
      exact h.of_leads ((xadd_leads hholds args).mono fun _ _ hgroups => hs.congr hgroups)
    | .XDEL (key :: args) =>
      obtain ⟨sd, hholds, hs⟩ := h.holds key
      exact h.of_leads ((xdel_leads hholds args).mono fun _ _ hthin => hs.congr hthin.groups)
    | .XTRIM (key :: args) =>
      obtain ⟨sd, hholds, hs⟩ := h.holds key
      exact h.of_leads ((xtrim_leads hholds args).mono fun _ _ hthin => hs.congr hthin.groups)
    | .XGROUP (sub :: key :: rest) =>
      obtain ⟨sd, hholds, hs⟩ := h.holds key
      refine h.of_leads (xgroup_leads hholds hs sub rest fun text htext => ?_)
      exact hholds.stream_of_eq ▸ hcareful text htext
    | .XACK (key :: args) =>
      obtain ⟨sd, hholds, hs⟩ := h.holds key
      exact h.of_leads (xack_leads hholds hs args)
    | .XCLAIM (key :: args) =>
      obtain ⟨sd, hholds, hs⟩ := h.holds key
      exact h.of_leads (xclaim_leads hholds hs args (hholds.stream_of_eq ▸ hcareful))
    | .XAUTOCLAIM (key :: args) =>
      obtain ⟨sd, hholds, hs⟩ := h.holds key
      exact h.of_leads (xautoclaim_leads hholds hs args (hholds.stream_of_eq ▸ hcareful))
  exact run_of_wp hwp fun _ => trivial

/-- **Pending entries.** In every run of careful commands from the empty store, every pending entry
of a group is that of a consumer of the group, and has been handed out. -/
theorem pending_sound (env : Env) (cs : List GroupCommand)
    (h : Along GroupCommand.step Careful (World.new env : World F) cs) :
    ∀ (key : Bytes) (gn : String) (g : ConsumerGroup),
      (stream_of (run GroupCommand.step (World.new env : World F) cs).store.keyspace key).groups[gn]? =
        some g → SoundGroup g := by
  have hinit : AllSound (World.new env : World F).store.keyspace := by
    intro key e he
    cases Std.ExtTreeMap.getElem?_empty.symm.trans he
  have hsound := h.invariant (I := fun w => AllSound w.store.keyspace)
    (fun w c hcareful hs => careful_step w c hcareful hs) hinit
  intro key gn g hg
  obtain ⟨sd, hholds, hs⟩ := hsound.holds key
  rw [hholds.stream_of_eq] at hg
  exact hs gn g hg

/-- A group that has handed out its only entry to the consumer c. -/
def handed_out : List GroupCommand :=
  [.XGROUP (["CREATE", "k", "g", "0"].map as_bytes), .XADD (["k", "7-1", "f", "v"].map as_bytes),
    .XREADGROUP (["GROUP", "g", "c", "STREAMS", "k", ">"].map as_bytes)]

/-- The group under `k`, at the end of a run. -/
def final_group (cs : List GroupCommand) : Option ConsumerGroup :=
  (stream_of (run GroupCommand.step (World.new .still : World Resp.Infinity)
    cs).store.keyspace (as_bytes "k")).groups["g"]?

/-- What has been handed out is that of the consumer. -/
theorem pending_sound_read : ∃ g, final_group handed_out = some g ∧ SoundGroup g := by
  have hsome : (final_group handed_out).isSome = true := by decide +kernel
  obtain ⟨g, hg⟩ := Option.isSome_iff_exists.mp hsome
  refine ⟨g, hg, pending_sound .still handed_out ⟨?_, trivial, trivial, trivial⟩ (as_bytes "k") "g" g hg⟩
  intro text htext
  have hcreate : s (as_bytes "CREATE") = .ok "CREATE" := by decide
  cases hcreate.symm.trans htext
  have hupper : to_ascii_uppercase "CREATE" = "CREATE" := by decide
  trivial

def Broken (cs : List GroupCommand) : Prop := ∃ g, final_group cs = some g ∧ ¬ SoundGroup g

instance (cs : List GroupCommand) : Decidable (Broken cs) :=
  decidable_of_iff ((final_group cs).any (fun g => decide (¬ SoundGroup g)) = true) (by
    rw [Option.any_eq_true]
    exact exists_congr fun g => and_congr_right fun _ => decide_eq_true_iff)

/-- When the consumer is deleted its entry stays; it can be claimed for a consumer that does not
exist; and an entry can be claimed before it is handed out. -/
theorem pending_broken :
    Broken (handed_out ++ [.XGROUP (["DELCONSUMER", "k", "g", "c"].map as_bytes)]) ∧
      Broken (handed_out ++ [.XCLAIM (["k", "g", "d", "0", "7-1"].map as_bytes)]) ∧
      Broken (handed_out ++ [.XADD (["k", "8-1", "f", "v"].map as_bytes),
        .XCLAIM (["k", "g", "c", "0", "8-1"].map as_bytes)]) := by
  decide +kernel

end ValkeyRs.Streams
