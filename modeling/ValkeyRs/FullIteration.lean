/-
What an iteration with a cursor returns.

A cursor is a position in a listing that each call makes anew. An element that is there all the time
is therefore returned as long as no call finds it in front of its cursor before it has been
returned, and the way to get there is to remove enough of the elements in front of it between two
calls. `iteration_returns` is the statement for SCAN, SSCAN, HSCAN and ZSCAN; `scan_skips_key` is an
iteration of SCAN over three keys that loses one of them.

What "is there" means has to take the clock into account, which SCAN reads more than once: a key
counts if none of the readings is past its expiry time.
-/
import ValkeyRs.Paging
import ValkeyRs.Runs
import ValkeyRs.Scan
import ValkeyRs.StoreWp
import ValkeyRs.ZsetIndex

set_option autoImplicit false

open ValkeyRs Text Storage Zset Strings Runs Paging List

namespace ValkeyRs.Scan

variable {F : Type} [Score F]

/-! ## The elements of a collection -/

/-- The entry is under the key, and at none of the given times has it expired. -/
def Live (C : Instant → Prop) (m : HashMap Bytes (Entry F)) (key : Bytes) (e : Entry F) : Prop :=
  m[key]? = some e ∧ ∀ t ∈ e.expires_at, ∀ now, C now → now ≤ t

def reads (w : World F) (now : Instant) : Prop := ∃ n, w.env.clock n = now

def LiveIn (w : World F) (key : Bytes) (e : Entry F) : Prop :=
  Live (reads w) w.store.keyspace key e

/-- The element is in what the command goes over. The number of members of a set is a `usize`. -/
def Shows : ScanCmd → World F → Bytes → Prop
  | .Scan, w, x => ∃ e, LiveIn w x e
  | .Sscan key, w, x =>
    ∃ e s, LiveIn w key e ∧ e.data.to_set_clone = some s ∧ s.size < 2 ^ 64 ∧ x ∈ s
  | .Hscan key, w, x => ∃ e h, LiveIn w key e ∧ e.data = .Hash h ∧ x ∈ h
  | .Zscan key, w, x => ∃ e z, LiveIn w key e ∧ e.data = .ZSet z ∧ Consistent z ∧ x ∈ z.members

def entry_lt (a b : Bytes × F) : Prop := a.2 < b.2 ∨ a.2 = b.2 ∧ compare a.1 b.1 = .lt

/-- The first element comes before the second where the command lists them. -/
def Precedes : ScanCmd → World F → Bytes → Bytes → Prop
  | .Scan, _, y, x | .Sscan _, _, y, x | .Hscan _, _, y, x => compare y x = .lt
  | .Zscan key, w, y, x => ∃ e z sy sx, LiveIn w key e ∧ e.data = .ZSet z ∧
      z.members[y]? = some sy ∧ z.members[x]? = some sx ∧ entry_lt (y, sy) (x, sx)

/-- At least as many elements as the cursor says come before the element. -/
def Ahead (cmd : ScanCmd) (w : World F) (cursor : UInt64) (x : Bytes) : Prop :=
  ∃ before : List Bytes, before.Nodup ∧ before.length = cursor.toNat ∧
    ∀ y ∈ before, Shows cmd w y ∧ Precedes cmd w y x

theorem compare_asymm {x y : Bytes} (h : compare x y = .lt) : compare y x ≠ .lt := by
  have hswap : compare y x = (compare x y).swap := Std.OrientedCmp.eq_swap
  rw [hswap, h]
  decide

theorem entry_lt_asymm {a b : Bytes × F} (h : entry_lt a b) : ¬ entry_lt b a := by
  rintro (hlt | ⟨heq, hlt⟩)
  · rcases h with h | ⟨h, -⟩
    · exact lt_asymm h hlt
    · exact hlt.ne h.symm
  · rcases h with h | ⟨-, h⟩
    · exact h.ne heq.symm
    · exact compare_asymm h hlt

theorem precedes_asymm (cmd : ScanCmd) (w : World F) (x y : Bytes) (h : Precedes cmd w x y) :
    ¬ Precedes cmd w y x := by
  cases cmd with
  | Scan | Sscan | Hscan => exact compare_asymm h
  | Zscan key =>
    obtain ⟨e, z, sx, sy, he, hz, hx, hy, hlt⟩ := h
    rintro ⟨e', z', sy', sx', he', hz', hy', hx', hlt'⟩
    -- both speak of the one sorted set under the key
    have hee : e' = e := Option.some.inj (he'.1.symm.trans he.1)
    subst hee
    rw [hz] at hz'
    cases hz'
    rw [hx] at hx'
    rw [hy] at hy'
    cases hx'
    cases hy'
    exact entry_lt_asymm hlt hlt'

/-! ## Numbers in texts -/

variable {n : ℕ} {cmd : ScanCmd} {w : World F} {cursor : UInt64}

theorem parse_u64_toString (h : n < 2 ^ 64) : parse_u64 (as_bytes (toString n)) = some n := by
  have hfit : fits (unsigned_max (some 64)) n = true := decide_eq_true (by omega : n ≤ 2 ^ 64 - 1)
  have hparse : parse_nat (some 64) (toString n) = .ok n := parse_unsigned_repr _ _ hfit
  rw [parse_u64, text, from_utf8_as_bytes]
  show (parse_nat (some 64) (toString n)).toOption = _
  rw [hparse]
  rfl

theorem fits_of_parse_digits {max : Option ℕ} {overflow : ParseIntError} {cs : List Char}
    {acc : ℕ} (h : parse_digits max overflow acc cs = .ok n) (hacc : fits max acc = true) :
    fits max n = true := by
  induction cs generalizing acc with
  | nil =>
    cases h
    exact hacc
  | cons c cs ih =>
    unfold parse_digits at h
    by_cases hdigit : c.isDigit = true
    · by_cases hfit : fits max (10 * acc + (c.toNat - '0'.toNat)) = true
      · rw [if_pos hdigit, if_pos hfit] at h
        exact ih h hfit
      · rw [if_pos hdigit, if_neg hfit] at h
        cases h
    · rw [if_neg hdigit] at h
      cases h

/-- A number that has been read is a `usize`. -/
theorem parse_u64_lt {b : Bytes} (h : parse_u64 b = some n) : n < 2 ^ 64 := by
  have hread : parse_unsigned (unsigned_max (some 64)) (text b) = .ok n := by
    unfold parse_u64 parse_nat at h
    cases hparse : parse_unsigned (unsigned_max (some 64)) (text b) with
    | error e => simp [hparse, Except.toOption] at h
    | ok n' =>
      simp only [hparse, Except.toOption, Option.some.injEq] at h
      rw [h]
  have hfits : fits (unsigned_max (some 64)) n = true := by
    unfold parse_unsigned at hread
    split at hread
    · cases hread
    · cases hread
    · cases hread
    · exact fits_of_parse_digits hread (by decide)
    · exact fits_of_parse_digits hread (by decide)
  have hle : n ≤ 2 ^ 64 - 1 := of_decide_eq_true hfits
  omega

theorem parse_cursor_toString (h : n < 2 ^ 64) : parse_cursor (as_bytes (toString n)) = .ok n := by
  have hfit : fits (unsigned_max (some 64)) n = true := decide_eq_true (by omega : n ≤ 2 ^ 64 - 1)
  have hparse : parse_nat (some 64) (toString n) = .ok n := parse_unsigned_repr _ _ hfit
  unfold parse_cursor str_from_bytes
  rw [from_utf8_as_bytes]
  dsimp only [bind, Except.bind]
  rw [hparse]
  rfl

theorem option_name_toString (n : ℕ) {name : String} {c : Char} {cs : List Char}
    (hname : name.toList = c :: cs) (hc : c.isDigit = false) :
    option_name (as_bytes (toString n)) ≠ some name := by
  rw [option_name, from_utf8_as_bytes]
  intro h
  have hupper : to_ascii_uppercase (toString n) = name := Option.some.inj h
  obtain ⟨d, ds, hds, hd⟩ := toDigits_cons n
  have hlist : (Nat.toDigits 10 n).map Char.toUpper = c :: cs := by
    rw [← hname, ← hupper, to_ascii_uppercase, String.toList_ofList, Nat.toString_eq_repr,
      Nat.toList_repr]
  rw [hds, map_cons] at hlist
  have hdc : d.toUpper = c := (List.cons.inj hlist).1
  have hsame : d.toUpper = d := by
    have hnot : ¬ ('a'.val ≤ d.val ∧ d.val ≤ 'z'.val) := by
      rintro ⟨hge, -⟩
      simp only [Char.isDigit, Bool.and_eq_true, decide_eq_true_eq] at hd
      exact absurd (UInt32.le_trans hge hd.2) (by decide)
    simp only [Char.toUpper]
    rw [dif_neg hnot]
  rw [← hdc, hsame, hd] at hc
  cases hc

/-! ## Reading what is live -/

section Rules

variable {C : Instant → Prop} {α : Type} {Q : Except Halt α → HashMap Bytes (Entry F) → Prop}
  {m : HashMap Bytes (Entry F)}

variable {key : Bytes}

theorem Live.not_expired {e e' : Entry F} {t now : Instant} (h : Live C m key e')
    (he : m[key]? = some e) (ht : e.expires_at = some t) (hnow : C now) : ¬ t < now := by
  have hee : e' = e := Option.some.inj (h.1.symm.trans he)
  subst hee
  exact Nat.not_lt.mpr (h.2 t ht now hnow)

theorem wp_get_live {e : Entry F} (he : Live C m key e)
    {f : Option (Entry F) → StoreM F α} (h : (f (some e)).Wp (may C) Q m) :
    (Store.get key >>= f).Wp (may C) Q m := by
  refine wp_get (fun hnone => ?_) (fun e' he' _ => ?_) fun e' t now he' ht hnow hlt => ?_
  · exact absurd (hnone.symm.trans he.1) (by simp)
  · rw [he.1] at he'
    cases he'
    exact h
  · exact absurd hlt (he.not_expired he' ht hnow)

/-- No live entry is lost. -/
def Keeps (C : Instant → Prop) (m m' : HashMap Bytes (Entry F)) : Prop :=
  ∀ k e, Live C m k e → Live C m' k e

theorem Keeps.refl : Keeps C m m := fun _ _ h => h

theorem Keeps.trans {m' m'' : HashMap Bytes (Entry F)} (h : Keeps C m m') (h' : Keeps C m' m'') :
    Keeps C m m'' := fun k e hk => h' k e (h k e hk)

theorem keeps_erase {e : Entry F} {t now : Instant} (he : m[key]? = some e)
    (ht : e.expires_at = some t) (hnow : C now) (hlt : t < now) : Keeps C m (m.erase key) := by
  intro k e' hk
  have hne : k ≠ key := by
    rintro rfl
    exact hk.not_expired he ht hnow hlt
  exact ⟨(Maps.erase_of_ne hne).trans hk.1, hk.2⟩

theorem wp_exists_key {f : Bool → StoreM F α}
    (h : ∀ found m', Keeps C m m' → ((∃ e, Live C m key e) → found = true) →
      (f found).Wp (may C) Q m') : (Store.exists_key key >>= f).Wp (may C) Q m := by
  unfold Store.exists_key
  rw [Prog.bind_assoc]
  refine wp_get (fun hnone => ?_) (fun e he _ => ?_) fun e t now he ht hnow hlt => ?_
  · refine h _ _ .refl fun ⟨e, he⟩ => ?_
    exact absurd (hnone.symm.trans he.1) (by simp)
  · exact h _ _ .refl fun _ => rfl
  · refine h _ _ (keeps_erase he ht hnow hlt) fun ⟨e', he'⟩ => ?_
    exact absurd hlt (he'.not_expired he ht hnow)

theorem wp_unexpired (entries : List (Bytes × Entry F)) {f : List Bytes → StoreM F α}
    (h : ∀ keys, keys.Sublist (entries.map Prod.fst) →
      (∀ k e, (k, e) ∈ entries → (∀ t ∈ e.expires_at, ∀ now, C now → now ≤ t) → k ∈ keys) →
      (f keys).Wp (may C) Q m) :
    (unexpired entries >>= f).Wp (may C) Q m := by
  induction entries generalizing f with
  | nil => exact h [] (List.Sublist.refl _) fun k e hmem => absurd hmem not_mem_nil
  | cons p entries ih =>
    obtain ⟨key, entry⟩ := p
    rw [unexpired, Prog.bind_assoc]
    have hrest : ∀ expired : Bool, (expired = true → ∃ t ∈ entry.expires_at, ∃ now, C now ∧ t < now) →
        ((do
          let keys ← unexpired entries
          return if expired then keys else key :: keys) >>= f).Wp (may C) Q m := by
      intro expired hexpired
      rw [Prog.bind_assoc]
      refine ih fun keys hsub hlive => ?_
      cases expired with
      | true =>
        refine h keys (hsub.cons key) fun k e hmem he => ?_
        rcases mem_cons.mp hmem with heq | hmem
        · cases heq
          obtain ⟨t, ht, now, hnow, hlt⟩ := hexpired rfl
          exact absurd hlt (Nat.not_lt.mpr (he t ht now hnow))
        · exact hlive k e hmem he
      | false =>
        refine h (key :: keys) (hsub.cons_cons key) fun k e hmem he => ?_
        rcases mem_cons.mp hmem with heq | hmem
        · cases heq
          exact mem_cons_self
        · exact mem_cons_of_mem _ (hlive k e hmem he)
    exact wp_is_expired (fun _ => hrest false fun hf => by cases hf)
      fun t now hexp hnow hlt => hrest true fun _ => ⟨t, hexp, now, hnow, hlt⟩

/-- `keys.retain(|k| store.exists(k))`: some of the keys, and every live one. -/
theorem wp_retain_existing (keys : List Bytes) {m : HashMap Bytes (Entry F)}
    {f : List Bytes → StoreM F α}
    (h : ∀ kept m', Keeps C m m' → kept.Sublist keys →
      (∀ k ∈ keys, (∃ e, Live C m k e) → k ∈ kept) → (f kept).Wp (may C) Q m') :
    (retain Store.exists_key keys >>= f).Wp (may C) Q m := by
  induction keys generalizing m f with
  | nil => exact h [] m .refl (List.Sublist.refl _) fun k hk => absurd hk not_mem_nil
  | cons key keys ih =>
    rw [retain, Prog.bind_assoc]
    refine wp_exists_key fun found m' hkeeps hfound => ?_
    rw [Prog.bind_assoc]
    refine ih fun kept m'' hkeeps' hsub hlive => ?_
    have hlater : ∀ k ∈ keys, (∃ e, Live C m k e) → k ∈ kept := fun k hk ⟨e, he⟩ =>
      hlive k hk ⟨e, hkeeps k e he⟩
    cases found with
    | true =>
      refine h (key :: kept) m'' (hkeeps.trans hkeeps') (hsub.cons_cons key) fun k hk he => ?_
      rcases mem_cons.mp hk with rfl | hk
      · exact mem_cons_self
      · exact mem_cons_of_mem _ (hlater k hk he)
    | false =>
      refine h kept m'' (hkeeps.trans hkeeps') (hsub.cons key) fun k hk he => ?_
      rcases mem_cons.mp hk with rfl | hk
      · exact absurd (hfound he) (by decide)
      · exact hlater k hk he

end Rules

/-! ## The listing of the keys -/

instance : IsTrans Bytes (key_le · ·) := ⟨fun _ _ _ hab hbc => Std.TransCmp.isLE_trans hab hbc⟩

instance : Std.Total (α := Bytes) (key_le · ·) where
  total a b := by
    have hswap : compare b a = (compare a b).swap := Std.OrientedCmp.eq_swap
    unfold key_le
    rw [hswap]
    cases compare a b <;> simp

theorem wp_scan_listing {α : Type} {C : Instant → Prop}
    {Q : Except Halt α → HashMap Bytes (Entry F) → Prop} {m : HashMap Bytes (Entry F)} {count : ℕ}
    {f : List Bytes → StoreM F α}
    (h : ∀ keys m', keys.Pairwise (compare · · = .lt) → (∀ k, (∃ e, Live C m k e) → k ∈ keys) →
      (f keys).Wp (may C) Q m') :
    (scan_listing ⟨none, count, none⟩ >>= f).Wp (may C) Q m := by
  unfold scan_listing store_keys
  rw [if_pos rfl, Prog.bind_assoc, Prog.bind_assoc]
  refine Prog.wp_perform_bind.mpr ?_
  rintro entries m' ⟨⟨a, rfl⟩, rfl⟩
  refine wp_unexpired _ fun keys hsub hlive => ?_
  rw [Prog.bind_assoc]
  refine wp_retain_existing keys fun kept m'' hkeeps hsub' hkept => ?_
  refine h (kept.insertionSort (key_le · ·)) m'' ?_ fun k hk => ?_
  · -- the keys of a map are distinct, and sorting makes of that a strict order
    have hnodup : (kept.insertionSort (key_le · ·)).Nodup :=
      (perm_insertionSort _ _).nodup_iff.mpr ((nodup_arranged a m').sublist (hsub'.trans hsub))
    have hsorted : (kept.insertionSort (key_le · ·)).Pairwise (fun a b => key_le a b = true) :=
      pairwise_insertionSort _ _
    refine (hsorted.and hnodup).imp fun {a b} hab => ?_
    obtain ⟨hle, hne⟩ := hab
    have hneq : compare a b ≠ .eq := fun heq => hne (Std.LawfulEqCmp.eq_of_compare heq)
    unfold key_le at hle
    cases hcmp : compare a b with
    | lt => rfl
    | eq => exact absurd hcmp hneq
    | gt => simp [hcmp] at hle
  · obtain ⟨e, he⟩ := hk
    refine (perm_insertionSort _ _).mem_iff.mpr (hkept k ?_ ⟨e, he⟩)
    exact hlive k e ((mem_arranged a m').mpr he.1) he.2

/-! ## What a client reads -/

omit [Score F] in
theorem filterMap_bull (keys : List Bytes) :
    ((keys.map bull : List (Reply F)).filterMap fun item => match item with
      | .BulkString (some b) => some b
      | _ => none) = keys := by
  induction keys with
  | nil => rfl
  | cons key keys ih => exact congrArg (key :: ·) ih

omit [Score F] in
theorem every_other_pairs {β : Type} (l : List (Bytes × β)) (g : β → Reply F) :
    every_other (l.flatMap fun (k, v) => [bull k, g v]) = l.map fun p => bull p.1 := by
  induction l with
  | nil => rfl
  | cons p l ih => exact congrArg (bull p.1 :: ·) ih

omit [Score F] in
theorem elements_pairs {β : Type} (l : List (Bytes × β)) (g : β → Reply F) :
    ((every_other (l.flatMap fun (k, v) => [bull k, g v])).filterMap fun item => match item with
      | .BulkString (some b) => some b
      | _ => none) = l.map Prod.fst := by
  rw [every_other_pairs]
  have hmap : (l.map fun p => (bull p.1 : Reply F)) = (l.map Prod.fst).map bull := by
    rw [map_map]
    rfl
  rw [hmap, filterMap_bull]

/-- The reply of a call, read as a page of some listing. -/
def Served (cmd : ScanCmd) (w : World F) (cursor : UInt64) (r : Except Halt (Reply F)) : Prop :=
  ∀ reply next elements, r = .ok reply → cmd.page reply = some (next, elements) →
    ∃ listing, listing.Pairwise (Precedes cmd w) ∧ (∀ y, Shows cmd w y → y ∈ listing) ∧
      Serves listing cursor.toNat elements next.toNat

theorem served_page (hn : n < 2 ^ 64) {items : Option (List (Reply F))} {l : List Bytes}
    (hsorted : l.Pairwise (Precedes cmd w)) (hall : ∀ y, Shows cmd w y → y ∈ l)
    (hserves : Serves l cursor.toNat (cmd.elements (items.getD [])) n) :
    Served cmd w cursor (.ok (.Array (some [bull (as_bytes (toString n)), .Array items]))) := by
  intro reply next elements hreply hpage
  cases hreply
  have hread : cmd.page (.Array (some [bull (as_bytes (toString n)), .Array items]) : Reply F)
      = some (UInt64.ofNat n, cmd.elements (items.getD [])) := by
    show (parse_u64 (as_bytes (toString n))).map _ = _
    rw [parse_u64_toString hn]
    rfl
  rw [hread] at hpage
  cases hpage
  refine ⟨l, hsorted, hall, ?_⟩
  rwa [UInt64.toNat_ofNat_of_lt' hn]

theorem served_error {e : String} : Served cmd w cursor (.ok (.Error e)) := by
  intro reply next elements hreply hpage
  cases hreply
  cases hpage

theorem served_fail {e : Halt} : Served cmd w cursor (.error e) := fun _ _ _ h => by cases h

/-! ## The calls -/

theorem within_reads (w : World F) : w.Within (reads w) := fun n => ⟨n, rfl⟩

section Calls

variable {w : World F} {cursor : UInt64} {count : Option Bytes}

theorem cursor_lt (cursor : UInt64) : cursor.toNat < 2 ^ 64 := UInt64.toNat_lt cursor

theorem option_name_count : option_name (as_bytes "COUNT") = some "COUNT" := by decide +kernel

variable (hcount : ∀ number ∈ count, parse_u64 number ≠ some 0)

include hcount

theorem count_bounds {number : Bytes} (hnumber : count = some number) {n : ℕ}
    (hn : parse_u64 number = some n) : 0 < n ∧ n < 2 ^ 64 :=
  ⟨Nat.pos_of_ne_zero fun hzero => hcount number hnumber (hzero ▸ hn), parse_u64_lt hn⟩

theorem scan_options_count :
    ∃ n, 0 < n ∧ n < 2 ^ 64 ∧ scan_options (count_args count) ⟨none, 10, none⟩ = ⟨none, n, none⟩ := by
  cases count with
  | none => exact ⟨10, by decide, by decide, rfl⟩
  | some number =>
    have hread : scan_options (count_args (some number)) ⟨none, 10, none⟩ =
        ⟨none, (parse_u64 number).getD 10, none⟩ := by
      rfl
    rw [hread]
    cases hn : parse_u64 number with
    | none => exact ⟨10, by decide, by decide, rfl⟩
    | some n => exact ⟨n, (count_bounds hcount rfl hn).1, parse_u64_lt hn, rfl⟩

omit hcount

/-- A slice of a listing whose end has been computed with wrapping is a page, if it is a slice. -/
theorem slice_serves {β : Type} {listing : List β} {start n : ℕ} (hn : 0 < n) (hlt : n < 2 ^ 64)
    (hslice : ¬ min ((start + n) % 2 ^ 64) listing.length < start)
    (hstart : start < listing.length) :
    Serves listing start ((listing.take (min ((start + n) % 2 ^ 64) listing.length)).drop start)
      (next_cursor (min ((start + n) % 2 ^ 64) listing.length) listing.length) := by
  refine serves_slice ?_
  by_cases hzero : start = 0
  · omega
  · omega

theorem next_cursor_lt (n length : ℕ) : next_cursor (min (n % 2 ^ 64) length) length < 2 ^ 64 := by
  unfold next_cursor
  split <;> omega

include hcount in
theorem scan_served :
    Served .Scan w cursor ((ScanCmd.Scan.call cursor count).run World.step w).1 := by
  obtain ⟨n, hn, hlt, hopts⟩ := scan_options_count hcount
  refine run_of_wp (Q := fun r _ => Served .Scan w cursor r) ?_ (within_reads w)
  unfold ScanCmd.call cmd_scan
  simp only [hopts, parse_u64_toString (cursor_lt cursor), Option.getD_some]
  refine wp_scan_listing fun keys m' hsorted hall => ?_
  refine Prog.Wp.ite (fun hend => ?_) fun hstart => ?_
  · exact served_page (n := 0) (by decide) hsorted hall (serves_end hend)
  · refine Prog.Wp.ite (fun _ => served_fail) fun hslice => ?_
    refine served_page (next_cursor_lt _ _) hsorted hall ?_
    have hserves := slice_serves hn hlt hslice (Nat.not_le.mp hstart)
    rw [← filterMap_bull (List.drop _ _)] at hserves
    exact hserves

theorem skip_serves {β : Type} {listing : List β} (cursor : ℕ) {n : ℕ} (hn : 0 < n) (hlt : n < 2 ^ 64)
    (hlen : listing.length < 2 ^ 64) :
    Serves listing cursor ((listing.drop cursor).take n)
      (next_cursor ((cursor + n) % 2 ^ 64) listing.length) := by
  by_cases hin : cursor + n < 2 ^ 64
  · have hpage : (listing.drop cursor).take n = (listing.take (cursor + n)).drop cursor := by
      rw [drop_take, Nat.add_sub_cancel_left]
    rw [Nat.mod_eq_of_lt hin, hpage]
    exact serves_slice (by omega)
  · -- the page has everything that is left, wherever the next cursor points
    have hpage : (listing.drop cursor).take n = listing.drop cursor :=
      take_of_length_le (by rw [length_drop]; omega)
    rw [hpage]
    refine serves_rest ?_
    unfold next_cursor
    split <;> omega

omit [Score F] in
/-- SSCAN with a number: an error, or a count that is not zero. -/
theorem sscan_options_count (number : Bytes) :
    Sets.scan_options [as_bytes "COUNT", number] ⟨none, 10⟩
        = .error (not_integer : Reply F) ∨
      ∃ n, 0 < n ∧ n < 2 ^ 64 ∧
        Sets.scan_options (F := F) [as_bytes "COUNT", number] ⟨none, 10⟩ = .ok ⟨none, n⟩ := by
  have hread : Sets.scan_options (F := F) [as_bytes "COUNT", number] ⟨none, 10⟩
      = if (parse_u64 number).getD 0 = 0 then .error not_integer
        else .ok ⟨none, (parse_u64 number).getD 0⟩ := by
    unfold Sets.scan_options
    rw [show option_name (as_bytes "COUNT") = some "COUNT" by decide]
    split
    · exact absurd (Option.some.inj ‹_›) (by decide)
    · rename_i hrest
      cases hrest
      cases (parse_u64 number).getD 0 with
      | zero => rfl
      | succ n => rfl
    · rename_i hnone
      exact (hnone _ _ rfl rfl).elim
  rw [hread]
  by_cases hzero : (parse_u64 number).getD 0 = 0
  · exact .inl (if_pos hzero)
  · refine .inr ⟨_, Nat.pos_of_ne_zero hzero, ?_, if_neg hzero⟩
    cases hn : parse_u64 number with
    | none => decide
    | some n => exact parse_u64_lt hn

variable {key : Bytes}

variable {e : Entry F} {n : ℕ} {x : Bytes} {z : ZSetData F}

theorem sscan_page_served {s : HashSet Bytes}
    (he : LiveIn w key e) (hs : e.data.to_set_clone = some s) (hsize : s.size < 2 ^ 64) (hn : 0 < n)
    (hlt : n < 2 ^ 64) :
    Served (.Sscan key) w cursor (.ok (Sets.scan_page cursor.toNat n s.toList)) := by
  have hlen : s.toList.length < 2 ^ 64 := by rwa [Std.ExtTreeSet.length_toList]
  refine served_page (n := next_cursor ((cursor.toNat + n) % 2 ^ 64) s.toList.length)
    (l := s.toList) ?_ Std.ExtTreeSet.ordered_toList ?_ ?_
  · unfold next_cursor
    split <;> omega
  · rintro y ⟨e', s', he', hs', -, hy⟩
    have hee : e' = e := Option.some.inj (he'.1.symm.trans he.1)
    rw [hee, hs] at hs'
    cases hs'
    exact Std.ExtTreeSet.mem_toList.mpr hy
  · have hserves := skip_serves cursor.toNat hn hlt hlen
    rw [← filterMap_bull (List.take _ _)] at hserves
    exact hserves

theorem sscan_served (hx : Shows (.Sscan key) w x) :
    Served (.Sscan key) w cursor (((ScanCmd.Sscan key).call cursor count).run World.step w).1 := by
  obtain ⟨e, s, he, hs, hsize, -⟩ := hx
  refine run_of_wp (Q := fun r _ => Served (.Sscan key) w cursor r) ?_ (within_reads w)
  have hread : ∀ n, 0 < n → n < 2 ^ 64 → (Sets.read_set key
      (fun data => data.to_set_clone.map fun s =>
        Sets.scan_page cursor.toNat n (Sets.scan_filter none s.toList))
      (.Array (some [bull (as_bytes "0"), Sets.members_reply []]))).Wp (may (reads w))
        (fun r _ => Served (.Sscan key) w cursor r) w.store.keyspace := by
    intro n hn hlt
    refine wp_get_live he ?_
    dsimp only
    rw [hs]
    exact sscan_page_served he hs hsize hn hlt
  unfold ScanCmd.call Sets.sscan
  simp only [parse_u64_toString (cursor_lt cursor)]
  cases count with
  | none => exact hread 10 (by decide) (by decide)
  | some number =>
    rcases sscan_options_count (F := F) number with hopts | ⟨n, hn, hlt, hopts⟩
    · simp only [count_args, hopts]
      exact served_error
    · simp only [count_args, hopts]
      exact hread n hn hlt

omit [Score F] in
include hcount in
/-- HSCAN with a cursor, and with a number or without one. -/
theorem hscan_options_count (cursor : UInt64) :
    Hashes.scan_options (as_bytes (toString cursor.toNat) :: count_args count) ⟨0, none, 10⟩
        = .error (not_integer : Reply F) ∨
      ∃ n, 0 < n ∧ n < 2 ^ 64 ∧
        Hashes.scan_options (F := F) (as_bytes (toString cursor.toNat) :: count_args count)
          ⟨0, none, 10⟩ = .ok ⟨cursor.toNat, none, n⟩ := by
  have hmatch : option_name (as_bytes (toString cursor.toNat)) ≠ some "MATCH" :=
    option_name_toString _ (c := 'M') rfl (by decide)
  have hcnt : option_name (as_bytes (toString cursor.toNat)) ≠ some "COUNT" :=
    option_name_toString _ (c := 'C') rfl (by decide)
  have hparse := parse_u64_toString (cursor_lt cursor)
  cases count with
  | none =>
    refine .inr ⟨10, by decide, by decide, ?_⟩
    rw [count_args, Hashes.scan_options, if_neg (not_or.mpr ⟨hmatch, hcnt⟩), hparse]
  | some number =>
    have hnot : ¬ option_name (as_bytes "COUNT") = some "MATCH" := by
      decide
    rw [count_args, Hashes.scan_options, if_neg hmatch, if_neg hcnt, hparse]
    dsimp only
    rw [Hashes.scan_options, if_neg hnot, if_pos option_name_count]
    cases hn : parse_u64 number with
    | none => exact .inl rfl
    | some n => exact .inr ⟨n, (count_bounds hcount rfl hn).1, parse_u64_lt hn, rfl⟩

omit [Score F] in
theorem hscan_elements (key : Bytes) (pairs : List (Bytes × Bytes)) :
    (ScanCmd.Hscan key).elements (Hashes.pairs_reply pairs : List (Reply F)) = pairs.map Prod.fst :=
  elements_pairs pairs bull

theorem hscan_page_served {h : HashMap Bytes Bytes}
    (he : LiveIn w key e) (hh : e.data = .Hash h) (hn : 0 < n) (hlt : n < 2 ^ 64)
    {m : HashMap Bytes (Entry F)} :
    (Hashes.scan_page ⟨cursor.toNat, none, n⟩ h.toList).Wp (may (reads w))
      (fun r _ => Served (.Hscan key) w cursor r) m := by
  have hsorted : (h.toList.map Prod.fst).Pairwise (Precedes (.Hscan key) w) :=
    pairwise_map.mpr Std.ExtTreeMap.ordered_keys_toList
  have hall : ∀ y, Shows (.Hscan key) w y → y ∈ h.toList.map Prod.fst := by
    rintro y ⟨e', h', he', hh', hy⟩
    have hee : e' = e := Option.some.inj (he'.1.symm.trans he.1)
    rw [hee, hh] at hh'
    cases hh'
    rw [Std.ExtTreeMap.map_fst_toList_eq_keys]
    exact Std.ExtTreeMap.mem_keys.mpr hy
  have hmax : max n 1 = n := max_eq_left hn
  unfold Hashes.scan_page
  simp only [hmax]
  refine Prog.Wp.ite (fun _ => served_fail) fun hslice => ?_
  refine served_page (next_cursor_lt _ _) hsorted hall ?_
  rw [Option.getD_some, hscan_elements]
  by_cases hend : h.toList.length ≤ cursor.toNat
  · -- behind the end the page is empty, and it is the last one
    rw [min_eq_right hend] at hslice ⊢
    have hstop : min ((h.toList.length + n) % 2 ^ 64) h.toList.length = h.toList.length :=
      le_antisymm (min_le_right _ _) (Nat.not_lt.mp hslice)
    rw [hstop, take_length, drop_length, next_cursor, if_pos le_rfl]
    exact serves_end (by rwa [length_map])
  · rw [min_eq_left (Nat.le_of_not_le hend)] at hslice ⊢
    exact (slice_serves hn hlt hslice (Nat.not_le.mp hend)).map Prod.fst

include hcount in
theorem hscan_served (hx : Shows (.Hscan key) w x) :
    Served (.Hscan key) w cursor (((ScanCmd.Hscan key).call cursor count).run World.step w).1 := by
  obtain ⟨e, h, he, hh, -⟩ := hx
  refine run_of_wp (Q := fun r _ => Served (.Hscan key) w cursor r) ?_ (within_reads w)
  unfold ScanCmd.call Hashes.hscan
  dsimp only
  rcases hscan_options_count hcount cursor with hopts | ⟨n, hn, hlt, hopts⟩
  · rw [hopts]
    exact served_error
  · rw [hopts]
    refine wp_get_live he ?_
    dsimp only
    rw [hh]
    exact hscan_page_served he hh hn hlt

/-! ### The entries of a sorted set -/

theorem mem_zset_entries {m : Bytes} {s : F} : (m, s) ∈ zset_entries z ↔ InBucket z.scores s m := by
  unfold zset_entries InBucket
  simp only [mem_flatMap, mem_map, Prod.exists, Prod.mk.injEq]
  constructor
  · rintro ⟨s', b, hmem, m', hm', rfl, rfl⟩
    exact ⟨b, Std.ExtTreeMap.mem_toList_iff_getElem?_eq_some.mp hmem,
      Std.ExtTreeSet.mem_toList.mp hm'⟩
  · rintro ⟨b, hb, hm⟩
    exact ⟨s, b, Std.ExtTreeMap.mem_toList_iff_getElem?_eq_some.mpr hb, m,
      Std.ExtTreeSet.mem_toList.mpr hm, rfl, rfl⟩

theorem zset_entries_sorted (z : ZSetData F) : (zset_entries z).Pairwise entry_lt := by
  unfold zset_entries
  rw [pairwise_flatMap]
  refine ⟨fun p _ => ?_, ?_⟩
  · -- in one bucket, by member
    rw [pairwise_map]
    exact Std.ExtTreeSet.ordered_toList.imp fun h => .inr ⟨rfl, h⟩
  · -- from bucket to bucket, by score
    refine Std.ExtTreeMap.ordered_keys_toList.imp fun {p q} hpq x hx y hy => ?_
    obtain ⟨m, -, rfl⟩ := mem_map.mp hx
    obtain ⟨m', -, rfl⟩ := mem_map.mp hy
    exact .inl (compare_lt_iff_lt.mp hpq)

theorem zset_listing_sorted (he : LiveIn w key e) (hz : e.data = .ZSet z) (hcons : Consistent z) :
    ((zset_entries z).map Prod.fst).Pairwise (Precedes (.Zscan key) w) := by
  refine pairwise_map.mpr ((zset_entries_sorted z).imp_of_mem fun {a b} ha hb hab => ?_)
  exact ⟨e, z, a.2, b.2, he, hz, (hcons.index _ _).mp (mem_zset_entries.mp ha),
    (hcons.index _ _).mp (mem_zset_entries.mp hb), hab⟩

theorem zscan_page_served
    (he : LiveIn w key e) (hz : e.data = .ZSet z) (hcons : Consistent z) (hn : 0 < n)
    (hlt : n < 2 ^ 64) {m : HashMap Bytes (Entry F)} :
    (zscan_page cursor.toNat n none (zset_entries z)).Wp (may (reads w))
      (fun r _ => Served (.Zscan key) w cursor r) m := by
  have hall : ∀ y, Shows (.Zscan key) w y → y ∈ (zset_entries z).map Prod.fst := by
    rintro y ⟨e', z', he', hz', -, hy⟩
    have hee : e' = e := Option.some.inj (he'.1.symm.trans he.1)
    rw [hee, hz] at hz'
    cases hz'
    obtain ⟨s, hs⟩ := (hcons.existsUnique hy).exists
    exact mem_map_of_mem (f := Prod.fst) (mem_zset_entries.mpr hs)
  have hread : ∀ entries : List (Bytes × F),
      (ScanCmd.Zscan key).elements (with_scores entries) = entries.map Prod.fst := fun entries =>
    elements_pairs entries fun s => bulk (as_bytes (Score.display s))
  refine Prog.Wp.ite (fun hend => ?_) fun hstart => ?_
  · exact served_page (n := 0) (by decide) (zset_listing_sorted he hz hcons) hall
      (serves_end (by rwa [length_map]))
  · refine Prog.Wp.ite (fun _ => served_fail) fun hslice => ?_
    refine served_page (next_cursor_lt _ _) (zset_listing_sorted he hz hcons) hall ?_
    rw [Option.getD_some, hread]
    exact (slice_serves hn hlt hslice (Nat.not_le.mp hstart)).map Prod.fst

theorem parse_u64_of_parse_usize {b : Bytes} (h : parse_usize b = .ok n) :
    parse_u64 b = some n := by
  obtain ⟨s, hs, h⟩ := Prog.bind_eq_ok h
  have hutf := from_utf8_of_str_from_bytes hs
  cases hparse : parse_nat (some 64) s with
  | error e =>
    rw [hparse] at h
    cases h
  | ok n' =>
    rw [hparse] at h
    cases h
    rw [parse_u64, text, hutf]
    show (parse_nat (some 64) s).toOption = _
    rw [hparse]
    rfl

include hcount

/-- ZSCAN with a number: an error, or a count that is not zero. -/
theorem zscan_options_count :
    (∃ e, zscan_options (count_args count) (none, 10) = .error e) ∨
      ∃ n, 0 < n ∧ n < 2 ^ 64 ∧ zscan_options (count_args count) (none, 10) = .ok (none, n) := by
  cases count with
  | none => exact .inr ⟨10, by decide, by decide, rfl⟩
  | some number =>
    have hname : str_from_bytes (as_bytes "COUNT") = .ok "COUNT" := by
      unfold str_from_bytes
      rw [from_utf8_as_bytes]
    have hupper : to_ascii_uppercase "COUNT" = "COUNT" := by decide +kernel
    have hread : zscan_options [as_bytes "COUNT", number] (none, 10)
        = (parse_usize number >>= fun n => .ok (none, n)) := by
      unfold zscan_options
      rw [hname]
      dsimp only [bind, Except.bind]
      rfl
    rw [count_args, hread]
    cases hn : parse_usize number with
    | error e => exact .inl ⟨e, rfl⟩
    | ok n =>
      have hu := parse_u64_of_parse_usize hn
      exact .inr ⟨n, (count_bounds hcount rfl hu).1, parse_u64_lt hu, rfl⟩

theorem zscan_served (hx : Shows (.Zscan key) w x) :
    Served (.Zscan key) w cursor (((ScanCmd.Zscan key).call cursor count).run World.step w).1 := by
  obtain ⟨e, z, he, hz, hcons, -⟩ := hx
  refine run_of_wp (Q := fun r _ => Served (.Zscan key) w cursor r) ?_ (within_reads w)
  unfold ScanCmd.call zscan
  dsimp only
  cases hkey : str_from_bytes key with
  | error err => exact served_fail
  | ok name =>
    have hname : as_bytes name = key := as_bytes_of_from_utf8 (from_utf8_of_str_from_bytes hkey)
    rw [parse_cursor_toString (cursor_lt cursor)]
    rcases zscan_options_count hcount with ⟨err, hopts⟩ | ⟨n, hn, hlt, hopts⟩
    · rw [hopts]
      exact served_fail
    · rw [hopts]
      show (get_zset name >>= _).Wp _ _ _
      unfold get_zset
      rw [hname, Prog.bind_assoc]
      refine wp_get_live he ?_
      dsimp only
      rw [hz]
      exact zscan_page_served he hz hcons hn hlt

theorem call_serves (cmd : ScanCmd) (hx : Shows cmd w x) :
    Served cmd w cursor ((cmd.call cursor count).run World.step w).1 := by
  cases cmd with
  | Scan => exact scan_served hcount
  | Sscan key => exact sscan_served hx
  | Hscan key => exact hscan_served hcount hx
  | Zscan key => exact zscan_served hcount hx

end Calls

/-! ## Iterations -/

theorem turn_returns (cmd : ScanCmd) {x : Bytes} {client : Client} {turn : Turn F}
    (hcount : ∀ number ∈ turn.count, parse_u64 number ≠ some 0) (hx : Shows cmd turn.world x)
    (hahead : x ∈ client.returned ∨ Ahead cmd turn.world client.cursor x)
    (hclient : client.finished = true → x ∈ client.returned) :
    (client.turn cmd turn).finished = true → x ∈ (client.turn cmd turn).returned := by
  have hserved : Served cmd turn.world client.cursor _ := call_serves hcount cmd hx
  unfold Client.turn
  cases hrun : ((cmd.call client.cursor turn.count).run World.step turn.world).1 with
  | error e => exact hclient
  | ok reply =>
    dsimp only
    cases hpage : cmd.page reply with
    | none => exact hclient
    | some p =>
      obtain ⟨next, elements⟩ := p
      intro hlast
      have hzero : next = 0 := beq_iff_eq.mp hlast
      subst hzero
      obtain ⟨listing, hsorted, hall, hserves⟩ := hserved reply 0 elements hrun hpage
      refine mem_append.mpr (hahead.imp id ?_)
      rintro ⟨before, hnodup, hlen, hbefore⟩
      -- the elements in front of it keep it at the cursor or behind it
      have hmem := hall x hx
      have hidx := length_le_idxOf (precedes_asymm cmd turn.world) hsorted hmem hnodup
        fun y hy => ⟨hall y (hbefore y hy).1, (hbefore y hy).2⟩
      rw [hlen] at hidx
      exact hserves.returns hmem hidx

/-- **Iterations.** An element that is there at every call has been returned when the iteration
ends, if at each call at least as many elements as the cursor says come before it, or it has been
returned already. -/
theorem iteration_returns (cmd : ScanCmd) (x : Bytes) (turns : List (Turn F))
    (hcount : ∀ turn ∈ turns, ∀ number ∈ turn.count, parse_u64 number ≠ some 0)
    (hshows : ∀ turn ∈ turns, Shows cmd turn.world x)
    (hahead : Along (Client.turn cmd)
      (fun client turn => x ∈ client.returned ∨ Ahead cmd turn.world client.cursor x)
      .start turns)
    (hfinished : (run (Client.turn cmd) .start turns).finished = true) :
    x ∈ (run (Client.turn cmd) .start turns).returned := by
  have hturns : Along (Client.turn cmd) (fun _ turn =>
      (∀ number ∈ turn.count, parse_u64 number ≠ some 0) ∧ Shows cmd turn.world x) .start turns :=
    along_of_forall fun turn hturn => ⟨hcount turn hturn, hshows turn hturn⟩
  refine (hturns.and hahead).invariant (I := fun client => client.finished = true →
    x ∈ client.returned) (fun client turn hstep hclient => ?_) (fun h => by cases h) hfinished
  exact turn_returns cmd hstep.1.1 hstep.1.2 hstep.2 hclient

/-! ### Three keys -/

def keys_world (keys : List String) : World Resp.Infinity :=
  let entry : Entry Resp.Infinity := ⟨.String [], none, 0, 1, 1⟩
  ⟨⟨keys.foldl (fun m k => m.insert (as_bytes k) entry) ∅, 0, .default, ∅, 0⟩, .still, 0, []⟩

/-- Two calls with COUNT 2, and the keys that are there at each. -/
def two_calls (first second : List String) : List (Turn Resp.Infinity) :=
  [⟨keys_world first, some (as_bytes "2")⟩, ⟨keys_world second, some (as_bytes "2")⟩]

theorem shows_key {keys : List String} {k : String} (h : (keys_world keys).store.keyspace[as_bytes k]?
    = some ⟨.String [], none, 0, 1, 1⟩) : Shows .Scan (keys_world keys) (as_bytes k) :=
  ⟨_, h, fun t ht => by cases ht⟩

/-- Nothing is removed: the third key comes with the second call. -/
theorem iteration_returns_third :
    as_bytes "c" ∈ (run (Client.turn .Scan) .start
      (two_calls ["a", "b", "c"] ["a", "b", "c"])).returned := by
  have hkey : ∀ k ∈ ["a", "b", "c"], Shows .Scan (keys_world ["a", "b", "c"]) (as_bytes k) := by
    intro k hk
    refine shows_key ?_
    fin_cases hk <;> rfl
  refine iteration_returns .Scan (as_bytes "c") _ ?_ ?_ ?_ ?_
  · intro turn hturn number hnumber
    have hcount : number = as_bytes "2" := by
      fin_cases hturn <;> exact (Option.some.inj hnumber).symm
    rw [hcount]
    decide +kernel
  · intro turn hturn
    fin_cases hturn <;> exact hkey "c" (by decide)
  · refine ⟨.inr ⟨[], nodup_nil, rfl, fun y hy => by cases hy⟩, .inr ?_, trivial⟩
    refine ⟨[as_bytes "a", as_bytes "b"], by decide, by decide +kernel, fun y hy => ?_⟩
    fin_cases hy
    · exact ⟨hkey "a" (by decide), rfl⟩
    · exact ⟨hkey "b" (by decide), rfl⟩
  · decide +kernel

/-- The first key is removed between the calls, and the third one is never returned. -/
theorem scan_skips_key :
    (∀ turn ∈ two_calls ["a", "b", "c"] ["b", "c"], Shows .Scan turn.world (as_bytes "c")) ∧
      run (Client.turn .Scan) .start (two_calls ["a", "b", "c"] ["b", "c"])
        = ⟨0, true, [as_bytes "a", as_bytes "b"]⟩ := by
  refine ⟨fun turn hturn => ?_, by decide +kernel⟩
  fin_cases hturn
  · exact shows_key rfl
  · exact shows_key rfl

end ValkeyRs.Scan
