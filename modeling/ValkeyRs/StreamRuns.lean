/-
What the stream commands do to the stream under one key.

`Holds m key sd` says that the key holds the stream `sd`, which does not expire, where a key without
an entry counts as an empty stream. The rules are those of the two accessors and of what is built on
them: behind each of them the key holds a stream again, and that stream is what matters.
-/
import ValkeyRs.StoreWp
import ValkeyRs.StreamGroups

set_option autoImplicit false

open ValkeyRs Text Storage Zset Strings Maps

/-! ## IDs -/

namespace ValkeyRs.Storage.StreamId

variable {a b : StreamId}

theorem lt_iff : a < b ↔ a.ms < b.ms ∨ a.ms = b.ms ∧ a.seq < b.seq := by
  have hlex : a < b ↔ toLex (a.ms.toNat, a.seq.toNat) < toLex (b.ms.toNat, b.seq.toNat) := Iff.rfl
  rw [hlex, Prod.Lex.toLex_lt_toLex, UInt64.lt_iff_toNat_lt, UInt64.lt_iff_toNat_lt,
    ← UInt64.toNat_inj]

theorem le_iff : a ≤ b ↔ a.ms < b.ms ∨ a.ms = b.ms ∧ a.seq ≤ b.seq := by
  have hlex : a ≤ b ↔ toLex (a.ms.toNat, a.seq.toNat) ≤ toLex (b.ms.toNat, b.seq.toNat) := Iff.rfl
  rw [hlex, Prod.Lex.toLex_le_toLex, UInt64.lt_iff_toNat_lt, UInt64.le_iff_toNat_le,
    ← UInt64.toNat_inj]

def seq_max : UInt64 := UInt64.ofNat (2 ^ 64 - 1)

theorem lt_next (h : a.seq ≠ seq_max) : a < ⟨a.ms, a.seq + 1⟩ := by
  refine lt_iff.mpr (.inr ⟨rfl, ?_⟩)
  have hne : a.seq.toNat ≠ 2 ^ 64 - 1 := by
    intro heq
    apply h
    rw [← UInt64.toNat_inj, heq]
    rfl
  have hlt := a.seq.toNat_lt
  rw [UInt64.lt_iff_toNat_lt, UInt64.toNat_add]
  show a.seq.toNat < (a.seq.toNat + 1) % 2 ^ 64
  omega

end ValkeyRs.Storage.StreamId

namespace ValkeyRs.Streams

variable {F : Type} [Score F] {α : Type}

/-! ## The stream under a key -/

/-- The key holds this stream, or nothing, which counts as an empty stream. -/
structure Holds (m : HashMap Bytes (Entry F)) (key : Bytes) (sd : StreamData) : Prop where
  found : ∀ e, m[key]? = some e → e.data = .Stream sd ∧ e.expires_at = none
  absent : m[key]? = none → sd = .new

def stream_of (m : HashMap Bytes (Entry F)) (key : Bytes) : StreamData :=
  match m[key]?.map Entry.data with
  | some (.Stream sd) => sd
  | _ => .new

theorem Holds.stream_of_eq {m : HashMap Bytes (Entry F)} {key : Bytes} {sd : StreamData}
    (h : Holds m key sd) : stream_of m key = sd := by
  unfold stream_of
  cases he : m[key]? with
  | none => exact (h.absent he).symm
  | some e =>
    rw [Option.map_some, (h.found e he).1]

theorem holds_of_absent {m : HashMap Bytes (Entry F)} {key : Bytes} (h : m[key]? = none) :
    Holds m key .new :=
  ⟨fun _ he => (nomatch h.symm.trans he), fun _ => rfl⟩

section Rules

variable {C : Instant → Prop} {m : HashMap Bytes (Entry F)} {key : Bytes} {sd : StreamData}
  {Q : Except Halt α → HashMap Bytes (Entry F) → Prop}

theorem wp_get_stream (h : Holds m key sd) {f : StreamData → StoreM F α}
    (hf : (f sd).Wp (may C) Q m) : (get_stream key >>= f).Wp (may C) Q m := by
  unfold get_stream
  rw [Prog.bind_assoc]
  refine wp_access.mpr ?_
  rw [alter_eq_self rfl]
  cases he : m[key]? with
  | none =>
    rw [h.absent he] at hf
    exact hf
  | some e =>
    dsimp only
    rw [(h.found e he).1]
    exact hf

theorem holds_saved (h : Holds m key sd) (sd' : StreamData) {vacant : Entry F}
    (hdata : vacant.data = .Stream sd') (hexp : vacant.expires_at = none) :
    Holds (m.alter key fun entry => some (save_entry sd' vacant entry)) key sd' := by
  constructor
  · intro e he
    rw [Std.ExtTreeMap.getElem?_alter_self] at he
    cases he
    cases hfound : m[key]? with
    | none => exact ⟨hdata, hexp⟩
    | some e => exact ⟨rfl, (h.found e hfound).2⟩
  · intro hnone
    rw [Std.ExtTreeMap.getElem?_alter_self] at hnone
    cases hnone

theorem wp_save_stream (h : Holds m key sd) {sd' : StreamData} {f : Unit → StoreM F α}
    (hf : ∀ m', (∀ k, k ≠ key → m'[k]? = m[k]?) → Holds m' key sd' → (f ()).Wp (may C) Q m') :
    (save_stream key sd' >>= f).Wp (may C) Q m := by
  refine wp_now.mpr fun now _ => wp_access.mpr ?_
  exact hf _ (fun k hk => alter_of_ne hk) (holds_saved h sd' rfl rfl)

theorem wp_exists_stream (h : Holds m key sd) {f : Bool → StoreM F α}
    (hf : ∀ b, (f b).Wp (may C) Q m) : (Store.exists_key key >>= f).Wp (may C) Q m := by
  unfold Store.exists_key
  rw [Prog.bind_assoc]
  refine wp_get (fun _ => hf _) (fun _ _ _ => hf _) fun e t now he ht _ _ => ?_
  rw [(h.found e he).2] at ht
  cases ht

end Rules

/-- The program leaves a stream under the key of which `Q` holds, and all other keys as they are. -/
def Leads (C : Instant → Prop) (m : HashMap Bytes (Entry F)) (key : Bytes) (p : StoreM F α)
    (Q : Except Halt α → StreamData → Prop) : Prop :=
  p.Wp (may C) (fun r m' => (∀ k, k ≠ key → m'[k]? = m[k]?) ∧ ∃ sd, Holds m' key sd ∧ Q r sd) m

section Commands

variable {C : Instant → Prop} {m : HashMap Bytes (Entry F)} {key : Bytes} {sd : StreamData}

theorem Leads.mono {Q Q' : Except Halt α → StreamData → Prop} {p : StoreM F α}
    (h : Leads C m key p Q) (hQ : ∀ r sd, Q r sd → Q' r sd) : Leads C m key p Q' := by
  refine Prog.Wp.mono h ?_
  rintro r m' ⟨hothers, sd', hholds, hr⟩
  exact ⟨hothers, sd', hholds, hQ r sd' hr⟩

theorem Leads.fail {Q : Except Halt α → StreamData → Prop} (h : Holds m key sd) {e : Halt}
    (hQ : Q (.error e) sd) : Leads C m key (.fail e : StoreM F α) Q := ⟨fun _ _ => rfl, sd, h, hQ⟩

theorem Leads.lift {β : Type} {Q : Except Halt α → StreamData → Prop} (h : Holds m key sd)
    {x : Except Halt β} {f : β → StoreM F α} (herror : ∀ e, x = .error e → Q (.error e) sd)
    (hok : ∀ b, x = .ok b → Leads C m key (f b) Q) :
    Leads C m key ((liftM x : StoreM F β) >>= f) Q := by
  cases hx : x with
  | error e => exact ⟨fun _ _ => rfl, sd, h, herror e hx⟩
  | ok b => exact hok b hx

theorem Leads.get_stream {Q : Except Halt α → StreamData → Prop} (h : Holds m key sd)
    {f : StreamData → StoreM F α} (hf : Leads C m key (f sd) Q) :
    Leads C m key (get_stream key >>= f) Q := wp_get_stream h hf

theorem Leads.save {Q : Except Halt α → StreamData → Prop} (h : Holds m key sd) {sd' : StreamData}
    {a : α} (hQ : Q (.ok a) sd') :
    Leads C m key (do save_stream key sd'; return a : StoreM F α) Q :=
  wp_save_stream h fun _ hothers h' => ⟨hothers, sd', h', hQ⟩

end Commands

end ValkeyRs.Streams
