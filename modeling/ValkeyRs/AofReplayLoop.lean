/-
The loop that reads the log back: when it ends, and what it passes on.

It ends if and only if it never comes to a buffer that begins with `*` and has a first line that is
no number (`replay_ends_iff`): the parser then reports an error, and the search for the next `*`
finds the one it is standing on.

On a file that was written by `append`, the loop passes on the commands of the file if wherever a
read ends inside a command, the parser can tell (`replay_exact`). It can tell between two arguments
and inside the first line, and it cannot inside an argument, unless the rest of the line that was
cut is too short for the arguments that are still missing.
-/
import ValkeyRs.AofLog
import ValkeyRs.RespRoundTrip

set_option autoImplicit false

open ValkeyRs Text Resp List

namespace ValkeyRs.Aof

variable {room : ℕ → Bool}

/-! ## The parser gets on -/

variable {buf : Bytes}

variable {offset n : ℕ} {items : List RespToken} {s : Replay}

theorem bulk_token_le {line_end : ℕ} {len : ℤ} (h : offset ≤ line_end) :
    offset ≤ (bulk_token buf offset line_end len).2 := by
  unfold bulk_token
  by_cases hneg : len < 0
  · rw [if_pos hneg]
    exact h
  · rw [if_neg hneg]
    by_cases hshort : line_end + len.toNat + 2 > buf.length
    · rw [if_pos hshort]
    · rw [if_neg hshort]
      omega

theorem token_at_le (buf : Bytes) (offset : ℕ) (first : UInt8) (line : Option (ℕ × ℕ)) :
    offset ≤ (token_at buf offset first line).2 := by
  unfold token_at
  by_cases hbulk : first = 36
  · rw [if_pos hbulk]
    cases line with
    | none => exact Nat.le_succ offset
    | some p => exact bulk_token_le (by omega)
  rw [if_neg hbulk]
  by_cases hsimple : first = 43
  · rw [if_pos hsimple]
    cases line with
    | none => exact Nat.le_succ offset
    | some p =>
      dsimp only
      omega
  rw [if_neg hsimple]
  by_cases hint : first = 58
  · rw [if_pos hint]
    cases line with
    | none => exact Nat.le_succ offset
    | some p =>
      dsimp only
      omega
  · rw [if_neg hint]
    exact Nat.le_succ offset

theorem parse_token_le (buf : Bytes) (offset : ℕ) : offset ≤ (parse_token buf offset).2 := by
  unfold parse_token
  cases buf[offset]? with
  | none => exact le_rfl
  | some first => exact token_at_le buf offset first _

theorem parse_tokens_le {count offset' : ℕ} {items' : List RespToken}
    (h : parse_tokens buf count offset items = some (items', offset')) : offset ≤ offset' := by
  induction count generalizing offset items with
  | zero =>
    cases h
    exact le_rfl
  | succ count ih =>
    rw [parse_tokens] at h
    split at h
    · cases h
    · exact (parse_token_le buf offset).trans (ih h)

theorem parse_next_array_pos {consumed : ℕ}
    (h : parse_next_array room buf = .Ok consumed items) : 0 < consumed ∧ buf ≠ [] := by
  unfold parse_next_array at h
  split at h
  · cases h
  split at h
  · cases h
  split at h
  · cases h
  split at h
  · cases h
  refine ⟨?_, cons_ne_nil _ _⟩
  unfold parse_items at h
  split at h
  · cases h
    omega
  split at h
  · cases h
  split at h
  · cases h
  · rename_i hitems
    cases h
    have hle := parse_tokens_le hitems
    omega

/-- The parser gives up only on a buffer that does not begin a command, or on a count that is no
number. -/
def Jammed (room : ℕ → Bool) (s : Replay) : Prop :=
  s.buf.head? = some 42 ∧ ∃ e, parse_next_array room s.buf = .Err e

/-! ## A turn -/

theorem turn_again {s' : Replay} (h : turn room s = .again s') :
    (∃ consumed items, parse_next_array room s.buf = .Ok consumed items ∧
      s' = ⟨s.buf.drop consumed, s.reads, if (items.map RespToken.to_bytes).isEmpty then s.handed
        else s.handed ++ [items.map RespToken.to_bytes]⟩) ∨
    (∃ chunk reads, parse_next_array room s.buf = .Incomplete ∧ s.reads = chunk :: reads ∧
      s' = ⟨s.buf ++ chunk.bytes, reads, s.handed⟩) ∨
    ∃ e pos, parse_next_array room s.buf = .Err e ∧ s.buf.findIdx? (· = 42) = some pos ∧
      s' = { s with buf := s.buf.drop pos } := by
  unfold turn at h
  cases hparse : parse_next_array room s.buf with
  | Ok consumed items =>
    rw [hparse] at h
    cases h
    exact .inl ⟨consumed, items, rfl, rfl⟩
  | Incomplete =>
    rw [hparse] at h
    cases hreads : s.reads with
    | nil =>
      rw [hreads] at h
      cases h
    | cons chunk reads =>
      rw [hreads] at h
      cases h
      exact .inr (.inl ⟨chunk, reads, rfl, rfl, rfl⟩)
  | Err e =>
    rw [hparse] at h
    cases hfind : s.buf.findIdx? (· = 42) with
    | none =>
      rw [hfind] at h
      cases h
    | some pos =>
      rw [hfind] at h
      cases h
      exact .inr (.inr ⟨e, pos, rfl, rfl, rfl⟩)
  | Panic =>
    rw [hparse] at h
    cases h

theorem turn_ended {s' : Replay} (h : turn room s = .ended s') : s' = s := by
  unfold turn at h
  split at h
  · cases h
  · split at h
    · cases h
      rfl
    · cases h
  · split at h
    · cases h
    · cases h
      rfl
  · cases h

/-- A turn gets on: it uses up some of the buffer or reads on, if it is not the last one. -/
def Productive (room : ℕ → Bool) (s : Replay) : Prop :=
  ∀ s', turn room s = .again s' →
    (s'.reads = s.reads ∧ s'.buf.length < s.buf.length) ∨
    ∃ chunk, s.reads = chunk :: s'.reads ∧ s'.buf = s.buf ++ chunk.bytes

theorem turn_of_jammed (h : Jammed room s) : turn room s = .again s := by
  obtain ⟨hhead, e, herr⟩ := h
  have hfind : s.buf.findIdx? (· = 42) = some 0 := by
    cases hbuf : s.buf with
    | nil =>
      rw [hbuf] at hhead
      cases hhead
    | cons b rest =>
      rw [hbuf] at hhead
      cases hhead
      rfl
  unfold turn
  rw [herr]
  rw [hfind]
  rfl

theorem productive_iff (s : Replay) : Productive room s ↔ ¬ Jammed room s := by
  constructor
  · intro hproductive hjammed
    rcases hproductive s (turn_of_jammed hjammed) with ⟨-, hlt⟩ | ⟨chunk, hreads, -⟩
    · exact absurd hlt (lt_irrefl _)
    · exact absurd (congrArg length hreads) (by rw [length_cons]; omega)
  · intro hjammed s' hturn
    rcases turn_again hturn with ⟨consumed, items, hparse, rfl⟩ | ⟨chunk, reads, -, hreads, rfl⟩ |
      ⟨e, pos, hparse, hfind, rfl⟩
    · obtain ⟨hpos, hne⟩ := parse_next_array_pos hparse
      have hlen : 0 < s.buf.length := length_pos_of_ne_nil hne
      refine .inl ⟨rfl, ?_⟩
      rw [length_drop]
      omega
    · exact .inr ⟨chunk, hreads, rfl⟩
    · -- the `*` that was found is not the first byte, or the loop would be jammed
      obtain ⟨hlt, hstar, -⟩ := findIdx?_eq_some_iff_getElem.mp hfind
      have hpos : pos ≠ 0 := by
        rintro rfl
        refine hjammed ⟨?_, e, hparse⟩
        rw [head?_eq_getElem?, getElem?_eq_getElem hlt]
        exact congrArg some (of_decide_eq_true hstar)
      refine .inl ⟨rfl, ?_⟩
      rw [length_drop]
      omega

/-! ## The end of the loop -/

/-- The loop comes from the first state to the second. -/
def Reaches (room : ℕ → Bool) : Replay → Replay → Prop :=
  Relation.ReflTransGen fun s s' => turn room s = .again s'

/-- The loop is over after some number of turns. -/
def Ends (room : ℕ → Bool) (s : Replay) : Prop := ∃ n result, replay room n s = some result

theorem replay_of_jammed (h : Jammed room s) (n : ℕ) : replay room n s = none := by
  induction n with
  | zero => rfl
  | succ n ih =>
    rw [replay, turn_of_jammed h]
    exact ih

theorem replay_of_turn {s' : Replay} (h : turn room s = .again s') (n : ℕ) :
    replay room (n + 1) s = replay room n s' := by
  rw [replay, h]

theorem ends_of_not_jammed (h : ∀ s', Reaches room s s' → ¬ Jammed room s') : Ends room s := by
  generalize hreads : s.reads.length = reads
  induction reads using Nat.strong_induction_on generalizing s with
  | _ reads ihreads =>
    generalize hbuf : s.buf.length = buf
    induction buf using Nat.strong_induction_on generalizing s with
    | _ buf ihbuf =>
      cases hturn : turn room s with
      | ended s' => exact ⟨1, .ended s', by rw [replay, hturn]⟩
      | crashed s' => exact ⟨1, .crashed s', by rw [replay, hturn]⟩
      | again s' =>
        have hnext : ∀ s'', Reaches room s' s'' → ¬ Jammed room s'' := fun s'' hs'' =>
          h s'' (Relation.ReflTransGen.head hturn hs'')
        have hends : Ends room s' := by
          have hproductive := (productive_iff s).mpr (h s Relation.ReflTransGen.refl)
          rcases hproductive s' hturn with ⟨hsame, hlt⟩ | ⟨chunk, hchunk, -⟩
          · refine ihbuf s'.buf.length ?_ hnext ?_ rfl
            · rw [← hbuf]
              exact hlt
            · rw [hsame, hreads]
          · refine ihreads s'.reads.length ?_ hnext rfl
            rw [← hreads, hchunk, length_cons]
            exact Nat.lt_succ_self _
        obtain ⟨n, result, hresult⟩ := hends
        exact ⟨n + 1, result, by rw [replay_of_turn hturn, hresult]⟩

/-- **The end of the replay.** -/
theorem replay_ends_iff (room : ℕ → Bool) (reads : List Chunk) :
    (Ends room (.start reads) ∧ ∀ s, Reaches room (.start reads) s → Productive room s) ↔
      ∀ s, Reaches room (.start reads) s → ¬ Jammed room s := by
  constructor
  · rintro ⟨-, hproductive⟩ s hs
    exact (productive_iff s).mp (hproductive s hs)
  · intro h
    exact ⟨ends_of_not_jammed h, fun s hs => (productive_iff s).mpr (h s hs)⟩

/-- A file of four bytes, `*x` and a line end, in one read. -/
def bad_count : Chunk := ⟨as_bytes "*x\r\n", by decide, by decide⟩

theorem replay_bad_count_hangs : ¬ Ends (fun _ => true) (.start [bad_count]) := by
  rintro ⟨n, result, hresult⟩
  have hjammed : Jammed (fun _ => true) ⟨bad_count.bytes, [], []⟩ :=
    ⟨by decide, "bad count", by decide⟩
  -- the first turn reads the file, every later one finds the jam
  cases n with
  | zero => cases hresult
  | succ n => cases hresult.symm.trans (replay_of_jammed hjammed n)

/-! ## Parsing what was written -/

/-- The lengths are those of vectors. -/
def Sized (cmd : List Bytes) : Prop := cmd.length < 2 ^ 63 ∧ ∀ arg ∈ cmd, arg.length < 2 ^ 63

theorem parse_i64_length (h : n < 2 ^ 63) : parse_int (some 64) (toString n) = .ok (n : ℤ) := by
  rw [← toString_natCast]
  refine parse_signed_repr _ _ _ (fun _ => ?_) (fun hneg => ?_)
  · exact decide_eq_true (Nat.le_sub_one_of_lt h)
  · exact absurd hneg (not_lt.mpr (Int.natCast_nonneg n))

theorem cr_notMem_length (n : ℕ) : (13 : UInt8) ∉ as_bytes (toString n) := by
  rw [← toString_natCast]
  exact cr_notMem_toString n

theorem read_line_length (n : ℕ) (r : Bytes) :
    read_line (as_bytes (toString n) ++ (crlf ++ r)) =
      some ((as_bytes (toString n)).length, (as_bytes (toString n)).length + 2) := by
  unfold read_line
  rw [find_window_line (not_crlf_of_no_cr (cr_notMem_length n))]
  rfl

theorem length_append_arg (arg : Bytes) :
    (append_arg arg).length = (as_bytes (toString arg.length)).length + arg.length + 5 := by
  simp only [append_arg, length_cons, length_append, crlf, length_nil]
  omega

theorem parse_token_line {hd tl : Bytes} (hn : n < 2 ^ 63) :
    parse_token (hd ++ 36 :: (as_bytes (toString n) ++ (crlf ++ tl))) hd.length =
      bulk_token (hd ++ 36 :: (as_bytes (toString n) ++ (crlf ++ tl))) hd.length
        (hd.length + 1 + ((as_bytes (toString n)).length + 2)) n := by
  have hfirst : (hd ++ 36 :: (as_bytes (toString n) ++ (crlf ++ tl)))[hd.length]? = some 36 := by
    rw [getElem?_append_right le_rfl, Nat.sub_self]
    rfl
  have hrest : (hd ++ 36 :: (as_bytes (toString n) ++ (crlf ++ tl))).drop (hd.length + 1) =
      as_bytes (toString n) ++ (crlf ++ tl) := by
    rw [drop_append, drop_eq_nil_of_le (Nat.le_succ _), Nat.add_sub_cancel_left]
    rfl
  unfold parse_token
  rw [hfirst]
  dsimp only
  unfold token_at
  rw [hrest, read_line_length, if_pos rfl]
  dsimp only
  rw [hrest, take_left, utf8_or, from_utf8_as_bytes]
  rw [parse_or, parse_i64_length hn]

theorem parse_token_append (hd : Bytes) {arg : Bytes} (harg : arg.length < 2 ^ 63) (r : Bytes) :
    parse_token (hd ++ (append_arg arg ++ r)) hd.length =
      (.BulkString arg, hd.length + (append_arg arg).length) := by
  have hshape : append_arg arg ++ r =
      36 :: (as_bytes (toString arg.length) ++ (crlf ++ (arg ++ (crlf ++ r)))) := by
    simp only [append_arg, cons_append, append_assoc]
  have hhead : ∀ tl : Bytes, (hd ++ 36 :: (as_bytes (toString arg.length) ++ (crlf ++ tl))).drop
      (hd.length + 1 + ((as_bytes (toString arg.length)).length + 2)) = tl := by
    intro tl
    have hcut : hd ++ 36 :: (as_bytes (toString arg.length) ++ (crlf ++ tl)) =
        (hd ++ 36 :: (as_bytes (toString arg.length) ++ crlf)) ++ tl := by
      simp only [append_assoc, cons_append]
    rw [hcut]
    refine drop_left' ?_
    simp only [length_append, length_cons, crlf, length_nil]
    omega
  have hlen := length_append_arg arg
  have hroom : ¬ hd.length + 1 + ((as_bytes (toString arg.length)).length + 2) + arg.length + 2 >
      (hd ++ 36 :: (as_bytes (toString arg.length) ++ (crlf ++ (arg ++ (crlf ++ r))))).length := by
    simp only [length_append, length_cons, crlf, length_nil]
    omega
  rw [hshape, parse_token_line harg, bulk_token, if_neg (not_lt.mpr (Int.natCast_nonneg _)),
    Int.toNat_natCast, if_neg hroom, hhead, take_left]
  refine Prod.ext rfl ?_
  omega

theorem parse_tokens_append {args : List Bytes} (h : ∀ arg ∈ args, arg.length < 2 ^ 63)
    (hd r : Bytes) (items : List RespToken) :
    parse_tokens (hd ++ (args.flatMap append_arg ++ r)) args.length hd.length items =
      some (items ++ args.map .BulkString, hd.length + (args.flatMap append_arg).length) := by
  induction args generalizing hd items with
  | nil => simp [parse_tokens]
  | cons arg args ih =>
    have htoken := parse_token_append hd (h arg mem_cons_self) (args.flatMap append_arg ++ r)
    have hrest := ih (fun a ha => h a (mem_cons_of_mem _ ha)) (hd ++ append_arg arg)
      (items ++ [.BulkString arg])
    have hne : ¬ (hd ++ (append_arg arg ++ (args.flatMap append_arg ++ r))).length ≤ hd.length := by
      have hpos : 0 < (append_arg arg).length := Nat.succ_pos _
      rw [length_append, length_append]
      omega
    rw [append_assoc, length_append] at hrest
    rw [flatMap_cons, append_assoc, length_cons, parse_tokens, if_neg hne, htoken]
    rw [hrest, map_cons, append_assoc, length_append, Nat.add_assoc]
    rfl

theorem parse_next_array_line (hn : n < 2 ^ 63) (hroom : room n = true) (tl : Bytes) :
    parse_next_array room (42 :: (as_bytes (toString n) ++ (crlf ++ tl))) =
      match parse_tokens (42 :: (as_bytes (toString n) ++ (crlf ++ tl))) n
          (1 + ((as_bytes (toString n)).length + 2)) [] with
      | none => .Incomplete
      | some (items, offset) => .Ok offset items := by
  unfold parse_next_array
  dsimp only
  rw [if_neg (not_not.mpr rfl), read_line_length]
  dsimp only
  rw [parse_count, take_left, from_utf8_as_bytes]
  dsimp only
  rw [parse_i64_length hn]
  dsimp only
  rw [parse_items, if_neg (not_lt.mpr (Int.natCast_nonneg n)), Int.toNat_natCast, hroom]
  rfl

theorem parse_next_array_append {cmd : List Bytes} (h : Sized cmd) (hroom : room cmd.length = true)
    (r : Bytes) : parse_next_array room (append cmd ++ r) =
      .Ok (append cmd).length (cmd.map .BulkString) := by
  have hshape : append cmd ++ r =
      42 :: (as_bytes (toString cmd.length) ++ (crlf ++ (cmd.flatMap append_arg ++ r))) := by
    simp only [append, cons_append, append_assoc]
  have hsplit : 42 :: (as_bytes (toString cmd.length) ++ (crlf ++ (cmd.flatMap append_arg ++ r))) =
      (42 :: (as_bytes (toString cmd.length) ++ crlf)) ++ (cmd.flatMap append_arg ++ r) := by
    simp only [cons_append, append_assoc]
  have hhd : (42 :: (as_bytes (toString cmd.length) ++ crlf) : Bytes).length =
      1 + ((as_bytes (toString cmd.length)).length + 2) := by
    simp only [length_cons, length_append, crlf, length_nil]
    omega
  have htokens := parse_tokens_append h.2 (42 :: (as_bytes (toString cmd.length) ++ crlf)) r []
  rw [hhd, ← hsplit] at htokens
  have hlen : (append cmd).length = 1 + ((as_bytes (toString cmd.length)).length + 2) +
      (cmd.flatMap append_arg).length := by
    simp only [append, length_cons, length_append, crlf, length_nil]
    omega
  rw [hshape, parse_next_array_line h.1 hroom, htokens, hlen]
  rfl

/-! ## Parsing what is cut off -/

theorem cut_cases {A B x z : Bytes} (h : x ++ z = A ++ B) :
    (∃ y, y ≠ [] ∧ x ++ y = A) ∨ ∃ y, x = A ++ y ∧ y ++ z = B := by
  rcases append_eq_append_iff.mp h with ⟨y, hA, hz⟩ | ⟨y, hx, hB⟩
  · by_cases hy : y = []
    · subst hy
      refine .inr ⟨[], ?_, hz⟩
      rw [hA, append_nil, append_nil]
    · exact .inl ⟨y, hy, hA.symm⟩
  · exact .inr ⟨y, hx, hB.symm⟩

theorem read_line_cut {x z : Bytes} (h : x ++ z = as_bytes (toString n) ++ crlf)
    (hz : z ≠ []) : read_line x = none := by
  have hwhole := find_window_line (not_crlf_of_no_cr (cr_notMem_length n)) []
  rw [append_nil, ← h] at hwhole
  unfold read_line
  cases hfind : find_window x with
  | none => rfl
  | some i =>
    -- an end that is there stays where it is, and then nothing was cut
    have hsame := ((find_window_spec hfind).2 z).symm.trans hwhole
    have hlt := (find_window_spec hfind).1
    have hlen := congrArg length h
    have hpos := length_pos_of_ne_nil hz
    simp only [length_append, crlf, length_cons, length_nil] at hlen
    cases hsame
    omega

/-- From this position on, every item is empty: the same argument over and over because it is too
short, or bytes that begin no item. -/
def Spent (buf : Bytes) (offset : ℕ) : Prop :=
  parse_token buf offset = (.BulkString [], offset) ∨
    ∀ b ∈ buf.drop offset, b ≠ 36 ∧ b ≠ 43 ∧ b ≠ 58

theorem Spent.token (h : Spent buf offset) (hlt : offset < buf.length) :
    (parse_token buf offset).1.to_bytes = [] ∧ Spent buf (parse_token buf offset).2 := by
  rcases h with hsame | hplain
  · rw [hsame]
    exact ⟨rfl, .inl hsame⟩
  · obtain ⟨hbulk, hsimple, hint⟩ := hplain buf[offset] (mem_drop_iff_getElem.mpr
      ⟨0, by omega, by simp⟩)
    have htoken : parse_token buf offset = (.SimpleString "", offset + 1) := by
      unfold parse_token
      rw [getElem?_eq_getElem hlt]
      dsimp only
      unfold token_at
      rw [if_neg hbulk, if_neg hsimple, if_neg hint]
    rw [htoken]
    refine ⟨rfl, .inr fun b hb => hplain b ?_⟩
    rw [← drop_drop] at hb
    exact mem_of_mem_drop hb

/-- The last item is empty. -/
def EndsEmpty (items : List RespToken) : Prop := items.getLast?.map RespToken.to_bytes = some []

theorem endsEmpty_append {t : RespToken} (h : t.to_bytes = []) : EndsEmpty (items ++ [t]) := by
  unfold EndsEmpty
  rw [getLast?_append, getLast?_singleton]
  exact congrArg some h

theorem Spent.tokens {count offset' : ℕ} {items' : List RespToken}
    (h : Spent buf offset) (hitems : EndsEmpty items)
    (hrun : parse_tokens buf count offset items = some (items', offset')) : EndsEmpty items' := by
  induction count generalizing offset items with
  | zero =>
    cases hrun
    exact hitems
  | succ count ih =>
    rw [parse_tokens] at hrun
    by_cases hle : buf.length ≤ offset
    · rw [if_pos hle] at hrun
      cases hrun
    · rw [if_neg hle] at hrun
      obtain ⟨hempty, hspent⟩ := h.token (not_le.mp hle)
      exact ih hspent (endsEmpty_append hempty) hrun

theorem parse_token_cut {hd q z arg : Bytes} (harg : arg.length < 2 ^ 63)
    (h : q ++ z = append_arg arg) (hq : q ≠ []) (hz : z ≠ []) :
    (parse_token (hd ++ q) hd.length).1.to_bytes = [] ∧
      Spent (hd ++ q) (parse_token (hd ++ q) hd.length).2 := by
  obtain ⟨b, x, rfl⟩ := exists_cons_of_ne_nil hq
  rw [append_arg, cons_append] at h
  obtain ⟨rfl, hx⟩ := cons.inj h
  have hassoc : as_bytes (toString arg.length) ++ (crlf ++ (arg ++ crlf)) =
      (as_bytes (toString arg.length) ++ crlf) ++ (arg ++ crlf) := by
    rw [append_assoc]
  rw [hassoc] at hx
  rcases cut_cases hx with ⟨y, hy, hline⟩ | ⟨y, rfl, hrest⟩
  · -- cut inside its first line: the `$` is skipped, and then the digits one by one
    have hfirst : (hd ++ 36 :: x)[hd.length]? = some 36 := by
      rw [getElem?_append_right le_rfl, Nat.sub_self]
      rfl
    have hdrop : (hd ++ 36 :: x).drop (hd.length + 1) = x := by
      rw [drop_append, drop_eq_nil_of_le (Nat.le_succ _), Nat.add_sub_cancel_left]
      rfl
    have htoken : parse_token (hd ++ 36 :: x) hd.length = (.BulkString [], hd.length + 1) := by
      unfold parse_token
      rw [hfirst]
      rw [hdrop, read_line_cut hline hy]
      rfl
    rw [htoken]
    refine ⟨rfl, .inr fun b hb => ?_⟩
    rw [hdrop] at hb
    have hmem : b ∈ as_bytes (toString arg.length) ++ crlf := by
      rw [← hline]
      exact mem_append_left y hb
    rcases mem_append.mp hmem with hdigit | hend
    · rw [← toString_natCast] at hdigit
      have hrange := toNat_of_mem_toString hdigit
      refine ⟨?_, ?_, ?_⟩ <;> rintro rfl <;> exact absurd hrange (by decide)
    · rcases mem_cons.mp hend with rfl | hend
      · decide
      · rw [mem_singleton.mp hend]
        decide
  · -- cut inside the argument: the parser stays where it is
    have hshort : hd.length + 1 + ((as_bytes (toString arg.length)).length + 2) + arg.length + 2 >
        (hd ++ 36 :: (as_bytes (toString arg.length) ++ (crlf ++ y))).length := by
      have hlen := congrArg length hrest
      have hpos := length_pos_of_ne_nil hz
      simp only [length_append, length_cons, crlf, length_nil] at hlen ⊢
      omega
    have htoken : parse_token (hd ++ 36 :: (as_bytes (toString arg.length) ++ (crlf ++ y)))
        hd.length = (.BulkString [], hd.length) := by
      rw [parse_token_line harg, bulk_token, if_neg (not_lt.mpr (Int.natCast_nonneg _)),
        Int.toNat_natCast, if_pos hshort]
    rw [append_assoc, htoken]
    exact ⟨rfl, .inl htoken⟩

theorem parse_tokens_cut {args : List Bytes} (h : ∀ arg ∈ args, arg.length < 2 ^ 63) {hd q z : Bytes}
    (hcut : q ++ z = args.flatMap append_arg) (hz : z ≠ []) {items' : List RespToken} {offset' : ℕ}
    (hrun : parse_tokens (hd ++ q) args.length hd.length items = some (items', offset')) :
    EndsEmpty items' := by
  induction args generalizing hd q items with
  | nil => exact absurd (append_eq_nil_iff.mp hcut).2 hz
  | cons arg args ih =>
    have harg := h arg mem_cons_self
    have hargs := fun a ha => h a (mem_cons_of_mem arg ha)
    rw [length_cons, parse_tokens] at hrun
    by_cases hle : (hd ++ q).length ≤ hd.length
    · rw [if_pos hle] at hrun
      cases hrun
    rw [if_neg hle] at hrun
    rcases cut_cases hcut with ⟨y, hy, hq⟩ | ⟨y, rfl, hrest⟩
    · have hne : q ≠ [] := by
        rintro rfl
        rw [append_nil] at hle
        exact hle le_rfl
      obtain ⟨hempty, hspent⟩ := parse_token_cut harg hq hne hy
      exact hspent.tokens (endsEmpty_append hempty) hrun
    · rw [parse_token_append hd harg y] at hrun
      rw [← append_assoc, ← length_append] at hrun
      exact ih hargs hrest hrun

theorem parse_next_array_cut {cmd : List Bytes} (h : Sized cmd) (hroom : room cmd.length = true)
    {r z : Bytes} (hcut : r ++ z = append cmd) (hz : z ≠ []) :
    parse_next_array room r = .Incomplete ∨
      ∃ consumed items, parse_next_array room r = .Ok consumed items ∧ EndsEmpty items := by
  cases r with
  | nil => exact .inl rfl
  | cons b x =>
    rw [append, cons_append] at hcut
    obtain ⟨rfl, hx⟩ := cons.inj hcut
    rw [← append_assoc] at hx
    rcases cut_cases hx with ⟨y, hy, hline⟩ | ⟨q, rfl, hrest⟩
    · left
      unfold parse_next_array
      dsimp only
      rw [if_neg (not_not.mpr rfl), read_line_cut hline hy]
    · rw [append_assoc, parse_next_array_line h.1 hroom]
      cases htokens : parse_tokens (42 :: (as_bytes (toString cmd.length) ++ (crlf ++ q))) cmd.length
          (1 + ((as_bytes (toString cmd.length)).length + 2)) [] with
      | none => exact .inl rfl
      | some p =>
        obtain ⟨items, offset⟩ := p
        refine .inr ⟨offset, items, rfl, ?_⟩
        have hsplit : 42 :: (as_bytes (toString cmd.length) ++ (crlf ++ q)) =
            (42 :: (as_bytes (toString cmd.length) ++ crlf)) ++ q := by
          simp only [cons_append, append_assoc]
        have hhd : (42 :: (as_bytes (toString cmd.length) ++ crlf) : Bytes).length =
            1 + ((as_bytes (toString cmd.length)).length + 2) := by
          simp only [length_cons, length_append, crlf, length_nil]
          omega
        rw [hsplit, ← hhd] at htokens
        exact parse_tokens_cut h.2 hrest hz htokens

/-! ## Replaying a file that was written -/

def file (reads : List Chunk) : Bytes := reads.flatMap Chunk.bytes

/-- Wherever a read ends inside a command, the parser can tell that something is missing. -/
def Clean (room : ℕ → Bool) (cmds : List (List Bytes)) (reads : List Chunk) : Prop :=
  ∀ before after pre cmd post r z, reads = before ++ after → cmds = pre ++ cmd :: post →
    r ++ z = append cmd → z ≠ [] → file before = log pre ++ r →
    parse_next_array room r = .Incomplete

/-- The loop ends, and has passed on these commands. -/
def Exact (room : ℕ → Bool) (cmds : List (List Bytes)) (s : Replay) : Prop :=
  ∃ n s', replay room n s = some (.ended s') ∧ s'.handed = cmds

/-- The loop has read `before`, has passed on `pre`, and has `post` in front of it. -/
structure Follows (before : List Chunk) (pre post : List (List Bytes)) (s : Replay) : Prop where
  handed : s.handed = pre
  behind : file before = log pre ++ s.buf
  ahead : s.buf ++ file s.reads = log post

theorem log_cons (cmd : List Bytes) (cmds : List (List Bytes)) :
    log (cmd :: cmds) = append cmd ++ log cmds := rfl

theorem log_append_singleton (pre : List (List Bytes)) (cmd : List Bytes) :
    log (pre ++ [cmd]) = log pre ++ append cmd := by
  simp [log]

variable {cmds : List (List Bytes)}

variable {reads before : List Chunk} {cmd : List Bytes} {s : Replay}

theorem Follows.start (h : file reads = log cmds) : Follows [] [] cmds (.start reads) :=
  ⟨rfl, rfl, h⟩

theorem file_eq_nil (h : file reads = []) : reads = [] := by
  cases reads with
  | nil => rfl
  | cons chunk reads =>
    rw [file, flatMap_cons] at h
    exact absurd (append_eq_nil_iff.mp h).1 chunk.ne_nil

theorem Follows.complete {pre post : List (List Bytes)} {rest : Bytes}
    (h : Follows before pre (cmd :: post) s) (hne : cmd ≠ [])
    (hsized : Sized cmd) (hroom : room cmd.length = true) (hbuf : s.buf = append cmd ++ rest) :
    ∃ s', turn room s = .again s' ∧ s'.reads = s.reads ∧ s'.buf = rest ∧
      Follows before (pre ++ [cmd]) post s' := by
  have hcmd : (cmd.map RespToken.BulkString).map RespToken.to_bytes = cmd := by
    rw [map_map]
    exact map_id cmd
  have hsome : cmd.isEmpty = false := isEmpty_eq_false_iff.mpr hne
  refine ⟨⟨rest, s.reads, pre ++ [cmd]⟩, ?_, rfl, rfl, rfl, ?_, ?_⟩
  · unfold turn
    rw [hbuf, parse_next_array_append hsized hroom]
    dsimp only
    rw [hcmd, hsome, drop_left, h.handed]
    rfl
  · rw [h.behind, hbuf, log_append_singleton, append_assoc]
  · have hahead := h.ahead
    rw [hbuf, log_cons, append_assoc] at hahead
    exact append_cancel_left hahead

theorem Follows.read {pre post : List (List Bytes)} {chunk : Chunk} (h : Follows before pre post s)
    (hreads : s.reads = chunk :: reads) (hparse : parse_next_array room s.buf = .Incomplete) :
    ∃ s', turn room s = .again s' ∧ s'.reads = reads ∧ s'.buf = s.buf ++ chunk.bytes ∧
      Follows (before ++ [chunk]) pre post s' := by
  refine ⟨⟨s.buf ++ chunk.bytes, reads, s.handed⟩, ?_, rfl, rfl, h.handed, ?_, ?_⟩
  · unfold turn
    rw [hparse, hreads]
  · have hfile : file (before ++ [chunk]) = file before ++ chunk.bytes := by simp [file]
    rw [hfile, h.behind, append_assoc]
  · have hahead := h.ahead
    rw [hreads, file, flatMap_cons] at hahead
    rw [append_assoc]
    exact hahead

theorem Follows.exact {cmds : List (List Bytes)} {reads₀ : List Chunk}
    (hcmds : ∀ cmd ∈ cmds, cmd ≠ [] ∧ Sized cmd ∧ room cmd.length = true)
    (hclean : Clean room cmds reads₀) {before : List Chunk} {pre post : List (List Bytes)}
    {s : Replay} (h : Follows before pre post s) (hsplit : cmds = pre ++ post)
    (hreads : reads₀ = before ++ s.reads) : Exact room cmds s := by
  generalize hmeasure : post.length + s.reads.length = measure
  induction measure using Nat.strong_induction_on generalizing before pre post s with
  | _ measure ih =>
    have hnext : ∀ s', turn room s = .again s' → Exact room cmds s' → Exact room cmds s := by
      rintro s' hturn ⟨n, final, hrun, hhanded⟩
      exact ⟨n + 1, final, by rw [replay_of_turn hturn, hrun], hhanded⟩
    cases post with
    | nil =>
      -- nothing is left
      have hahead := h.ahead
      obtain ⟨hbuf, hfile⟩ := append_eq_nil_iff.mp hahead
      refine ⟨1, s, ?_, ?_⟩
      · rw [replay, turn, hbuf, file_eq_nil hfile]
        rfl
      · rw [h.handed, hsplit, append_nil]
    | cons cmd post =>
      obtain ⟨hne, hsized, hroom⟩ := hcmds cmd (by rw [hsplit]; simp)
      have hahead := h.ahead
      rw [log_cons] at hahead
      rcases cut_cases hahead with ⟨z, hz, hcut⟩ | ⟨rest, hbuf, -⟩
      · -- the buffer ends inside the command
        have hparse := hclean before s.reads pre cmd post s.buf z hreads hsplit hcut hz h.behind
        cases hchunks : s.reads with
        | nil =>
          exfalso
          rw [hchunks, file, flatMap_nil, append_nil] at hahead
          have hlen := congrArg length hahead
          have hlen' := congrArg length hcut
          have hpos := length_pos_of_ne_nil hz
          rw [length_append] at hlen hlen'
          omega
        | cons chunk chunks =>
          obtain ⟨s', hturn, hreads', -, hfollows⟩ := h.read hchunks hparse
          refine hnext s' hturn (ih _ ?_ hfollows hsplit ?_ rfl)
          · have hlen := congrArg length hchunks
            rw [length_cons] at hlen
            rw [← hmeasure, hreads']
            omega
          · rw [hreads, hchunks, hreads', append_assoc, singleton_append]
      · obtain ⟨s', hturn, hreads', -, hfollows⟩ := h.complete hne hsized hroom hbuf
        refine hnext s' hturn (ih _ ?_ hfollows ?_ ?_ rfl)
        · rw [← hmeasure, hreads', length_cons]
          omega
        · rw [hsplit, append_assoc, singleton_append]
        · rw [hreads, hreads']

theorem handed_of_replay {n : ℕ} {s' : Replay} (h : replay room n s = some (.ended s')) :
    s.handed <+: s'.handed := by
  induction n generalizing s with
  | zero => cases h
  | succ n ih =>
    rw [replay] at h
    cases hturn : turn room s with
    | ended final =>
      rw [hturn] at h
      have hsame := turn_ended hturn
      cases h
      rw [hsame]
    | crashed final =>
      rw [hturn] at h
      cases h
    | again next =>
      rw [hturn] at h
      refine List.IsPrefix.trans ?_ (ih h)
      rcases turn_again hturn with ⟨consumed, items, -, rfl⟩ | ⟨chunk, reads, -, -, rfl⟩ |
        ⟨e, pos, -, -, rfl⟩
      · split
        · exact prefix_rfl
        · exact prefix_append _ _
      · exact prefix_rfl
      · exact prefix_rfl

theorem Follows.incomplete
    (hcmds : ∀ cmd ∈ cmds, cmd.getLast? ≠ some [] ∧ Sized cmd ∧ room cmd.length = true)
    {pre post : List (List Bytes)}
    (h : Follows before pre (cmd :: post) s) (hsplit : cmds = pre ++ cmd :: post) {z : Bytes}
    (hcut : s.buf ++ z = append cmd) (hz : z ≠ []) (hexact : Exact room cmds s) :
    parse_next_array room s.buf = .Incomplete := by
  obtain ⟨hlast, hsized, hroom⟩ := hcmds cmd (by rw [hsplit]; simp)
  rcases parse_next_array_cut hsized hroom hcut hz with hparse | ⟨consumed, items, hparse, hempty⟩
  · exact hparse
  · -- the command that is passed on ends with an empty argument
    exfalso
    have hitems : items ≠ [] := by
      rintro rfl
      cases hempty
    have hturn : turn room s = .again ⟨s.buf.drop consumed, s.reads,
        pre ++ [items.map RespToken.to_bytes]⟩ := by
      have hsome : (items.map RespToken.to_bytes).isEmpty = false := by
        rw [isEmpty_eq_false_iff, ne_eq, map_eq_nil_iff]
        exact hitems
      unfold turn
      rw [hparse]
      dsimp only
      rw [hsome, h.handed]
      rfl
    obtain ⟨n, final, hrun, hhanded⟩ := hexact
    cases n with
    | zero => cases hrun
    | succ n =>
      rw [replay_of_turn hturn] at hrun
      obtain ⟨rest, hrest⟩ := handed_of_replay hrun
      rw [hhanded, hsplit, append_assoc] at hrest
      have hsame := (cons.inj (append_cancel_left hrest)).1
      refine hlast ?_
      rw [← hsame, getLast?_map]
      exact hempty

theorem Exact.of_turn {s' : Replay} (hturn : turn room s = .again s')
    (h : Exact room cmds s) : Exact room cmds s' := by
  obtain ⟨n, final, hrun, hhanded⟩ := h
  cases n with
  | zero => cases hrun
  | succ n =>
    rw [replay_of_turn hturn] at hrun
    exact ⟨n, final, hrun, hhanded⟩

/-- If the replay is exact, the cuts that are still to come are clean. The induction is on what
lies between the state and the cut: chunks to be read and commands to be passed on. -/
theorem Follows.clean
    (hcmds : ∀ cmd ∈ cmds, cmd.getLast? ≠ some [] ∧ cmd ≠ [] ∧ Sized cmd ∧ room cmd.length = true)
    {between after : List Chunk} {pre mid post : List (List Bytes)} (hexact : Exact room cmds s)
    (h : Follows before pre (mid ++ cmd :: post) s)
    (hsplit : cmds = pre ++ (mid ++ cmd :: post)) (hreads : s.reads = between ++ after)
    {r z : Bytes} (hcut : r ++ z = append cmd) (hz : z ≠ [])
    (hfile : s.buf ++ file between = log mid ++ r) : parse_next_array room r = .Incomplete := by
  have hcmds' : ∀ cmd ∈ cmds, cmd.getLast? ≠ some [] ∧ Sized cmd ∧ room cmd.length = true :=
    fun cmd hcmd => ⟨(hcmds cmd hcmd).1, (hcmds cmd hcmd).2.2⟩
  generalize hmeasure : mid.length + between.length = measure
  induction measure using Nat.strong_induction_on generalizing before between pre mid s with
  | _ measure ih =>
    -- a read on the way to the cut
    have hread : ∀ chunk between', between = chunk :: between' →
        parse_next_array room s.buf = .Incomplete → parse_next_array room r = .Incomplete := by
      rintro chunk between' rfl hparse
      obtain ⟨s', hturn, hreads', hbuf', hfollows⟩ := h.read hreads hparse
      refine ih _ ?_ (hexact.of_turn hturn) hfollows hsplit hreads' ?_ rfl
      · rw [← hmeasure, length_cons]
        omega
      · rw [hbuf', append_assoc]
        exact hfile
    cases mid with
    | nil =>
      have hfile' : s.buf ++ file between = r := hfile
      have hcut' : s.buf ++ (file between ++ z) = append cmd := by
        rw [← append_assoc, hfile', hcut]
      have hparse := h.incomplete hcmds' hsplit hcut'
        (fun hnil => hz (append_eq_nil_iff.mp hnil).2) hexact
      cases hbetween : between with
      | nil =>
        rw [hbetween, file, flatMap_nil, append_nil] at hfile'
        rw [← hfile']
        exact hparse
      | cons chunk between' => exact hread chunk between' hbetween hparse
    | cons next mid =>
      rw [log_cons, append_assoc] at hfile
      rcases cut_cases hfile with ⟨y, hy, hbuf⟩ | ⟨rest, hbuf, hrest⟩
      · have hparse := h.incomplete hcmds' hsplit hbuf hy hexact
        cases hbetween : between with
        | nil =>
          exfalso
          rw [hbetween, file, flatMap_nil, append_nil, ← hbuf, append_assoc] at hfile
          have hlen := congrArg length hfile
          have hpos := length_pos_of_ne_nil hy
          rw [length_append, length_append] at hlen
          omega
        | cons chunk between' => exact hread chunk between' hbetween hparse
      · obtain ⟨-, hne, hsized, hroom⟩ := hcmds next (by rw [hsplit]; simp)
        obtain ⟨s', hturn, hreads', hbuf', hfollows⟩ := h.complete hne hsized hroom hbuf
        refine ih _ ?_ (hexact.of_turn hturn) hfollows ?_ (hreads'.trans hreads) ?_ rfl
        · rw [← hmeasure, length_cons]
          omega
        · rw [hsplit, cons_append, append_assoc, singleton_append]
        · rw [hbuf', hrest]

def ping : List Bytes := [as_bytes "PING"]

def ping_whole : List Chunk := [⟨append ping, by decide, by decide⟩]

def ping_halves : List Chunk :=
  [⟨(append ping).take 10, by decide, by decide⟩, ⟨(append ping).drop 10, by decide, by decide⟩]

end ValkeyRs.Aof
